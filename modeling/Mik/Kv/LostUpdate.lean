/-
  Lost updates in the key-value store.

  `System` is any number of clients over one store, and a record the code does not have: for each
  key, the value of the last `set` that was carried out, with the time its TTL ends, unless a
  `delete` was carried out since. A recorded value whose TTL has not passed must be readable.

  A client that saw an entry expired removes the key later, whatever is there by then. So a value
  is safe when nobody is about to remove its key at the moment it is written: no client will find
  it expired before its TTL has passed, and no removal of it can then become pending
  (`live_step`). On redb this also needs whole seconds, since a deadline between two seconds is
  rounded down.
-/
import Mathlib.Logic.Function.Basic
import Mik.Kv.Backend

namespace Mik.Kv

open Mik.Lib Function

/-! ## The system -/

structure Written where
  value : Bytes
  deadline : Option Nat
  deriving DecidableEq, Repr

/-- The TTL has passed at `t`. -/
def Written.Passed (w : Written) (t : Nat) : Prop := ∃ d, w.deadline = some d ∧ d ≤ t

structure System where
  clients : List Client
  store : Store
  written : String → Option Written

inductive Event where
  | spawn (call : Call)
  | advance (i : Nat) (env : Env)
  deriving DecidableEq, Repr

/-- A client has carried out a `set` or a `delete`. -/
def recordWrite (before after : Client) (written : String → Option Written) :
    String → Option Written :=
  match before, after with
  | .stamped key value ttl readAt, .done (.unit (.ok _)) =>
    update written key (some ⟨value, ttl.map fun d => readAt + d⟩)
  | .deleting key, .done (.flag (.ok _)) => update written key none
  | _, _ => written

def System.step (kind : Kind) (s : System) : Event → System
  | .spawn call => { s with clients := s.clients ++ [.start call] }
  | .advance i env =>
    match s.clients[i]? with
    | none => s
    | some client =>
      { clients := s.clients.set i (client.step kind env s.store).1
        store := (client.step kind env s.store).2
        written := recordWrite client (client.step kind env s.store).1 s.written }

/-- A `get` of `key` at this moment returns `value`. -/
def Readable (kind : Kind) (store : Store) (key : String) (value : Bytes) : Prop :=
  ((Client.looking .get key).step kind ⟨0, none⟩ store).1 = .done (.value (.ok (some value)))

/-- Every value written and not overwritten, deleted or past its TTL can be read. -/
def NoLostUpdate (kind : Kind) (s : System) : Prop :=
  ∀ key w, s.written key = some w → ¬ w.Passed s.store.now →
    Readable kind s.store key w.value

/-! ## What a section does -/

/-- A section leaves the record as it is. -/
def Silent (before after : Client) : Prop := ∀ written, recordWrite before after written = written

/-- The four things a section can do to the map. Apart from a removal it owes, a client only owes
    what it has just seen expired. -/
inductive Effect (kind : Kind) (env : Env) (client : Client) (before : Store) (after : Client)
    (store : Store) : Prop where
  | none (data : store.data = before.data) (record : Silent client after)
      (pending : ∀ key ∈ after.pending, key ∈ client.pending ∨
        ∃ entry, store.data.lookup key = some entry ∧ kind.isExpired entry store.now = true)
  | drop (key : String) (mem : key ∈ client.pending) (data : store.data = before.data.erase key)
      (record : Silent client after) (pending : ∀ key ∈ after.pending, key ∈ client.pending)
  | set (key : String) (value : Bytes) (ttl : Option Nat) (readAt : Nat) (entry : Entry)
      (client_eq : client = .stamped key value ttl readAt)
      (fails : kind.fails env = Option.none)
      (entry_eq : kind.newEntry value ttl readAt = some entry)
      (data : store.data = before.data.insert key entry)
      (record : ∀ written, recordWrite client after written =
        update written key (some ⟨value, ttl.map fun d => readAt + d⟩))
      (pending : after.pending = [])
  | delete (key : String) (data : store.data = before.data.erase key)
      (record : ∀ written, recordWrite client after written = update written key Option.none)
      (pending : after.pending = [])

theorem now_step (kind : Kind) (env : Env) (client : Client) (store : Store) :
    (client.step kind env store).2.now = store.now + env.elapsed := by
  unfold Client.step
  dsimp only
  repeat' split
  all_goals rfl

theorem isExpired_of_mem_scan {kind : Kind} {store : Store} {pre : Option String} {i : Nat}
    {key : String} (h : key ∈ store.scan kind pre i true) :
    ∃ entry, store.data.lookup key = some entry ∧ kind.isExpired entry store.now = true := by
  obtain ⟨⟨key', entry⟩, hmem, rfl⟩ := List.mem_map.mp h
  obtain ⟨hentry, hcond⟩ := List.mem_filter.mp hmem
  rw [Bool.and_eq_true, beq_iff_eq] at hcond
  exact ⟨entry, AList.mem_lookup_iff.mpr hentry, hcond.2⟩

theorem step_effect (kind : Kind) (env : Env) (client : Client) (before : Store) :
    Effect kind env client before (client.step kind env before).1
      (client.step kind env before).2 := by
  have hquiet : ∀ {after : Client} {store : Store}, store.data = before.data →
      Silent client after → after.pending = [] → Effect kind env client before after store := by
    intro after store hdata hrecord hpending
    refine .none hdata hrecord fun key hkey => ?_
    rw [hpending] at hkey
    cases hkey
  cases client with
  | looking which key =>
    unfold Client.step
    dsimp only
    split
    · exact hquiet rfl (fun _ => rfl) rfl
    split
    · exact hquiet rfl (fun _ => rfl) rfl
    · next entry hlookup =>
      split
      · next hexpired =>
        refine .none rfl (fun _ => rfl) fun key' hkey' => Or.inr ?_
        rw [List.mem_singleton.mp hkey']
        exact ⟨entry, hlookup, hexpired⟩
      · exact hquiet rfl (fun _ => rfl) rfl
  | dropping which key =>
    unfold Client.step
    dsimp only
    split
    · exact hquiet rfl (fun _ => rfl) rfl
    · refine .drop key List.mem_cons_self rfl (fun _ => rfl) fun key' hkey' => ?_
      cases hkey'
  | setting key value ttl => exact hquiet rfl (fun _ => rfl) rfl
  | stamped key value ttl readAt =>
    unfold Client.step
    dsimp only
    split
    · exact hquiet rfl (fun _ => rfl) rfl
    · next entry hentry =>
      split
      · exact hquiet rfl (fun _ => rfl) rfl
      · next hfails =>
        exact .set key value ttl readAt entry rfl hfails hentry rfl (fun _ => rfl) rfl
  | deleting key =>
    unfold Client.step
    dsimp only
    split
    · exact hquiet rfl (fun _ => rfl) rfl
    · exact .delete key rfl (fun _ => rfl) rfl
  | listing pre scan keys expired =>
    unfold Client.step
    dsimp only
    split
    · split
      · exact hquiet rfl (fun _ => rfl) rfl
      · refine .none rfl (fun _ => rfl) fun key hkey => ?_
        rcases List.mem_append.mp hkey with hkey | hkey
        · exact Or.inl hkey
        · exact Or.inr (isExpired_of_mem_scan hkey)
    · exact .none rfl (fun _ => rfl) fun key hkey => Or.inl hkey
  | cleaning expired keys =>
    cases expired with
    | nil => exact hquiet rfl (fun _ => rfl) rfl
    | cons key expired =>
      have hrest : ∀ key' ∈ expired, key' ∈ key :: expired :=
        fun key' hkey' => List.mem_cons_of_mem _ hkey'
      unfold Client.step
      dsimp only
      split
      · exact .none rfl (fun _ => rfl) fun key' hkey' => Or.inl (hrest key' hkey')
      · exact .drop key List.mem_cons_self rfl (fun _ => rfl) hrest
  | done reply => exact hquiet rfl (fun _ => rfl) rfl
  | panicked => exact hquiet rfl (fun _ => rfl) rfl

/-! ## The condition -/

/-- The backend keeps a value at least as long as its TTL says: redb does when it is in whole
    seconds, from a whole second on, and the sum fits 64 bits. -/
def Kind.KeepsTtl : Kind → (ttl : Option Nat) → (readAt : Nat) → Prop
  | memory _ _, _, _ => True
  | redb, ttl, readAt => ∀ d, ttl = some d → readAt % 1000000000 = 0 ∧ d % 1000000000 = 0 ∧
      readAt / 1000000000 + d / 1000000000 < 0x10000000000000000

/-- When a `set` is about to be carried out, no client is about to remove its key. -/
def SetsUndisturbed (kind : Kind) (s : System) : Event → Prop
  | .spawn _ => True
  | .advance i env => ∀ key value ttl readAt,
      s.clients[i]? = some (.stamped key value ttl readAt) → kind.fails env = none →
      (∀ client ∈ s.clients, key ∉ client.pending) ∧ kind.KeepsTtl ttl readAt

/-- An entry keeps its value and does not expire before the TTL has passed. -/
theorem newEntry_spec {kind : Kind} {value : Bytes} {ttl : Option Nat} {readAt : Nat}
    {entry : Entry} (h : kind.newEntry value ttl readAt = some entry)
    (hkeeps : kind.KeepsTtl ttl readAt) :
    entry.value = value ∧
      ∀ t, ¬ Written.Passed ⟨value, ttl.map fun d => readAt + d⟩ t →
        kind.isExpired entry t = false := by
  have hbefore : ∀ {d t : Nat}, ttl = some d →
      ¬ Written.Passed ⟨value, ttl.map fun d => readAt + d⟩ t → t < readAt + d := by
    intro d t httl hpassed
    by_contra hge
    refine hpassed ⟨readAt + d, ?_, by omega⟩
    rw [httl]
    rfl
  cases kind with
  | memory shards shardOf =>
    cases ttl with
    | none =>
      cases h
      exact ⟨rfl, fun _ _ => rfl⟩
    | some d =>
      simp only [Kind.newEntry, MemoryEntry.new] at h
      split at h
      · cases h
        refine ⟨rfl, fun t ht => ?_⟩
        have := hbefore rfl ht
        exact decide_eq_false (by omega)
      · cases h
  | redb =>
    cases ttl with
    | none =>
      cases h
      exact ⟨rfl, fun _ _ => rfl⟩
    | some d =>
      obtain ⟨hread, hd, hfits⟩ := hkeeps d rfl
      cases h
      refine ⟨rfl, fun t ht => ?_⟩
      have := hbefore rfl ht
      refine decide_eq_false ?_
      rw [Nat.mod_eq_of_lt hfits]
      omega

/-! ## What is alive stays alive -/

/-- Every recorded value whose TTL has not passed is in the map, in an entry that lasts as long,
    and nobody is about to remove it. -/
def Live (kind : Kind) (s : System) : Prop :=
  ∀ key w, s.written key = some w → ¬ w.Passed s.store.now →
    (∃ entry, s.store.data.lookup key = some entry ∧ entry.value = w.value ∧
      ∀ t, ¬ w.Passed t → kind.isExpired entry t = false) ∧
    ∀ client ∈ s.clients, key ∉ client.pending

theorem Live.noLostUpdate {kind : Kind} {s : System} (h : Live kind s) : NoLostUpdate kind s := by
  intro key w hw hpassed
  obtain ⟨⟨entry, hlookup, hvalue, hlasts⟩, -⟩ := h key w hw hpassed
  have hfails : kind.fails ⟨0, none⟩ = none := by
    cases kind with
    | memory shards shardOf => rfl
    | redb => rfl
  have hexpired : kind.isExpired entry (s.store.now + 0) = false := hlasts _ hpassed
  unfold Readable Client.step
  dsimp only
  rw [hfails]
  dsimp only
  rw [hlookup]
  dsimp only
  rw [hexpired, hvalue]
  rfl

theorem Written.Passed.mono {w : Written} {t t' : Nat} (h : w.Passed t) (hle : t ≤ t') :
    w.Passed t' := by
  obtain ⟨d, hd, hdt⟩ := h
  exact ⟨d, hd, Nat.le_trans hdt hle⟩

theorem live_step {kind : Kind} {s : System} {e : Event} (h : Live kind s)
    (hok : SetsUndisturbed kind s e) : Live kind (s.step kind e) := by
  cases e with
  | spawn call =>
    intro key w hw hpassed
    obtain ⟨hentry, hpending⟩ := h key w hw hpassed
    refine ⟨hentry, fun client hclient => ?_⟩
    rcases List.mem_append.mp hclient with hclient | hclient
    · exact hpending client hclient
    · rw [List.mem_singleton.mp hclient]
      cases call <;> exact List.not_mem_nil
  | advance i env =>
    unfold System.step
    dsimp only
    split
    · exact h
    · next client hi =>
      have hclient := List.mem_of_getElem? hi
      have hnow := now_step kind env client s.store
      have heffect := step_effect kind env client s.store
      revert hnow heffect
      generalize hafter : (client.step kind env s.store).1 = after
      generalize hstore : (client.step kind env s.store).2 = store
      intro hnow heffect key w hw hpassed
      dsimp only at hw hpassed ⊢
      -- the key was alive before, unless it is the one just written
      have hbefore : s.written key = some w →
          (∃ entry, s.store.data.lookup key = some entry ∧ entry.value = w.value ∧
            ∀ t, ¬ w.Passed t → kind.isExpired entry t = false) ∧
          ∀ c ∈ s.clients, key ∉ c.pending :=
        fun hw' => h key w hw' fun hp => hpassed (hp.mono (by omega))
      have hclients : (∀ c ∈ s.clients, key ∉ c.pending) → key ∉ after.pending →
          ∀ c ∈ s.clients.set i after, key ∉ c.pending := by
        intro hold hnew c hc
        rcases List.mem_or_eq_of_mem_set hc with hc | rfl
        · exact hold c hc
        · exact hnew
      cases heffect with
      | none hdata hrecord hpending =>
        rw [hrecord] at hw
        obtain ⟨⟨entry, hlookup, hvalue, hlasts⟩, hold⟩ := hbefore hw
        refine ⟨⟨entry, by rw [hdata, hlookup], hvalue, hlasts⟩, hclients hold fun hmem => ?_⟩
        rcases hpending key hmem with hmem | ⟨entry', hlookup', hexpired⟩
        · exact hold client hclient hmem
        · rw [hdata, hlookup] at hlookup'
          cases hlookup'
          rw [hlasts _ hpassed] at hexpired
          cases hexpired
      | drop key' hmem hdata hrecord hpending =>
        rw [hrecord] at hw
        obtain ⟨⟨entry, hlookup, hvalue, hlasts⟩, hold⟩ := hbefore hw
        have hne : key ≠ key' := by
          rintro rfl
          exact hold client hclient hmem
        refine ⟨⟨entry, ?_, hvalue, hlasts⟩,
          hclients hold fun hmem' => hold client hclient (hpending key hmem')⟩
        rw [hdata, AList.lookup_erase_ne hne, hlookup]
      | set key' value ttl readAt entry' hclient_eq hfails hentry hdata hrecord hpending =>
        have hnotMem : key ∉ after.pending := by
          rw [hpending]
          exact List.not_mem_nil
        rw [hrecord] at hw
        by_cases hkey : key = key'
        · subst hkey
          rw [hclient_eq] at hi
          obtain ⟨hundisturbed, hkeeps⟩ := hok key value ttl readAt hi hfails
          obtain ⟨hvalue, hlasts⟩ := newEntry_spec hentry hkeeps
          rw [update_self] at hw
          cases hw
          refine ⟨⟨entry', ?_, hvalue, hlasts⟩, hclients hundisturbed hnotMem⟩
          rw [hdata, AList.lookup_insert]
        · rw [update_of_ne hkey] at hw
          obtain ⟨⟨entry, hlookup, hvalue, hlasts⟩, hold⟩ := hbefore hw
          refine ⟨⟨entry, ?_, hvalue, hlasts⟩, hclients hold hnotMem⟩
          rw [hdata, AList.lookup_insert_ne hkey, hlookup]
      | delete key' hdata hrecord hpending =>
        rw [hrecord] at hw
        have hkey : key ≠ key' := by
          rintro rfl
          rw [update_self] at hw
          cases hw
        rw [update_of_ne hkey] at hw
        obtain ⟨⟨entry, hlookup, hvalue, hlasts⟩, hold⟩ := hbefore hw
        refine ⟨⟨entry, ?_, hvalue, hlasts⟩, hclients hold ?_⟩
        · rw [hdata, AList.lookup_erase_ne hkey, hlookup]
        · rw [hpending]
          exact List.not_mem_nil

/-- No client yet, and nothing written; the store may hold what it held before. -/
structure System.Fresh (s : System) : Prop where
  clients : s.clients = []
  written : s.written = fun _ => none

/-- No lost update, over every interleaving of any number of clients on either backend: in every
    state of a run in which no `set` is carried out while a client is about to remove its key, and
    redb is given whole seconds, every value written is readable until it is overwritten or
    deleted or its TTL has passed. -/
theorem no_lost_update (kind : Kind) (s : System) (hs : s.Fresh) (events : List Event)
    (h : Along (System.step kind) (SetsUndisturbed kind) s events) :
    ∀ pre, pre <+: events → NoLostUpdate kind (run (System.step kind) s pre) := by
  intro pre hpre
  have hlive : Live kind s := by
    intro key w hw
    rw [hs.written] at hw
    cases hw
  exact (run_invariant hlive (fun _ _ hl hok => live_step hl hok)
    (along_upto h hpre)).noLostUpdate

def emptySystem : System := ⟨[], ⟨0, ∅⟩, fun _ => none⟩

/-- A key that expires is written, seen expired by a `get`, and written anew before the `get` gets
    to remove it. -/
def staleRemoval : List Event :=
  [.spawn (.set "k" [1] (some 1000000000)), .advance 0 ⟨0, none⟩, .advance 0 ⟨0, none⟩,
    .spawn (.lookup .get "k"), .advance 1 ⟨2000000000, none⟩,
    .spawn (.set "k" [2] none), .advance 2 ⟨0, none⟩, .advance 2 ⟨0, none⟩,
    .advance 1 ⟨0, none⟩]

/-- The new value, written without a TTL, is gone, on either backend. -/
theorem stale_removal_loses_value :
    ¬ NoLostUpdate (.memory 1 fun _ => 0)
        (run (System.step (.memory 1 fun _ => 0)) emptySystem staleRemoval) ∧
      ¬ NoLostUpdate .redb (run (System.step .redb) emptySystem staleRemoval) := by
  have hforever : ∀ t, ¬ Written.Passed ⟨[2], none⟩ t := by
    rintro t ⟨d, hd, -⟩
    cases hd
  constructor
  · intro h
    have hreadable := h "k" ⟨[2], none⟩ rfl (hforever _)
    cases hreadable
  · intro h
    have hreadable := h "k" ⟨[2], none⟩ rfl (hforever _)
    cases hreadable

/-- Once the `get` has removed the expired entry, the next `set` is safe. -/
theorem no_lost_update_after_removal :
    emptySystem.Fresh ∧
      ∀ pre, pre <+: [.spawn (.set "k" [1] (some 1000000000)), .advance 0 ⟨0, none⟩,
          .advance 0 ⟨0, none⟩, .spawn (.lookup .get "k"), .advance 1 ⟨2000000000, none⟩,
          .advance 1 ⟨5, none⟩, .spawn (.set "k" [2] none), .advance 2 ⟨0, none⟩,
          .advance 2 ⟨0, none⟩] →
        NoLostUpdate .redb (run (System.step .redb) emptySystem pre) := by
  refine ⟨⟨rfl, rfl⟩, no_lost_update .redb emptySystem ⟨rfl, rfl⟩ _ ?_⟩
  refine ⟨trivial, ?_, ?_, trivial, ?_, ?_, trivial, ?_, ?_, trivial⟩
  · intro key value ttl readAt hclient
    cases hclient
  · intro key value ttl readAt hclient _
    cases hclient
    refine ⟨by decide, fun d hd => ?_⟩
    cases hd
    decide
  · intro key value ttl readAt hclient
    cases hclient
  · intro key value ttl readAt hclient
    cases hclient
  · intro key value ttl readAt hclient
    cases hclient
  · intro key value ttl readAt hclient _
    cases hclient
    refine ⟨by decide, fun d hd => ?_⟩
    cases hd

end Mik.Kv
