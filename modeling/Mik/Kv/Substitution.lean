/-
  One backend in place of the other.

  A call that runs alone takes its sections one after the other (`Kind.call`); a `get` then
  removes at once what it finds expired, and a listing cleans up before it returns. `Both` runs
  every call on a memory and a redb backend at the same time, and remembers for each key when and
  with which TTL it was last set.

  The memory backend keeps an entry set at `t` with TTL `d` until `t + d`. The redb backend drops
  the fractions of both and keeps it until the second `⌊t⌋ + ⌊d⌋`, which is up to two seconds
  earlier. Between these two moments (`Stamp.Rounded`) one still returns the entry and the other
  does not. Outside of them the two hold the same keys with the same values (`Mirrored`), also
  after cleaning up, and all their replies agree.
-/
import Mik.Kv.LostUpdate

namespace Mik.Kv

open Mik.Lib Function

/-! ## A call that runs alone -/

/-- So many sections of one client, at one moment and with no failure. -/
def Client.alone (kind : Kind) : Nat → Client → Store → Client × Store
  | 0, client, store => (client, store)
  | n + 1, client, store =>
    alone kind n (client.step kind ⟨0, none⟩ store).1 (client.step kind ⟨0, none⟩ store).2

/-- A whole call, a time `elapsed` after the last one. A listing takes one section a shard, one to
    turn to the cleaning, and one for each key it saw expired. -/
def Kind.call (kind : Kind) (call : Call) (elapsed : Nat) (store : Store) : Client × Store :=
  (Client.start call).alone kind (kind.scans + kind.scans * store.data.entries.length + 2)
    { store with now := store.now + elapsed }

section

variable {kind : Kind}

theorem fails_none : kind.fails ⟨0, none⟩ = none := by
  cases kind with
  | memory shards shardOf => rfl
  | redb => rfl

theorem alone_done (n : Nat) (reply : Reply) (store : Store) :
    (Client.done reply).alone kind n store = (.done reply, store) := by
  induction n with
  | zero => rfl
  | succ n ih => exact ih

theorem alone_panicked (n : Nat) (store : Store) :
    Client.panicked.alone kind n store = (.panicked, store) := by
  induction n with
  | zero => rfl
  | succ n ih => exact ih

theorem call_lookup_absent {key : String} {elapsed : Nat} {store : Store}
    (h : store.data.lookup key = none) (which : Lookup) :
    kind.call (.lookup which key) elapsed store =
      (.done (which.reply (.ok none)), ⟨store.now + elapsed, store.data⟩) := by
  simp only [Kind.call, Client.start, Client.alone, Client.step, fails_none, h, alone_done]
  rfl

theorem call_lookup_expired {key : String} {elapsed : Nat} {store : Store} {entry : Entry}
    (h : store.data.lookup key = some entry)
    (hexpired : kind.isExpired entry (store.now + elapsed) = true) (which : Lookup) :
    kind.call (.lookup which key) elapsed store =
      (.done (which.reply (.ok none)), ⟨store.now + elapsed, store.data.erase key⟩) := by
  simp only [Kind.call, Client.start, Client.alone, Client.step, fails_none, h, Nat.add_zero,
    hexpired, if_true, alone_done]

theorem call_lookup_live {key : String} {elapsed : Nat} {store : Store} {entry : Entry}
    (h : store.data.lookup key = some entry)
    (hexpired : kind.isExpired entry (store.now + elapsed) = false) (which : Lookup) :
    kind.call (.lookup which key) elapsed store =
      (.done (which.reply (.ok (some entry.value))), ⟨store.now + elapsed, store.data⟩) := by
  simp only [Kind.call, Client.start, Client.alone, Client.step, fails_none, h, Nat.add_zero,
    hexpired, Bool.false_eq_true, if_false, alone_done]

theorem call_set {value : Bytes} {ttl : Option Nat} {elapsed : Nat} {store : Store} {entry : Entry}
    (h : kind.newEntry value ttl (store.now + elapsed) = some entry) (key : String) :
    kind.call (.set key value ttl) elapsed store =
      (.done (.unit (.ok ())), ⟨store.now + elapsed, store.data.insert key entry⟩) := by
  simp only [Kind.call, Client.start, Client.alone, Client.step, fails_none, Nat.add_zero, h,
    alone_done]

theorem call_set_panics {value : Bytes} {ttl : Option Nat} {elapsed : Nat} {store : Store}
    (h : kind.newEntry value ttl (store.now + elapsed) = none) (key : String) :
    (kind.call (.set key value ttl) elapsed store).1 = .panicked := by
  simp only [Kind.call, Client.start, Client.alone, Client.step, Nat.add_zero, h, alone_panicked]

theorem call_delete (key : String) (elapsed : Nat) (store : Store) :
    kind.call (.delete key) elapsed store =
      (.done (.flag (.ok (store.data.lookup key).isSome)),
        ⟨store.now + elapsed, store.data.erase key⟩) := by
  simp only [Kind.call, Client.start, Client.alone, Client.step, fails_none, alone_done]
  rfl

/-! ## A listing that runs alone -/

/-- The keys that the sections of a listing see, by whether they have expired. -/
def Store.scans (kind : Kind) (store : Store) (pre : Option String) (expired : Bool) (n : Nat) :
    List String :=
  (List.range n).flatMap fun i => store.scan kind pre i expired

theorem alone_listing (pre : Option String) (store : Store) (n m : Nat) (hn : n ≤ kind.scans) :
    (Client.start (.list pre)).alone kind (n + m) store =
      (Client.listing pre n (store.scans kind pre false n) (store.scans kind pre true n)).alone
        kind m store := by
  induction n generalizing m with
  | zero =>
    rw [Nat.zero_add]
    rfl
  | succ n ih =>
    have hlt : n < kind.scans := hn
    rw [Nat.add_right_comm, Nat.add_assoc, ih (m + 1) (by omega)]
    simp only [Client.alone, Client.step, fails_none, Nat.add_zero, hlt, if_true, Store.scans,
      List.range_succ, List.flatMap_append, List.flatMap_cons, List.flatMap_nil, List.append_nil]

theorem alone_listed (pre : Option String) (keys expired : List String) (n : Nat) (store : Store) :
    (Client.listing pre kind.scans keys expired).alone kind (n + 1) store =
      (Client.cleaning expired keys).alone kind n store := by
  have hstep : (Client.listing pre kind.scans keys expired).step kind ⟨0, none⟩ store =
      (.cleaning expired keys, store) := by
    simp only [Client.step, Nat.lt_irrefl, if_false]
    rfl
  rw [Client.alone, hstep]

def eraseAll (data : AList fun _ : String => Entry) (keys : List String) :
    AList fun _ : String => Entry :=
  keys.foldl (fun data key => data.erase key) data

theorem lookup_eraseAll (data : AList fun _ : String => Entry) (keys : List String)
    (key : String) :
    (eraseAll data keys).lookup key = if key ∈ keys then none else data.lookup key := by
  unfold eraseAll
  induction keys generalizing data with
  | nil => rfl
  | cons key' keys ih =>
    rw [List.foldl_cons, ih]
    by_cases hkey : key = key'
    · subst hkey
      rw [AList.lookup_erase, if_pos List.mem_cons_self]
      split <;> rfl
    · rw [AList.lookup_erase_ne hkey]
      simp only [List.mem_cons, hkey, false_or]

theorem alone_cleaning (expired keys : List String) (n : Nat) (hn : expired.length < n)
    (store : Store) :
    (Client.cleaning expired keys).alone kind n store =
      (.done (.keys (.ok keys)), { store with data := eraseAll store.data expired }) := by
  induction expired generalizing n store with
  | nil =>
    obtain ⟨n, rfl⟩ := Nat.exists_eq_succ_of_ne_zero (Nat.ne_of_gt hn)
    exact alone_done n _ store
  | cons key expired ih =>
    obtain ⟨n, rfl⟩ := Nat.exists_eq_succ_of_ne_zero (Nat.ne_of_gt (Nat.zero_lt_of_lt hn))
    simp only [Client.alone, Client.step, fails_none]
    exact ih n (Nat.lt_of_succ_lt_succ hn) _

theorem length_scans_le (store : Store) (pre : Option String) (expired : Bool) (n : Nat) :
    (store.scans kind pre expired n).length ≤ n * store.data.entries.length := by
  induction n with
  | zero => exact Nat.zero_le _
  | succ n ih =>
    have hone : (store.scan kind pre n expired).length ≤ store.data.entries.length := by
      rw [Store.scan, List.length_map]
      exact List.length_filter_le _ _
    simp only [Store.scans, List.range_succ, List.flatMap_append, List.flatMap_cons,
      List.flatMap_nil, List.append_nil, List.length_append] at ih ⊢
    rw [Nat.succ_mul]
    omega

theorem call_list (pre : Option String) (elapsed : Nat) (store : Store) :
    kind.call (.list pre) elapsed store =
      (.done (.keys (.ok (Store.scans kind ⟨store.now + elapsed, store.data⟩ pre false
          kind.scans))),
        ⟨store.now + elapsed, eraseAll store.data (Store.scans kind
          ⟨store.now + elapsed, store.data⟩ pre true kind.scans)⟩) := by
  have hlen := @length_scans_le kind ⟨store.now + elapsed, store.data⟩ pre true kind.scans
  unfold Kind.call
  rw [Nat.add_assoc, alone_listing pre _ _ _ (Nat.le_refl _), alone_listed]
  exact alone_cleaning _ _ _ (Nat.lt_succ_of_le hlen) _

end

/-! ## The two backends side by side -/

/-- When and with which TTL a key was last set. -/
structure Stamp where
  value : Bytes
  setAt : Nat
  ttl : Option Nat
  deriving DecidableEq, Repr

structure Both where
  memory : Store
  redb : Store
  written : String → Option Stamp

/-- A call, and the time since the last one. -/
structure Timed where
  elapsed : Nat
  call : Call
  deriving DecidableEq, Repr

/-- The last `set` of each key that no `delete` followed. -/
def recordCall (now : Nat) (written : String → Option Stamp) : Call → String → Option Stamp
  | .set key value ttl => update written key (some ⟨value, now, ttl⟩)
  | .delete key => update written key none
  | _ => written

section

variable (shards : Nat) (shardOf : String → Nat)

def Both.step (s : Both) (e : Timed) : Both where
  memory := ((Kind.memory shards shardOf).call e.call e.elapsed s.memory).2
  redb := (Kind.redb.call e.call e.elapsed s.redb).2
  written := recordCall (s.memory.now + e.elapsed) s.written e.call

/-- Two results are the same; listings are compared as sets. -/
def SameResult : Client → Client → Prop
  | .done (.keys (.ok keys)), .done (.keys (.ok keys')) => ∀ key, key ∈ keys ↔ key ∈ keys'
  | .done reply, .done reply' => reply = reply'
  | _, _ => False

def Both.Agrees (s : Both) (e : Timed) : Prop :=
  SameResult ((Kind.memory shards shardOf).call e.call e.elapsed s.memory).1
    (Kind.redb.call e.call e.elapsed s.redb).1

/-- Both backends empty, at any time. -/
def Both.fresh (now : Nat) : Both := ⟨⟨now, ∅⟩, ⟨now, ∅⟩, fun _ => none⟩

end

/-! ## The moments in which they differ -/

/-- The TTL has passed at `t`. -/
def Stamp.Passed (w : Stamp) (t : Nat) : Prop := ∃ d, w.ttl = some d ∧ w.setAt + d ≤ t

/-- In whole seconds the TTL has passed at `t`, but not to the nanosecond. -/
def Stamp.Rounded (w : Stamp) (t : Nat) : Prop :=
  ∃ d, w.ttl = some d ∧ w.setAt / 1000000000 + d / 1000000000 ≤ t / 1000000000 ∧ t < w.setAt + d

/-- No key that the call asks for is within its rounding, and the deadline of a `set` is one that
    an `Instant` can hold. -/
def Exact (s : Both) (e : Timed) : Prop :=
  match e.call with
  | .lookup _ key =>
    ∀ w, s.written key = some w → ¬ w.Rounded (s.memory.now + e.elapsed)
  | .list pre =>
    ∀ key w, s.written key = some w → (pre.map fun p => startsWith p key).getD true = true →
      ¬ w.Rounded (s.memory.now + e.elapsed)
  | .set _ _ ttl =>
    ∀ d, ttl = some d → (s.memory.now + e.elapsed + d) / 1000000000 ≤ 0x7fffffffffffffff
  | .delete _ => True

/-! ## The simulation -/

def Stamp.memoryEntry (w : Stamp) : Entry := ⟨w.value, w.ttl.map fun d => w.setAt + d⟩

def Stamp.redbEntry (w : Stamp) : Entry :=
  ⟨w.value, w.ttl.map fun d => w.setAt / 1000000000 + d / 1000000000⟩

/-- What the two backends hold for a key: nothing, the two entries of its last `set`, or again
    nothing once its TTL has passed and it was cleaned up. -/
def Slot (now : Nat) : Option Stamp → Option Entry → Option Entry → Prop
  | none, m, r => m = none ∧ r = none
  | some w, m, r =>
    (m = some w.memoryEntry ∧ r = some w.redbEntry) ∨ (m = none ∧ r = none ∧ w.Passed now)

structure Mirrored (s : Both) : Prop where
  clock : s.redb.now = s.memory.now
  slots : ∀ key, Slot s.memory.now (s.written key) (s.memory.data.lookup key)
    (s.redb.data.lookup key)

theorem Stamp.Passed.later {w : Stamp} {t t' : Nat} (h : w.Passed t) (hle : t ≤ t') :
    w.Passed t' := by
  obtain ⟨d, hd, hdt⟩ := h
  exact ⟨d, hd, Nat.le_trans hdt hle⟩

theorem Stamp.Passed.not_rounded {w : Stamp} {t : Nat} (h : w.Passed t) : ¬ w.Rounded t := by
  rintro ⟨d, hd, -, hlt⟩
  obtain ⟨d', hd', hle⟩ := h
  rw [hd] at hd'
  cases hd'
  omega

theorem memoryEntry_isExpired (w : Stamp) (t : Nat) :
    MemoryEntry.isExpired w.memoryEntry t = true ↔ w.Passed t := by
  obtain ⟨value, setAt, ttl⟩ := w
  cases ttl with
  | none => simp [MemoryEntry.isExpired, Stamp.memoryEntry, Stamp.Passed]
  | some d => simp [MemoryEntry.isExpired, Stamp.memoryEntry, Stamp.Passed]

theorem redbEntry_isExpired (w : Stamp) (t : Nat) :
    KvEntry.isExpired w.redbEntry t = true ↔ w.Passed t ∨ w.Rounded t := by
  obtain ⟨value, setAt, ttl⟩ := w
  cases ttl with
  | none => simp [KvEntry.isExpired, Stamp.redbEntry, Stamp.Passed, Stamp.Rounded]
  | some d =>
    simp only [KvEntry.isExpired, Stamp.redbEntry, Stamp.Passed, Stamp.Rounded, Option.map_some,
      Option.any_some, decide_eq_true_eq, Option.some.injEq, exists_eq_left']
    omega

theorem Slot.later {now now' : Nat} {w : Option Stamp} {m r : Option Entry} (h : Slot now w m r)
    (hle : now ≤ now') : Slot now' w m r := by
  cases w with
  | none => exact h
  | some w =>
    rcases h with h | ⟨hm, hr, hpassed⟩
    · exact Or.inl h
    · exact Or.inr ⟨hm, hr, hpassed.later hle⟩

/-- Erasing a key on both sides, once its TTL has passed. -/
theorem Slot.erased {now : Nat} {w : Stamp} (h : w.Passed now) : Slot now (some w) none none :=
  Or.inr ⟨rfl, rfl, h⟩

section

variable {shards : Nat} {shardOf : String → Nat} {s : Both} {elapsed : Nat}

/-- Where a looked-up key stands on both sides. -/
theorem Mirrored.lookup_cases (h : Mirrored s) (key : String) :
    (s.memory.data.lookup key = none ∧ s.redb.data.lookup key = none ∧
      ∀ w, s.written key = some w → w.Passed s.memory.now) ∨
    ∃ w, s.written key = some w ∧ s.memory.data.lookup key = some w.memoryEntry ∧
      s.redb.data.lookup key = some w.redbEntry := by
  have hslot := h.slots key
  cases hw : s.written key with
  | none =>
    rw [hw] at hslot
    refine Or.inl ⟨hslot.1, hslot.2, fun w hw' => ?_⟩
    cases hw'
  | some w =>
    rw [hw] at hslot
    rcases hslot with ⟨hm, hr⟩ | ⟨hm, hr, hpassed⟩
    · exact Or.inr ⟨w, rfl, hm, hr⟩
    · refine Or.inl ⟨hm, hr, fun w' hw' => ?_⟩
      cases hw'
      exact hpassed

/-- A change of one key on both sides keeps the mirror, if the key itself is in order after it. -/
theorem Mirrored.update {written : String → Option Stamp} {mem red : AList fun _ : String => Entry}
    {now : Nat} (h : Mirrored s) (hnow : s.memory.now ≤ now) (key : String)
    (hmem : ∀ key', key' ≠ key → mem.lookup key' = s.memory.data.lookup key')
    (hred : ∀ key', key' ≠ key → red.lookup key' = s.redb.data.lookup key')
    (hwritten : ∀ key', key' ≠ key → written key' = s.written key')
    (hslot : Slot now (written key) (mem.lookup key) (red.lookup key)) :
    Mirrored ⟨⟨now, mem⟩, ⟨now, red⟩, written⟩ := by
  refine ⟨rfl, fun key' => ?_⟩
  by_cases hkey : key' = key
  · subst hkey
    exact hslot
  · dsimp only
    rw [hmem key' hkey, hred key' hkey, hwritten key' hkey]
    exact (h.slots key').later hnow

theorem reply_ne (which : Lookup) (value : Bytes) :
    which.reply (.ok (some value)) ≠ which.reply (.ok none) := by
  cases which with
  | get => intro h; cases h
  | existsKey => intro h; cases h

theorem sameResult_lookup (which : Lookup) (x y : Except String (Option Bytes)) :
    SameResult (.done (which.reply x)) (.done (which.reply y)) ↔ which.reply x = which.reply y := by
  cases which with
  | get => exact Iff.rfl
  | existsKey => exact Iff.rfl

theorem lookup_step (h : Mirrored s) (which : Lookup) (key : String) :
    (s.Agrees shards shardOf ⟨elapsed, .lookup which key⟩ ↔
      Exact s ⟨elapsed, .lookup which key⟩) ∧
    (Exact s ⟨elapsed, .lookup which key⟩ →
      Mirrored (s.step shards shardOf ⟨elapsed, .lookup which key⟩)) := by
  have hclock : s.redb.now + elapsed = s.memory.now + elapsed := by rw [h.clock]
  unfold Both.Agrees Both.step
  dsimp only
  rcases h.lookup_cases key with ⟨hm, hr, hpassed⟩ | ⟨w, hw, hm, hr⟩
  · rw [call_lookup_absent hm, call_lookup_absent hr, hclock]
    refine ⟨⟨fun _ w hw => ?_, fun _ => (sameResult_lookup ..).mpr rfl⟩, fun _ => ?_⟩
    · exact ((hpassed w hw).later (Nat.le_add_right _ _)).not_rounded
    · exact ⟨rfl, fun key' => (h.slots key').later (Nat.le_add_right _ _)⟩
  · have hexact : Exact s ⟨elapsed, .lookup which key⟩ ↔
        ¬ w.Rounded (s.memory.now + elapsed) := by
      refine ⟨fun hok => hok w hw, fun hok w' hw' => ?_⟩
      rw [hw] at hw'
      cases hw'
      exact hok
    by_cases hpassed : w.Passed (s.memory.now + elapsed)
    · -- expired on both sides
      have hme : (Kind.memory shards shardOf).isExpired w.memoryEntry (s.memory.now + elapsed) =
        true := (memoryEntry_isExpired w _).mpr hpassed
      have hre : Kind.redb.isExpired w.redbEntry (s.redb.now + elapsed) = true := by
        rw [hclock]
        exact (redbEntry_isExpired w _).mpr (Or.inl hpassed)
      rw [call_lookup_expired hm hme, call_lookup_expired hr hre, hclock, hexact]
      refine ⟨⟨fun _ => hpassed.not_rounded, fun _ => (sameResult_lookup ..).mpr rfl⟩, fun _ => ?_⟩
      refine h.update (Nat.le_add_right _ _) key (fun key' => AList.lookup_erase_ne)
        (fun key' => AList.lookup_erase_ne) (fun _ _ => rfl) ?_
      show Slot _ (s.written key) _ _
      rw [hw, AList.lookup_erase, AList.lookup_erase]
      exact Slot.erased hpassed
    · have hme : (Kind.memory shards shardOf).isExpired w.memoryEntry (s.memory.now + elapsed) =
          false := by
        rw [Bool.eq_false_iff]
        exact fun he => hpassed ((memoryEntry_isExpired w _).mp he)
      rw [call_lookup_live hm hme, hexact]
      by_cases hrounded : w.Rounded (s.memory.now + elapsed)
      · -- expired on one side only
        have hre : Kind.redb.isExpired w.redbEntry (s.redb.now + elapsed) = true := by
          rw [hclock]
          exact (redbEntry_isExpired w _).mpr (Or.inr hrounded)
        rw [call_lookup_expired hr hre]
        refine ⟨⟨fun hsame => ?_, fun hok => absurd hrounded hok⟩, fun hok => absurd hrounded hok⟩
        exact absurd ((sameResult_lookup ..).mp hsame) (reply_ne which _)
      · have hre : Kind.redb.isExpired w.redbEntry (s.redb.now + elapsed) = false := by
          rw [Bool.eq_false_iff, hclock]
          exact fun he => ((redbEntry_isExpired w _).mp he).elim hpassed hrounded
        rw [call_lookup_live hr hre, hclock]
        refine ⟨⟨fun _ => hrounded, fun _ => (sameResult_lookup ..).mpr rfl⟩, fun _ => ?_⟩
        exact ⟨rfl, fun key' => (h.slots key').later (Nat.le_add_right _ _)⟩

theorem newEntry_memory {value : Bytes} {ttl : Option Nat} {now : Nat}
    (h : ∀ d, ttl = some d → (now + d) / 1000000000 ≤ 0x7fffffffffffffff) :
    (Kind.memory shards shardOf).newEntry value ttl now =
      some (Stamp.memoryEntry ⟨value, now, ttl⟩) := by
  cases ttl with
  | none => rfl
  | some d => exact if_pos (h d rfl)

/-- A deadline that an `Instant` can hold does not wrap at 64 bits either. -/
theorem newEntry_redb {value : Bytes} {ttl : Option Nat} {now : Nat}
    (h : ∀ d, ttl = some d → (now + d) / 1000000000 ≤ 0x7fffffffffffffff) :
    Kind.redb.newEntry value ttl now = some (Stamp.redbEntry ⟨value, now, ttl⟩) := by
  cases ttl with
  | none => rfl
  | some d =>
    have hfits := h d rfl
    have hmod : (now / 1000000000 + d / 1000000000) % 0x10000000000000000 =
        now / 1000000000 + d / 1000000000 := Nat.mod_eq_of_lt (by omega)
    simp only [Kind.newEntry, KvEntry.withTtl, Stamp.redbEntry, hmod, Option.map_some]

theorem set_step (h : Mirrored s) (key : String) (value : Bytes) (ttl : Option Nat) :
    (s.Agrees shards shardOf ⟨elapsed, .set key value ttl⟩ ↔
      Exact s ⟨elapsed, .set key value ttl⟩) ∧
    (Exact s ⟨elapsed, .set key value ttl⟩ →
      Mirrored (s.step shards shardOf ⟨elapsed, .set key value ttl⟩)) := by
  have hclock : s.redb.now + elapsed = s.memory.now + elapsed := by rw [h.clock]
  unfold Both.Agrees Both.step
  dsimp only
  by_cases hok : Exact s ⟨elapsed, .set key value ttl⟩
  · have hr : Kind.redb.newEntry value ttl (s.redb.now + elapsed) =
        some (Stamp.redbEntry ⟨value, s.memory.now + elapsed, ttl⟩) := by
      rw [hclock]
      exact newEntry_redb hok
    rw [call_set (newEntry_memory hok), call_set hr, hclock]
    refine ⟨⟨fun _ => hok, fun _ => rfl⟩, fun _ => ?_⟩
    refine h.update (Nat.le_add_right _ _) key (fun key' => AList.lookup_insert_ne)
      (fun key' => AList.lookup_insert_ne) (fun key' hkey => update_of_ne hkey _ _) ?_
    simp only [recordCall, update_self, AList.lookup_insert]
    exact Or.inl ⟨rfl, rfl⟩
  · -- the deadline does not fit an `Instant`
    refine ⟨⟨fun hsame => ?_, fun hok' => absurd hok' hok⟩, fun hok' => absurd hok' hok⟩
    cases ttl with
    | none => exact absurd (fun d hd => by cases hd) hok
    | some d =>
      have hm : (Kind.memory shards shardOf).newEntry value (some d) (s.memory.now + elapsed) =
          none := by
        refine if_neg fun hfits => hok fun d' hd' => ?_
        cases hd'
        exact hfits
      rw [call_set_panics hm] at hsame
      exact hsame.elim

theorem delete_step (h : Mirrored s) (key : String) :
    (s.Agrees shards shardOf ⟨elapsed, .delete key⟩ ↔ Exact s ⟨elapsed, .delete key⟩) ∧
    (Exact s ⟨elapsed, .delete key⟩ →
      Mirrored (s.step shards shardOf ⟨elapsed, .delete key⟩)) := by
  have hclock : s.redb.now + elapsed = s.memory.now + elapsed := by rw [h.clock]
  have hsome : (s.memory.data.lookup key).isSome = (s.redb.data.lookup key).isSome := by
    rcases h.lookup_cases key with ⟨hm, hr, -⟩ | ⟨w, -, hm, hr⟩
    · rw [hm, hr]
    · rw [hm, hr]
      rfl
  unfold Both.Agrees Both.step
  dsimp only
  rw [call_delete, call_delete, hclock, hsome]
  refine ⟨⟨fun _ => trivial, fun _ => rfl⟩, fun _ => ?_⟩
  refine h.update (Nat.le_add_right _ _) key (fun key' => AList.lookup_erase_ne)
    (fun key' => AList.lookup_erase_ne) (fun key' hkey => update_of_ne hkey _ _) ?_
  simp only [recordCall, update_self, AList.lookup_erase]
  exact ⟨rfl, rfl⟩

/-! ## Listings -/

theorem mem_scan {kind : Kind} {store : Store} {pre : Option String} {i : Nat} {expired : Bool}
    {key : String} :
    key ∈ store.scan kind pre i expired ↔
      kind.inScan i key = true ∧ (pre.map fun p => startsWith p key).getD true = true ∧
        ∃ entry, store.data.lookup key = some entry ∧
          kind.isExpired entry store.now = expired := by
  simp only [Store.scan, List.mem_map, List.mem_filter, Bool.and_eq_true, beq_iff_eq]
  constructor
  · rintro ⟨⟨key, entry⟩, ⟨hmem, ⟨hin, hpre⟩, hexpired⟩, rfl⟩
    exact ⟨hin, hpre, entry, AList.mem_lookup_iff.mpr hmem, hexpired⟩
  · rintro ⟨hin, hpre, entry, hlookup, hexpired⟩
    exact ⟨⟨key, entry⟩, ⟨AList.mem_lookup_iff.mp hlookup, ⟨hin, hpre⟩, hexpired⟩, rfl⟩

/-- A listing whose sections cover every key sees them all. -/
theorem mem_scans {kind : Kind} {store : Store} {pre : Option String} {expired : Bool}
    {key : String} (hcover : ∃ i, i < kind.scans ∧ kind.inScan i key = true) :
    key ∈ store.scans kind pre expired kind.scans ↔
      (pre.map fun p => startsWith p key).getD true = true ∧
        ∃ entry, store.data.lookup key = some entry ∧
          kind.isExpired entry store.now = expired := by
  simp only [Store.scans, List.mem_flatMap, List.mem_range, mem_scan]
  constructor
  · rintro ⟨i, -, -, h⟩
    exact h
  · intro h
    obtain ⟨i, hi, hin⟩ := hcover
    exact ⟨i, hi, hin, h⟩

/-- Outside of its rounding a key is on both sides, expired or not, or on none. -/
theorem Mirrored.seen_iff (h : Mirrored s) {key : String} {t : Nat}
    (hexact : ∀ w, s.written key = some w → ¬ w.Rounded t) (expired : Bool) :
    (∃ entry, s.memory.data.lookup key = some entry ∧
        (Kind.memory shards shardOf).isExpired entry t = expired) ↔
      ∃ entry, s.redb.data.lookup key = some entry ∧ Kind.redb.isExpired entry t = expired := by
  rcases h.lookup_cases key with ⟨hm, hr, -⟩ | ⟨w, hw, hm, hr⟩
  · rw [hm, hr]
    constructor
    · rintro ⟨entry, hentry, -⟩
      cases hentry
    · rintro ⟨entry, hentry, -⟩
      cases hentry
  · have hsame : MemoryEntry.isExpired w.memoryEntry t = KvEntry.isExpired w.redbEntry t := by
      rw [Bool.eq_iff_iff, memoryEntry_isExpired, redbEntry_isExpired]
      exact ⟨Or.inl, fun he => he.resolve_right (hexact w hw)⟩
    rw [hm, hr]
    simp only [Option.some.injEq, exists_eq_left']
    show MemoryEntry.isExpired _ t = expired ↔ KvEntry.isExpired _ t = expired
    rw [hsame]

theorem list_step (hshards : ∀ key, shardOf key < shards) (h : Mirrored s) (pre : Option String) :
    (s.Agrees shards shardOf ⟨elapsed, .list pre⟩ ↔ Exact s ⟨elapsed, .list pre⟩) ∧
    (Exact s ⟨elapsed, .list pre⟩ → Mirrored (s.step shards shardOf ⟨elapsed, .list pre⟩)) := by
  have hmem : ∀ key expired, key ∈ Store.scans (.memory shards shardOf)
      ⟨s.memory.now + elapsed, s.memory.data⟩ pre expired (Kind.memory shards shardOf).scans ↔ _ :=
    fun key expired => mem_scans ⟨shardOf key, hshards key, decide_eq_true rfl⟩
  have hred : ∀ key expired, key ∈ Store.scans .redb
      ⟨s.memory.now + elapsed, s.redb.data⟩ pre expired Kind.redb.scans ↔ _ :=
    fun key expired => mem_scans ⟨0, Nat.zero_lt_one, rfl⟩
  -- outside of the roundings the two listings see the same keys
  have hboth : Exact s ⟨elapsed, .list pre⟩ → ∀ key expired,
      (key ∈ Store.scans (.memory shards shardOf)
          ⟨s.memory.now + elapsed, s.memory.data⟩ pre expired (Kind.memory shards shardOf).scans ↔
        key ∈ Store.scans .redb ⟨s.memory.now + elapsed, s.redb.data⟩ pre expired
          Kind.redb.scans) := by
    intro hok key expired
    rw [hmem, hred]
    exact and_congr_right fun hpre => h.seen_iff (fun w hw => hok key w hw hpre) expired
  unfold Both.Agrees Both.step
  dsimp only
  rw [call_list, call_list, h.clock]
  refine ⟨⟨fun hsame key w hw hpre hrounded => ?_, fun hok key => hboth hok key false⟩,
    fun hok => ⟨rfl, fun key => ?_⟩⟩
  · rcases h.lookup_cases key with ⟨-, -, hpassed⟩ | ⟨w', hw', hm, hr⟩
    · exact ((hpassed w hw).later (Nat.le_add_right _ _)).not_rounded hrounded
    · rw [hw] at hw'
      cases hw'
      have hlive : MemoryEntry.isExpired w.memoryEntry (s.memory.now + elapsed) = false := by
        rw [Bool.eq_false_iff]
        exact fun he => ((memoryEntry_isExpired w _).mp he).not_rounded hrounded
      have hlisted := (hmem key false).mpr ⟨hpre, w.memoryEntry, hm, hlive⟩
      obtain ⟨-, entry, hentry, hexpired⟩ := (hred key false).mp ((hsame key).mp hlisted)
      have hentry' : some w.redbEntry = some entry := hr.symm.trans hentry
      cases hentry'
      have hdead := (redbEntry_isExpired w (s.memory.now + elapsed)).mpr (Or.inr hrounded)
      exact absurd (hdead.symm.trans hexpired) (by decide)
  · have hslot := (h.slots key).later (Nat.le_add_right s.memory.now elapsed)
    dsimp only
    rw [lookup_eraseAll, lookup_eraseAll]
    by_cases hseen : key ∈ Store.scans (.memory shards shardOf)
        ⟨s.memory.now + elapsed, s.memory.data⟩ pre true (Kind.memory shards shardOf).scans
    · rw [if_pos hseen, if_pos ((hboth hok key true).mp hseen)]
      obtain ⟨-, entry, hentry, hexpired⟩ := (hmem key true).mp hseen
      rcases h.lookup_cases key with ⟨hm, -, -⟩ | ⟨w, hw, hm, -⟩
      · have hnone : none = some entry := hm.symm.trans hentry
        cases hnone
      · have hentry' : some w.memoryEntry = some entry := hm.symm.trans hentry
        cases hentry'
        show Slot _ (s.written key) none none
        rw [hw]
        exact Slot.erased ((memoryEntry_isExpired w _).mp hexpired)
    · rw [if_neg hseen, if_neg fun hseen' => hseen ((hboth hok key true).mpr hseen')]
      exact hslot

/-! ## Runs -/

theorem mirrored_step (hshards : ∀ key, shardOf key < shards) (h : Mirrored s) (e : Timed) :
    (s.Agrees shards shardOf e ↔ Exact s e) ∧
      (Exact s e → Mirrored (s.step shards shardOf e)) := by
  obtain ⟨elapsed, call⟩ := e
  cases call with
  | lookup which key => exact lookup_step h which key
  | set key value ttl => exact set_step h key value ttl
  | delete key => exact delete_step h key
  | list pre => exact list_step hshards h pre

theorem mirrored_fresh (now : Nat) : Mirrored (.fresh now) := by
  refine ⟨rfl, fun key => ?_⟩
  exact ⟨AList.lookup_empty key, AList.lookup_empty key⟩

end

/-- Substitutability over whole runs, for every clock: started empty, the two backends give the
    same result at every call of a run exactly when no call asks for a key between the second in
    which its TTL ends and its end to the nanosecond, and no deadline is beyond an `Instant`. -/
theorem kv_substitutable_iff (shards : Nat) (shardOf : String → Nat)
    (hshards : ∀ key, shardOf key < shards) (now : Nat) (calls : List Timed) :
    Along (Both.step shards shardOf) (Both.Agrees shards shardOf) (.fresh now) calls ↔
      Along (Both.step shards shardOf) Exact (.fresh now) calls :=
  along_iff_of_invariant Mirrored (mirrored_fresh now)
    (fun _ e hs hok => (mirrored_step hshards hs e).2 hok)
    (fun _ e hs => (mirrored_step hshards hs e).1) calls

/-- A TTL of half a second: a tenth of a second later the memory backend returns the value, the
    redb backend has dropped it. -/
theorem half_second_ttl_results_differ :
    ¬ Along (Both.step 1 fun _ => 0) (Both.Agrees 1 fun _ => 0) (.fresh 0)
      [⟨0, .set "k" [1] (some 500000000)⟩, ⟨100000000, .lookup .get "k"⟩] := by
  rintro ⟨-, hget, -⟩
  have hreply : Reply.value (.ok (some [1])) = Reply.value (.ok none) := hget
  cases hreply

/-- An entry of one second, read before and after its end. -/
theorem kv_substitutable_one_second :
    (∀ key : String, (fun _ : String => 0) key < 1) ∧
      Along (Both.step 1 fun _ => 0) (Both.Agrees 1 fun _ => 0) (.fresh 0)
        [⟨0, .set "k" [1] (some 1000000000)⟩, ⟨999999999, .lookup .get "k"⟩,
          ⟨1, .list (some "k")⟩, ⟨0, .delete "k"⟩] := by
  have hshards : ∀ key : String, (fun _ : String => 0) key < 1 := fun _ => Nat.zero_lt_one
  refine ⟨hshards, (kv_substitutable_iff 1 _ hshards 0 _).mpr ⟨?_, ?_, ?_, trivial, trivial⟩⟩
  · intro d hd
    cases hd
    decide
  · rintro w hw ⟨d, hd, hsecond, -⟩
    cases hw
    cases hd
    exact absurd hsecond (by decide)
  · rintro key w hw - ⟨d, hd, -, hbefore⟩
    by_cases hkey : key = "k"
    · subst hkey
      cases hw
      cases hd
      exact absurd hbefore (by decide)
    · have hw' : update (fun _ => none) "k" (some ⟨[1], 0, some 1000000000⟩) key = some w := hw
      rw [update_of_ne hkey] at hw'
      cases hw'

end Mik.Kv
