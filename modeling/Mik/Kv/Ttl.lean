/-
  How long a value with a TTL can be read.

  Both backends add the TTL to the clock when they store a value and compare the sum with the clock
  when they are asked for it. The memory backend does so in `Instant`s, to the nanosecond, and
  panics where the sum is beyond one; the redb backend drops the fractions of a second of both and
  adds without a check. Between the `set` and a `get` any other calls may come, and what they clean
  up is expired (`kept_call`); so the law of TTLs is one about the stored sum alone, and
  `ttl_law_iff` says for which times and TTLs it holds. The HTTP handler hands on any number of
  seconds (`kvSet`).
-/
import Mik.Kv.Substitution

namespace Mik.Kv

open Mik.Lib

/-! ## The HTTP handler -/

structure KvSetRequest where
  value : String
  /-- In seconds. -/
  ttl : Option UInt64
  deriving DecidableEq, Repr

/-- `kv_set`, down to the backend. -/
def kvSet (key : String) (req : KvSetRequest) : Call :=
  .set key (utf8 req.value) (req.ttl.map fun secs => secs.toNat * 1000000000)

/-! ## The law -/

/-- The call does not write the key. -/
def SparesKey (key : String) : Call → Prop
  | .set key' _ _ => key' ≠ key
  | .delete key' => key' ≠ key
  | _ => True

/-- The store after calls one after the other. -/
def Kind.after (kind : Kind) (store : Store) (calls : List Timed) : Store :=
  run (fun store c => (kind.call c.call c.elapsed store).2) store calls

/-- The sum of a clock and a TTL is the deadline that is stored, and has not wrapped; an `Instant`
    panics where it does not fit. -/
def Kind.SumFits : Kind → (setAt ttl : Nat) → Prop
  | .memory _ _, _, _ => True
  | .redb, setAt, ttl => setAt / 1000000000 + ttl / 1000000000 < 0x10000000000000000

/-- The law of TTLs for one call that sets the key, a time `elapsed` after the last one: it succeeds
    without an overflow, and after any calls that do not write the key a `get` returns the value
    before the time of the call plus the TTL, and nothing from then on. -/
structure TtlLaw (kind : Kind) (store : Store) (elapsed : Nat) (call : Call) (key : String)
    (value : Bytes) (ttl : Nat) : Prop where
  succeeds : (kind.call call elapsed store).1 = .done (.unit (.ok ()))
  noOverflow : kind.SumFits (store.now + elapsed) ttl
  expires : ∀ calls wait, (∀ c ∈ calls, SparesKey key c.call) →
    (kind.call (.lookup .get key) wait (kind.after (kind.call call elapsed store).2 calls)).1 =
      .done (.value (.ok
        (if (kind.after (kind.call call elapsed store).2 calls).now + wait <
            store.now + elapsed + ttl then some value else none)))

/-- When the law holds of a `set` at `setAt`: in memory if the deadline is one that an `Instant` can
    hold; with redb if the sum of the seconds fits 64 bits and neither time has a fraction of a
    second, or the TTL is 0. -/
def Kind.TtlExact : Kind → (setAt ttl : Nat) → Prop
  | .memory _ _, setAt, ttl => (setAt + ttl) / 1000000000 ≤ 0x7fffffffffffffff
  | .redb, setAt, ttl => setAt / 1000000000 + ttl / 1000000000 < 0x10000000000000000 ∧
      (ttl = 0 ∨ 1000000000 ∣ setAt ∧ 1000000000 ∣ ttl)

/-- The same for a TTL in seconds. -/
def Kind.SecsExact : Kind → (setAt secs : Nat) → Prop
  | .memory _ _, setAt, secs => setAt / 1000000000 + secs ≤ 0x7fffffffffffffff
  | .redb, setAt, secs => setAt / 1000000000 + secs < 0x10000000000000000 ∧
      (secs = 0 ∨ 1000000000 ∣ setAt)

/-! ## What other calls leave -/

/-- The entry of the key is still there, or has expired and may be gone. -/
def Kept (kind : Kind) (key : String) (entry : Entry) (store : Store) : Prop :=
  store.data.lookup key = some entry ∨
    store.data.lookup key = none ∧ kind.isExpired entry store.now = true

section

variable {kind : Kind} {key : String} {entry : Entry} {store : Store}

/-- What has expired stays expired. -/
theorem isExpired_mono {t t' : Nat} (hle : t ≤ t') (h : kind.isExpired entry t = true) :
    kind.isExpired entry t' = true := by
  obtain ⟨value, expiresAt⟩ := entry
  cases expiresAt with
  | none => cases kind <;> exact h
  | some deadline =>
    cases kind with
    | memory shards shardOf =>
      have hpassed : deadline ≤ t := of_decide_eq_true h
      exact decide_eq_true (by omega)
    | redb =>
      have hpassed : deadline ≤ t / 1000000000 := of_decide_eq_true h
      exact decide_eq_true (by omega)

theorem kept_later (h : Kept kind key entry store) {data : AList fun _ : String => Entry}
    (elapsed : Nat)
    (hdata : data.lookup key = store.data.lookup key ∨
      data.lookup key = none ∧ kind.isExpired entry (store.now + elapsed) = true) :
    Kept kind key entry ⟨store.now + elapsed, data⟩ := by
  rcases hdata with hsame | hgone
  · unfold Kept
    rw [hsame]
    exact h.imp id fun hnone => ⟨hnone.1, isExpired_mono (Nat.le_add_right _ _) hnone.2⟩
  · exact Or.inr hgone

/-- A call that does not write the key takes it out only when it has expired. -/
theorem kept_call (h : Kept kind key entry store) {call : Call} (hcall : SparesKey key call)
    (elapsed : Nat) : Kept kind key entry (kind.call call elapsed store).2 := by
  cases call with
  | lookup which key' =>
    cases hlookup : store.data.lookup key' with
    | none =>
      rw [call_lookup_absent hlookup]
      exact kept_later h elapsed (Or.inl rfl)
    | some entry' =>
      by_cases hexpired : kind.isExpired entry' (store.now + elapsed) = true
      · rw [call_lookup_expired hlookup hexpired]
        refine kept_later h elapsed ?_
        by_cases hkey : key = key'
        · subst hkey
          refine Or.inr ⟨AList.lookup_erase key store.data, ?_⟩
          rcases h with hthere | hgone
          · rw [hthere] at hlookup
            cases hlookup
            exact hexpired
          · exact isExpired_mono (Nat.le_add_right _ _) hgone.2
        · exact Or.inl (AList.lookup_erase_ne hkey)
      · rw [call_lookup_live hlookup (eq_false_of_ne_true hexpired)]
        exact kept_later h elapsed (Or.inl rfl)
  | set key' value ttl =>
    cases hnew : kind.newEntry value ttl (store.now + elapsed) with
    | none =>
      have hstore : (kind.call (.set key' value ttl) elapsed store).2 =
          ⟨store.now + elapsed, store.data⟩ := by
        simp only [Kind.call, Client.start, Client.alone, Client.step, Nat.add_zero, hnew,
          alone_panicked]
      rw [hstore]
      exact kept_later h elapsed (Or.inl rfl)
    | some entry' =>
      rw [call_set hnew]
      exact kept_later h elapsed (Or.inl (AList.lookup_insert_ne (Ne.symm hcall)))
  | delete key' =>
    rw [call_delete]
    exact kept_later h elapsed (Or.inl (AList.lookup_erase_ne (Ne.symm hcall)))
  | list pre =>
    rw [call_list]
    refine kept_later h elapsed ?_
    rw [lookup_eraseAll]
    by_cases hseen : key ∈ Store.scans kind ⟨store.now + elapsed, store.data⟩ pre true kind.scans
    · rw [if_pos hseen]
      refine Or.inr ⟨rfl, ?_⟩
      obtain ⟨i, -, hscan⟩ := List.mem_flatMap.mp hseen
      obtain ⟨-, -, entry', hlookup, hexpired⟩ := mem_scan.mp hscan
      rcases h with hthere | hgone
      · rw [hthere] at hlookup
        cases hlookup
        exact hexpired
      · exact isExpired_mono (Nat.le_add_right _ _) hgone.2
    · rw [if_neg hseen]
      exact Or.inl rfl

theorem kept_after (h : Kept kind key entry store) {calls : List Timed}
    (hcalls : ∀ c ∈ calls, SparesKey key c.call) :
    Kept kind key entry (kind.after store calls) := by
  induction calls generalizing store with
  | nil => exact h
  | cons c calls ih =>
    exact ih (kept_call h (hcalls c List.mem_cons_self) c.elapsed)
      fun c' hc' => hcalls c' (List.mem_cons_of_mem _ hc')

/-- A `get` of a key that is kept tells whether it has expired. -/
theorem get_of_kept (h : Kept kind key entry store) (wait : Nat) :
    (kind.call (.lookup .get key) wait store).1 = .done (.value (.ok
      (if kind.isExpired entry (store.now + wait) = true then none else some entry.value))) := by
  rcases h with hthere | ⟨hnone, hexpired⟩
  · by_cases hexpired : kind.isExpired entry (store.now + wait) = true
    · rw [call_lookup_expired hthere hexpired, if_pos hexpired]
      rfl
    · rw [call_lookup_live hthere (eq_false_of_ne_true hexpired), if_neg hexpired]
      rfl
  · rw [call_lookup_absent hnone, if_pos (isExpired_mono (Nat.le_add_right _ _) hexpired)]
    rfl

theorem now_alone (n : Nat) (client : Client) (store : Store) :
    (client.alone kind n store).2.now = store.now := by
  induction n generalizing client store with
  | zero => rfl
  | succ n ih => rw [Client.alone, ih, now_step, Nat.add_zero]

theorem now_call (call : Call) (elapsed : Nat) (store : Store) :
    (kind.call call elapsed store).2.now = store.now + elapsed := now_alone _ _ _

/-- The clock does not go back. -/
theorem now_after_le (store : Store) (calls : List Timed) :
    store.now ≤ (kind.after store calls).now := by
  induction calls generalizing store with
  | nil => exact Nat.le_refl _
  | cons c calls ih =>
    refine Nat.le_trans ?_ (ih _)
    rw [now_call]
    exact Nat.le_add_right _ _

/-! ## The stored sum -/

/-- A stored entry follows the law when it expires at the time of the `set` plus the TTL, as seen
    from then on. -/
theorem expires_iff {setAt ttl : Nat} {data : AList fun _ : String => Entry}
    (h : data.lookup key = some entry) :
    (∀ calls wait, (∀ c ∈ calls, SparesKey key c.call) →
      (kind.call (.lookup .get key) wait (kind.after ⟨setAt, data⟩ calls)).1 =
        .done (.value (.ok (if (kind.after ⟨setAt, data⟩ calls).now + wait < setAt + ttl then
          some entry.value else none)))) ↔
      ∀ t, setAt ≤ t → (kind.isExpired entry t = true ↔ setAt + ttl ≤ t) := by
  have hkept : Kept kind key entry ⟨setAt, data⟩ := Or.inl h
  constructor
  · intro hlaw t ht
    have hget := hlaw [] (t - setAt) (by simp)
    have hnow : setAt + (t - setAt) = t := by omega
    rw [show kind.after ⟨setAt, data⟩ [] = ⟨setAt, data⟩ from rfl, get_of_kept hkept, hnow] at hget
    by_cases hexpired : kind.isExpired entry t = true
    · rw [if_pos hexpired] at hget
      refine ⟨fun _ => ?_, fun _ => hexpired⟩
      by_contra hlt
      rw [if_pos (by omega)] at hget
      cases hget
    · rw [if_neg hexpired] at hget
      refine ⟨fun hyes => absurd hyes hexpired, fun hle => ?_⟩
      rw [if_neg (by omega)] at hget
      cases hget
  · intro hexact calls wait hcalls
    have hle : setAt ≤ (kind.after ⟨setAt, data⟩ calls).now + wait :=
      Nat.le_trans (@now_after_le kind ⟨setAt, data⟩ calls) (Nat.le_add_right _ _)
    rw [get_of_kept (kept_after hkept hcalls)]
    by_cases hexpired : kind.isExpired entry ((kind.after ⟨setAt, data⟩ calls).now + wait) = true
    · have := (hexact _ hle).mp hexpired
      rw [if_pos hexpired, if_neg (by omega)]
    · have hno : ¬ setAt + ttl ≤ (kind.after ⟨setAt, data⟩ calls).now + wait :=
        fun h => hexpired ((hexact _ hle).mpr h)
      rw [if_neg hexpired, if_pos (by omega)]

end

theorem value_newEntry {kind : Kind} {value : Bytes} {ttl : Option Nat} {now : Nat} {entry : Entry}
    (h : kind.newEntry value ttl now = some entry) : entry.value = value := by
  cases kind with
  | memory shards shardOf =>
    cases ttl with
    | none =>
      cases h
      rfl
    | some d =>
      simp only [Kind.newEntry, MemoryEntry.new] at h
      split at h
      · cases h
        rfl
      · cases h
  | redb =>
    cases ttl with
    | none =>
      cases h
      rfl
    | some d =>
      cases h
      rfl

/-- What the law says of the entry that a `set` makes. -/
theorem ttlLaw_iff_entry (kind : Kind) (store : Store) (elapsed : Nat) (key : String)
    (value : Bytes) (ttl : Nat) :
    TtlLaw kind store elapsed (.set key value (some ttl)) key value ttl ↔
      kind.SumFits (store.now + elapsed) ttl ∧
        ∃ entry, kind.newEntry value (some ttl) (store.now + elapsed) = some entry ∧
          ∀ t, store.now + elapsed ≤ t →
            (kind.isExpired entry t = true ↔ store.now + elapsed + ttl ≤ t) := by
  cases hnew : kind.newEntry value (some ttl) (store.now + elapsed) with
  | none =>
    constructor
    · intro h
      have hok := h.succeeds
      rw [call_set_panics hnew] at hok
      cases hok
    · rintro ⟨-, entry, hentry, -⟩
      cases hentry
  | some entry =>
    have hlookup : (store.data.insert key entry).lookup key = some entry :=
      AList.lookup_insert store.data
    have hexpires := @expires_iff kind key entry (store.now + elapsed) ttl _ hlookup
    rw [value_newEntry hnew] at hexpires
    constructor
    · intro h
      have hlaw := h.expires
      rw [call_set hnew] at hlaw
      exact ⟨h.noOverflow, entry, rfl, hexpires.mp hlaw⟩
    · rintro ⟨hfits, entry', hentry', hexact⟩
      cases hentry'
      refine ⟨by rw [call_set hnew], hfits, ?_⟩
      rw [call_set hnew]
      exact hexpires.mpr hexact

/-- In whole seconds the sum is the exact one only where no fraction is dropped. -/
theorem seconds_exact_iff (setAt ttl : Nat) :
    (∀ t, setAt ≤ t →
        (setAt / 1000000000 + ttl / 1000000000 ≤ t / 1000000000 ↔ setAt + ttl ≤ t)) ↔
      ttl = 0 ∨ 1000000000 ∣ setAt ∧ 1000000000 ∣ ttl := by
  constructor
  · intro h
    have hend := h (setAt + ttl) (by omega)
    have hbefore := h (setAt + ttl - 1)
    omega
  · rintro hexact t ht
    omega

theorem ttlExact_iff (kind : Kind) (store : Store) (elapsed : Nat) (key : String)
    (value : Bytes) (ttl : Nat) :
    TtlLaw kind store elapsed (.set key value (some ttl)) key value ttl ↔
      kind.TtlExact (store.now + elapsed) ttl := by
  rw [ttlLaw_iff_entry]
  cases kind with
  | memory shards shardOf =>
    simp only [Kind.SumFits, Kind.TtlExact, Kind.newEntry, MemoryEntry.new, true_and]
    by_cases hfits : (store.now + elapsed + ttl) / 1000000000 ≤ 0x7fffffffffffffff
    · rw [if_pos hfits]
      refine ⟨fun _ => hfits, fun _ => ⟨_, rfl, fun t _ => ?_⟩⟩
      exact decide_eq_true_iff
    · rw [if_neg hfits]
      refine ⟨fun h => ?_, fun h => absurd h hfits⟩
      obtain ⟨entry, hentry, -⟩ := h
      cases hentry
  | redb =>
    refine and_congr_right fun hfits => ?_
    have hentry : Kind.redb.newEntry value (some ttl) (store.now + elapsed) =
        some ⟨value, some ((store.now + elapsed) / 1000000000 + ttl / 1000000000)⟩ := by
      simp only [Kind.newEntry, KvEntry.withTtl, Nat.mod_eq_of_lt hfits]
    rw [hentry, ← seconds_exact_iff]
    simp only [Option.some.injEq, exists_eq_left']
    refine forall₂_congr fun t _ => iff_congr ?_ Iff.rfl
    exact decide_eq_true_iff

/-- The law of TTLs, for every `set` in every state: with any `Duration` it holds exactly when
    `TtlExact` does, and with the seconds of an HTTP request exactly when `SecsExact` does. -/
theorem ttl_law_iff (kind : Kind) (store : Store) (elapsed : Nat) (key : String) :
    (∀ value ttl, TtlLaw kind store elapsed (.set key value (some ttl)) key value ttl ↔
        kind.TtlExact (store.now + elapsed) ttl) ∧
      ∀ (text : String) (secs : UInt64),
        TtlLaw kind store elapsed (kvSet key ⟨text, some secs⟩) key (utf8 text)
            (secs.toNat * 1000000000) ↔
          kind.SecsExact (store.now + elapsed) secs.toNat := by
  refine ⟨ttlExact_iff kind store elapsed key, fun text secs => ?_⟩
  have hseconds : kind.TtlExact (store.now + elapsed) (secs.toNat * 1000000000) ↔
      kind.SecsExact (store.now + elapsed) secs.toNat := by
    cases kind with
    | memory shards shardOf =>
      simp only [Kind.TtlExact, Kind.SecsExact]
      omega
    | redb =>
      simp only [Kind.TtlExact, Kind.SecsExact]
      omega
  rw [← hseconds]
  exact ttlExact_iff kind store elapsed key (utf8 text) (secs.toNat * 1000000000)

/-- A half second is none in redb, the largest number of seconds wraps there, and panics in
    memory. -/
theorem ttl_law_fails :
    ¬ TtlLaw .redb ⟨0, ∅⟩ 0 (.set "k" [1] (some 500000000)) "k" [1] 500000000 ∧
      ¬ TtlLaw .redb ⟨1000000000, ∅⟩ 0 (kvSet "k" ⟨"v", some 0xffffffffffffffff⟩) "k" (utf8 "v")
        (0xffffffffffffffff * 1000000000) ∧
      ¬ TtlLaw (.memory 1 fun _ => 0) ⟨0, ∅⟩ 0 (kvSet "k" ⟨"v", some 0xffffffffffffffff⟩) "k"
        (utf8 "v") (0xffffffffffffffff * 1000000000) := by
  have hno : ∀ (kind : Kind) (now : Nat) (value : Bytes) (ttl : Nat), ¬ kind.TtlExact now ttl →
      ¬ TtlLaw kind ⟨now, ∅⟩ 0 (.set "k" value (some ttl)) "k" value ttl :=
    fun kind now value ttl hno h => hno ((ttlExact_iff kind ⟨now, ∅⟩ 0 "k" value ttl).mp h)
  refine ⟨hno .redb 0 [1] 500000000 ?_,
    hno .redb 1000000000 (utf8 "v") (0xffffffffffffffff * 1000000000) ?_,
    hno (.memory 1 fun _ => 0) 0 (utf8 "v") (0xffffffffffffffff * 1000000000) ?_⟩
  · simp only [Kind.TtlExact]
    omega
  · simp only [Kind.TtlExact]
    omega
  · simp only [Kind.TtlExact]
    omega

end Mik.Kv
