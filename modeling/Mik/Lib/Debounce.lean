/-
  Debouncing: an item is held back until nothing newer has come for its key for so long.

  Calls come with the time they are made at. A `Slot` is what waits for one key and since when: a
  record for the key replaces it, and the first drain that finds it old enough takes it out. So
  what a drain gives for a key depends on the last record for the key and on the drains since
  (`due_of_quiet`), and on nothing that was recorded for other keys (`slotAfter_filter`).

  Times are numbers, and the age of what waits is a truncated difference.
-/
import Mathlib.Data.List.Basic
import Mik.Lib.Run

namespace Mik.Lib.Debounce

inductive Call (α : Type) where
  | record (item : α)
  | drain
  deriving DecidableEq, Repr

def Call.isDrain {α : Type} : Call α → Bool
  | .record _ => false
  | .drain => true

/-- What waits, and since when. -/
abbrev Slot (α : Type) := Option (α × Nat)

section

variable {κ α : Type} [DecidableEq κ] (keyOf : α → κ) (window : Nat)

/-- A record for the key `k`. -/
def Call.isFor (k : κ) : Call α → Bool
  | .record item => decide (keyOf item = k)
  | .drain => false

/-- A drain, or a record for the key `k`. -/
def Call.matters (k : κ) (call : Call α) : Bool := call.isDrain || call.isFor keyOf k

/-- No record for the key `k` is among the calls. -/
def Quiet (k : κ) (calls : List (Nat × Call α)) : Prop := ∀ c ∈ calls, c.2.isFor keyOf k = false

/-- What a drain at the time `now` takes out of a slot. -/
def due (slot : Slot α) (now : Nat) : List α :=
  match slot with
  | some (item, since) => if window ≤ now - since then [item] else []
  | none => []

/-- What it leaves there. -/
def held (slot : Slot α) (now : Nat) : Slot α :=
  match slot with
  | some (item, since) => if window ≤ now - since then none else some (item, since)
  | none => none

/-- The slot of the key `k` after a call. -/
def slotStep (k : κ) (slot : Slot α) (c : Nat × Call α) : Slot α :=
  match c.2 with
  | .record item => if keyOf item = k then some (item, c.1) else slot
  | .drain => held window slot c.1

def slotAfter (k : κ) (slot : Slot α) (calls : List (Nat × Call α)) : Slot α :=
  run (slotStep keyOf window k) slot calls

/-- What the drains among the calls give, one after the other. -/
def dueOver (k : κ) (slot : Slot α) : List (Nat × Call α) → List α
  | [] => []
  | c :: calls =>
    (if c.2.isDrain then due window slot c.1 else []) ++
      dueOver k (slotStep keyOf window k slot c) calls

/-- Some drain among the calls finds what waits since `since` old enough. -/
def Taken (since : Nat) (calls : List (Nat × Call α)) : Prop :=
  ∃ c ∈ calls, c.2.isDrain = true ∧ window ≤ c.1 - since

end

section

variable {κ α : Type} [DecidableEq κ] {keyOf : α → κ} {window : Nat}

theorem quiet_cons {k : κ} {c : Nat × Call α} {calls : List (Nat × Call α)} :
    Quiet keyOf k (c :: calls) ↔ c.2.isFor keyOf k = false ∧ Quiet keyOf k calls :=
  List.forall_mem_cons

theorem taken_cons {since : Nat} {c : Nat × Call α} {calls : List (Nat × Call α)} :
    Taken window since (c :: calls) ↔
      (c.2.isDrain = true ∧ window ≤ c.1 - since) ∨ Taken window since calls := by
  simp only [Taken, List.mem_cons, exists_eq_or_imp]

/-- A call that records nothing for the key leaves its slot, or is a drain. -/
theorem slotStep_of_not_for {k : κ} {c : Nat × Call α} (h : c.2.isFor keyOf k = false)
    (slot : Slot α) :
    slotStep keyOf window k slot c = if c.2.isDrain then held window slot c.1 else slot := by
  obtain ⟨t, call⟩ := c
  cases call with
  | record item => exact if_neg (of_decide_eq_false h)
  | drain => rfl

/-- Nothing comes of an empty slot as long as nothing is recorded for its key. -/
theorem slotAfter_none {k : κ} {calls : List (Nat × Call α)} (h : Quiet keyOf k calls) :
    slotAfter keyOf window k none calls = none := by
  induction calls with
  | nil => rfl
  | cons c calls ih =>
    obtain ⟨hc, hrest⟩ := quiet_cons.mp h
    have hstep : slotStep keyOf window k none c = none := by
      rw [slotStep_of_not_for hc]
      split
      · rfl
      · rfl
    calc slotAfter keyOf window k none (c :: calls)
        = slotAfter keyOf window k none calls := congrArg (run _ · calls) hstep
      _ = none := ih hrest

/-- As long as nothing newer is recorded, what waits stays until a drain finds it old enough. -/
theorem slotAfter_some {k : κ} {item : α} {since : Nat} {calls : List (Nat × Call α)}
    (h : Quiet keyOf k calls) :
    (Taken window since calls → slotAfter keyOf window k (some (item, since)) calls = none) ∧
    (¬ Taken window since calls →
      slotAfter keyOf window k (some (item, since)) calls = some (item, since)) := by
  induction calls with
  | nil => exact ⟨fun ⟨c, hc, _⟩ => absurd hc List.not_mem_nil, fun _ => rfl⟩
  | cons c calls ih =>
    obtain ⟨hc, hrest⟩ := quiet_cons.mp h
    rw [taken_cons]
    by_cases hnow : c.2.isDrain = true ∧ window ≤ c.1 - since
    · have hstep : slotStep keyOf window k (some (item, since)) c = none := by
        rw [slotStep_of_not_for hc, if_pos hnow.1]
        exact if_pos hnow.2
      refine ⟨fun _ => ?_, fun hno => absurd (Or.inl hnow) hno⟩
      calc slotAfter keyOf window k (some (item, since)) (c :: calls)
          = slotAfter keyOf window k none calls := congrArg (run _ · calls) hstep
        _ = none := slotAfter_none hrest
    · have hstep : slotStep keyOf window k (some (item, since)) c = some (item, since) := by
        rw [slotStep_of_not_for hc]
        split
        · rename_i hdrain
          exact if_neg fun hage => hnow ⟨hdrain, hage⟩
        · rfl
      have hgo : slotAfter keyOf window k (some (item, since)) (c :: calls)
          = slotAfter keyOf window k (some (item, since)) calls :=
        congrArg (run _ · calls) hstep
      rw [hgo]
      exact ⟨fun htaken => (ih hrest).1 (htaken.resolve_left hnow),
        fun hno => (ih hrest).2 fun htaken => hno (Or.inr htaken)⟩

/-- The last record for the key is what is seen of the calls before. -/
theorem slotAfter_record {k : κ} {item : α} (hk : keyOf item = k) (slot : Slot α) (t : Nat)
    (before mid : List (Nat × Call α)) :
    slotAfter keyOf window k slot (before ++ (t, .record item) :: mid)
      = slotAfter keyOf window k (some (item, t)) mid := by
  unfold slotAfter
  rw [run_append, run_cons]
  exact congrArg (run _ · mid) (if_pos hk)

/-- The first drain that is late enough gives the last item recorded, and no other drain does. -/
theorem due_of_quiet {k : κ} {item : α} {t now : Nat} {mid : List (Nat × Call α)}
    (h : Quiet keyOf k mid) :
    (window ≤ now - t → ¬ Taken window t mid →
      due window (slotAfter keyOf window k (some (item, t)) mid) now = [item]) ∧
    (¬ window ≤ now - t ∨ Taken window t mid →
      due window (slotAfter keyOf window k (some (item, t)) mid) now = []) := by
  have hlaw := @slotAfter_some κ α _ keyOf window k item t mid h
  refine ⟨fun hage hno => ?_, fun hor => ?_⟩
  · rw [hlaw.2 hno]
    exact if_pos hage
  · by_cases htaken : Taken window t mid
    · rw [hlaw.1 htaken]
      rfl
    · rw [hlaw.2 htaken]
      exact if_neg (hor.resolve_right htaken)

/-- Until something newer is recorded, what waits is given once if a drain finds it old enough, and
    not at all otherwise. -/
theorem dueOver_of_quiet {k : κ} {calls : List (Nat × Call α)} (h : Quiet keyOf k calls) :
    (dueOver keyOf window k none calls = []) ∧
    ∀ item since,
      (Taken window since calls → dueOver keyOf window k (some (item, since)) calls = [item]) ∧
      (¬ Taken window since calls → dueOver keyOf window k (some (item, since)) calls = []) := by
  induction calls with
  | nil => exact ⟨rfl, fun _ _ => ⟨fun ⟨c, hc, _⟩ => absurd hc List.not_mem_nil, fun _ => rfl⟩⟩
  | cons c calls ih =>
    obtain ⟨hc, hrest⟩ := quiet_cons.mp h
    obtain ⟨hnone, hsome⟩ := ih hrest
    refine ⟨?_, fun item since => ?_⟩
    · rw [dueOver, slotStep_of_not_for hc]
      split
      · exact hnone
      · exact hnone
    · rw [dueOver, slotStep_of_not_for hc, taken_cons]
      cases hdrain : c.2.isDrain with
      | false =>
        simp only [Bool.false_eq_true, false_and, false_or, if_false, List.nil_append]
        exact hsome item since
      | true =>
        by_cases hage : window ≤ c.1 - since
        · simp only [due, held, if_pos hage, if_true, hnone]
          exact ⟨fun _ => rfl, fun hno => absurd (Or.inl ⟨trivial, hage⟩) hno⟩
        · have hlate : ¬ (True ∧ window ≤ c.1 - since) := fun hnow => hage hnow.2
          simp only [due, held, if_neg hage, if_true, List.nil_append, hlate, false_or]
          exact hsome item since

/-- What is recorded for other keys makes no difference. -/
theorem slotAfter_filter (k : κ) (slot : Slot α) (calls : List (Nat × Call α)) :
    slotAfter keyOf window k slot
        (calls.filter fun c => c.2.matters keyOf k)
      = slotAfter keyOf window k slot calls := by
  induction calls generalizing slot with
  | nil => rfl
  | cons c calls ih =>
    by_cases hkeep : c.2.matters keyOf k = true
    · rw [List.filter_cons_of_pos (p := fun c : Nat × Call α => c.2.matters keyOf k) hkeep]
      exact ih _
    · have hno := Bool.or_eq_false_iff.mp (Bool.eq_false_iff.mpr hkeep)
      have hstep : slotStep keyOf window k slot c = slot := by
        rw [slotStep_of_not_for hno.2, hno.1]
        rfl
      rw [List.filter_cons_of_neg (p := fun c : Nat × Call α => c.2.matters keyOf k) hkeep, ih]
      exact congrArg (run _ · calls) hstep.symm

end

end Mik.Lib.Debounce
