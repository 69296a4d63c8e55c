/-
  Eviction from the front of a list, until what is left is within a limit.

  The entries are tried one after another, and a removal may fail: then the entry stays. `left` is
  what there is after the first `n` have been tried. The weight is counted modulo `m`, and the
  first number at which the count is within the limit, or the list is at its end, is how many are
  tried (`Tried`). Where the weight is below `m` and all removals work, they are the shortest
  prefix that has to go (`Tried.isLeast_drop`).
-/
import Mathlib.Algebra.BigOperators.Group.List.Basic
import Mathlib.Algebra.GroupWithZero.Nat
import Mathlib.Data.Set.Operations
import Mathlib.Order.Bounds.Defs

namespace Mik.Lib.Eviction

section

variable {α : Type} (size : α → Nat) (works : α → Bool)

def weight (l : List α) : Nat := (l.map size).sum

/-- The entries that are gone after the first `n` have been tried. -/
def removed (l : List α) (n : Nat) : List α := (l.take n).filter works

def left (l : List α) (n : Nat) : List α := (l.take n).filter (fun a => !works a) ++ l.drop n

/-- So many entries are tried, besides a weight that is kept. -/
def Tried (m limit kept : Nat) (l : List α) (n : Nat) : Prop :=
  IsLeast {n | l.length ≤ n ∨ (kept + weight size (left works l n)) % m ≤ limit} n

end

section

variable {α : Type} {size : α → Nat} {works : α → Bool} {l rest : List α} {a : α}
  {m limit kept n : Nat}

/-! ## Weights -/

@[simp] theorem weight_nil : weight size [] = 0 := rfl

@[simp] theorem weight_cons (a : α) (l : List α) :
    weight size (a :: l) = size a + weight size l := by
  unfold weight
  rw [List.map_cons, List.sum_cons]

theorem weight_append (l l' : List α) : weight size (l ++ l') = weight size l + weight size l' := by
  unfold weight
  rw [List.map_append, List.sum_append]

theorem weight_perm {l' : List α} (h : l.Perm l') : weight size l = weight size l' :=
  (h.map size).sum_eq

theorem size_le_weight (h : a ∈ l) : size a ≤ weight size l := by
  obtain ⟨before, rest, rfl⟩ := List.append_of_mem h
  rw [weight_append, weight_cons]
  omega

theorem weight_drop_le (l : List α) (n : Nat) : weight size (l.drop n) ≤ weight size l := by
  have hwhole := @weight_append _ size (l.take n) (l.drop n)
  rw [List.take_append_drop] at hwhole
  rw [hwhole]
  exact Nat.le_add_left _ _

theorem weight_removed_left (l : List α) (n : Nat) :
    weight size (removed works l n) + weight size (left works l n) = weight size l := by
  have hsplit (l : List α) : weight size (l.filter works) +
      weight size (l.filter fun a => !works a) = weight size l := by
    rw [← weight_append]
    exact weight_perm (List.filter_append_perm works l)
  unfold removed left
  rw [weight_append, ← Nat.add_assoc, hsplit, ← weight_append, List.take_append_drop]

theorem weight_take_le {j : Nat} (h : n ≤ j) : weight size (l.take n) ≤ weight size (l.take j) := by
  obtain ⟨more, hmore⟩ := List.take_prefix_take_left h
  rw [← hmore, weight_append]
  exact Nat.le_add_right _ _

/-! ## What is left -/

theorem left_zero (l : List α) : left works l 0 = l := rfl

theorem removed_zero (l : List α) : removed works l 0 = [] := rfl

theorem left_cons_pos (h : works a = true) (n : Nat) :
    left works (a :: rest) (n + 1) = left works rest n := by
  unfold left
  rw [List.take_succ_cons, List.drop_succ_cons, List.filter_cons, h, Bool.not_true,
    if_neg Bool.false_ne_true]

theorem left_cons_neg (h : works a = false) (n : Nat) :
    left works (a :: rest) (n + 1) = a :: left works rest n := by
  unfold left
  rw [List.take_succ_cons, List.drop_succ_cons, List.filter_cons, h, Bool.not_false, if_pos rfl,
    List.cons_append]

theorem removed_cons_pos (h : works a = true) (n : Nat) :
    removed works (a :: rest) (n + 1) = a :: removed works rest n := by
  unfold removed
  rw [List.take_succ_cons, List.filter_cons, if_pos h]

theorem removed_cons_neg (h : works a = false) (n : Nat) :
    removed works (a :: rest) (n + 1) = removed works rest n := by
  unfold removed
  rw [List.take_succ_cons, List.filter_cons, h, if_neg Bool.false_ne_true]

theorem removed_of_works (h : ∀ a ∈ l.take n, works a = true) : removed works l n = l.take n :=
  List.filter_eq_self.mpr h

theorem left_of_works (h : ∀ a ∈ l.take n, works a = true) : left works l n = l.drop n := by
  unfold left
  rw [List.filter_eq_nil_iff.mpr fun a ha => by rw [h a ha]; exact Bool.false_ne_true,
    List.nil_append]

/-! ## How many are tried -/

theorem tried_nil : Tried size works m limit kept [] 0 :=
  ⟨Or.inl (Nat.le_refl 0), fun _ _ => Nat.zero_le _⟩

theorem tried_stop (h : (kept + weight size l) % m ≤ limit) : Tried size works m limit kept l 0 :=
  ⟨Or.inr h, fun _ _ => Nat.zero_le _⟩

/-- One is tried and then as many as of the rest, if the count is the same. -/
theorem tried_succ {kept' : Nat} (hover : ¬ (kept + weight size (a :: rest)) % m ≤ limit)
    (hcount : ∀ n, kept + weight size (left works (a :: rest) (n + 1))
      = kept' + weight size (left works rest n))
    (h : Tried size works m limit kept' rest n) :
    Tried size works m limit kept (a :: rest) (n + 1) := by
  refine ⟨?_, fun j hj => ?_⟩
  · rw [Set.mem_ofPred_eq, List.length_cons, hcount]
    exact h.1.imp Nat.succ_le_succ id
  · cases j with
    | zero =>
      rcases hj with hlength | hcount'
      · exact absurd hlength (Nat.not_succ_le_zero _)
      · exact absurd hcount' hover
    | succ j =>
      rw [Set.mem_ofPred_eq, List.length_cons, hcount] at hj
      exact Nat.succ_le_succ (h.2 (hj.imp Nat.le_of_succ_le_succ id))

theorem tried_removed (hover : ¬ (kept + weight size (a :: rest)) % m ≤ limit)
    (ha : works a = true) (h : Tried size works m limit kept rest n) :
    Tried size works m limit kept (a :: rest) (n + 1) :=
  tried_succ hover (fun n => by rw [left_cons_pos ha]) h

theorem tried_failed (hover : ¬ (kept + weight size (a :: rest)) % m ≤ limit)
    (ha : works a = false) (h : Tried size works m limit (kept + size a) rest n) :
    Tried size works m limit kept (a :: rest) (n + 1) :=
  tried_succ hover (fun n => by rw [left_cons_neg ha, weight_cons, Nat.add_assoc]) h

namespace Tried

theorem le_length (h : Tried size works m limit kept l n) : n ≤ l.length :=
  h.2 (Or.inl (Nat.le_refl _))

/-- An entry is tried if the count is over the limit up to it. -/
theorem lt_iff (h : Tried size works m limit kept l n) {i : Nat} (hi : i < l.length) :
    i < n ↔ ∀ j ≤ i, limit < (kept + weight size (left works l j)) % m := by
  constructor
  · intro hlt j hj
    refine Nat.not_le.mp fun hle => ?_
    exact Nat.not_le.mpr (Nat.lt_of_le_of_lt hj hlt) (h.2 (Or.inr hle))
  · intro hover
    refine Nat.not_le.mp fun hle => ?_
    rcases h.1 with hlength | hcount
    · exact Nat.not_le.mpr hi (Nat.le_trans hlength hle)
    · exact Nat.not_le.mpr (hover n hle) hcount

/-- What cannot be removed stays, and so does what comes after the count is within the limit. -/
theorem notMem_removed_iff (h : Tried size works m limit 0 l n) (p : α → Prop) :
    (∀ a ∈ removed works l n, ¬ p a) ↔
      ∀ before a rest, l = before ++ a :: rest → p a → works a = true →
        ∃ j ≤ before.length, weight size (left works l j) % m ≤ limit := by
  constructor
  · rintro hnot before a rest rfl hp hworks
    by_contra hno
    have hi : before.length < (before ++ a :: rest).length := by
      rw [List.length_append, List.length_cons]
      omega
    have hlt : before.length < n := by
      refine (h.lt_iff hi).mpr fun j hj => Nat.not_le.mp fun hle => hno ⟨j, hj, ?_⟩
      rwa [Nat.zero_add] at hle
    have hmem : a ∈ (before ++ a :: rest).take n := by
      obtain ⟨k, rfl⟩ := Nat.exists_eq_add_of_lt hlt
      rw [Nat.add_assoc, List.take_length_add_append, List.take_succ_cons]
      exact List.mem_append_right _ List.mem_cons_self
    exact hnot a (List.mem_filter.mpr ⟨hmem, hworks⟩) hp
  · intro hspared a ha hp
    obtain ⟨hmem, hworks⟩ := List.mem_filter.mp ha
    obtain ⟨before, rest, hsplit⟩ := List.append_of_mem hmem
    have hl : l = before ++ a :: (rest ++ l.drop n) := by
      rw [← List.cons_append, ← List.append_assoc, ← hsplit, List.take_append_drop]
    have hlt : before.length < n := by
      have hlength := congrArg List.length hsplit
      rw [List.length_take, List.length_append, List.length_cons] at hlength
      omega
    obtain ⟨j, hj, hcount⟩ := hspared before a _ hl hp hworks
    have hover := (h.lt_iff (Nat.lt_of_lt_of_le hlt h.le_length)).mp hlt j hj
    rw [Nat.zero_add] at hover
    exact Nat.not_le.mpr hover hcount

/-- All removals having worked, what is left is the first rest within the limit, so counted. -/
theorem isLeast_drop_mod (h : Tried size works m limit 0 l n)
    (hworks : ∀ a ∈ l.take n, works a = true) :
    IsLeast {n | weight size (l.drop n) % m ≤ limit} n := by
  refine ⟨?_, fun j hj => Nat.not_lt.mp fun hlt => ?_⟩
  · rcases h.1 with hlength | hcount
    · rw [Set.mem_ofPred_eq, List.drop_eq_nil_iff.mpr hlength, weight_nil, Nat.zero_mod]
      exact Nat.zero_le _
    · rwa [Nat.zero_add, left_of_works hworks] at hcount
  · have hbefore : ∀ a ∈ l.take j, works a = true := fun a ha =>
      hworks a ((List.take_prefix_take_left (Nat.le_of_lt hlt)).mem ha)
    have hover := (h.lt_iff (Nat.lt_of_lt_of_le hlt h.le_length)).mp hlt j (Nat.le_refl j)
    rw [Nat.zero_add, left_of_works hbefore] at hover
    exact Nat.not_le.mpr hover hj

/-- The shortest prefix without which the rest is within the limit. -/
theorem isLeast_drop (h : Tried size works m limit 0 l n) (hm : weight size l < m)
    (hworks : ∀ a ∈ l.take n, works a = true) : IsLeast {n | weight size (l.drop n) ≤ limit} n := by
  have hcount (j : Nat) : weight size (l.drop j) % m = weight size (l.drop j) :=
    Nat.mod_eq_of_lt (Nat.lt_of_le_of_lt (weight_drop_le l j) hm)
  have hleast := h.isLeast_drop_mod hworks
  simp only [hcount] at hleast
  exact hleast

end Tried

end

end Mik.Lib.Eviction
