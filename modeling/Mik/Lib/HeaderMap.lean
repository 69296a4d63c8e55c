/-
  Headers of a message: names with values, in the order in which they were added.

  Values of different names are not ordered among each other, so what a header map says is the list
  of values of each name (`values`). Names are compared as they are: a map holds them in lower case.
-/
import Mathlib.Data.List.Basic

namespace Mik.Lib

/-- The headers of a message, with values of type `β`. -/
abbrev HeaderMap (β : Type) := List (String × β)

namespace HeaderMap

variable {β γ : Type}

/-- The values of a name. -/
def values (name : String) (headers : HeaderMap β) : List β :=
  (headers.filter fun h => h.1 = name).map Prod.snd

@[simp] theorem values_nil (name : String) : values name ([] : HeaderMap β) = [] := rfl

theorem values_cons_self (name : String) (value : β) (headers : HeaderMap β) :
    values name ((name, value) :: headers) = value :: values name headers := by
  unfold values
  rw [List.filter_cons_of_pos (by simp)]
  rfl

theorem values_cons_ne {name name' : String} (h : name' ≠ name) (value : β)
    (headers : HeaderMap β) : values name ((name', value) :: headers) = values name headers := by
  unfold values
  rw [List.filter_cons_of_neg (by simpa using h)]

theorem values_append (name : String) (headers headers' : HeaderMap β) :
    values name (headers ++ headers') = values name headers ++ values name headers' := by
  unfold values
  rw [List.filter_append, List.map_append]

theorem mem_values_iff {name : String} {value : β} {headers : HeaderMap β} :
    value ∈ values name headers ↔ (name, value) ∈ headers := by
  unfold values
  rw [List.mem_map]
  constructor
  · rintro ⟨⟨name', value'⟩, hmem, rfl⟩
    obtain ⟨hin, hname⟩ := List.mem_filter.mp hmem
    obtain rfl : name' = name := of_decide_eq_true hname
    exact hin
  · intro hmem
    exact ⟨(name, value), List.mem_filter.mpr ⟨hmem, decide_eq_true rfl⟩, rfl⟩

/-- The first value of a name is what a lookup finds. -/
theorem lookup_eq_head? (name : String) (headers : HeaderMap β) :
    headers.lookup name = (values name headers).head? := by
  induction headers with
  | nil => rfl
  | cons h headers ih =>
    obtain ⟨name', value⟩ := h
    by_cases hname : name' = name
    · subst hname
      rw [values_cons_self, List.lookup_cons_self]
      rfl
    · rw [values_cons_ne hname, ← ih, List.lookup_cons]
      have hne : (name == name') = false := beq_eq_false_iff_ne.mpr fun heq => hname heq.symm
      rw [hne]

/-- Dropping the headers of some names leaves those of the others. -/
theorem values_filter_of_keep {keep : String → Bool} {name : String} (h : keep name = true)
    (headers : HeaderMap β) :
    values name (headers.filter fun h => keep h.1) = values name headers := by
  unfold values
  rw [List.filter_filter]
  congr 1
  refine List.filter_congr fun x _ => ?_
  by_cases hname : x.1 = name
  · rw [hname, h, decide_eq_true rfl]
    rfl
  · rw [decide_eq_false hname]
    rfl

theorem values_filter_of_drop {keep : String → Bool} {name : String} (h : keep name = false)
    (headers : HeaderMap β) : values name (headers.filter fun h => keep h.1) = [] := by
  unfold values
  rw [List.filter_filter, List.map_eq_nil_iff, List.filter_eq_nil_iff]
  intro x _ hboth
  rw [Bool.and_eq_true, decide_eq_true_eq] at hboth
  rw [hboth.1, h] at hboth
  exact absurd hboth.2 (by decide)

/-- Values that are changed one by one are changed under each name. -/
theorem values_map (f : β → γ) (name : String) (headers : HeaderMap β) :
    values name (headers.map fun h => (h.1, f h.2)) = (values name headers).map f := by
  unfold values
  rw [List.filter_map, List.map_map, List.map_map]
  rfl

end HeaderMap

end Mik.Lib
