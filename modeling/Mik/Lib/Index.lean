/-
  An index kept beside a store.

  Values lie at locations; an index records a value for each key, and `resolve` says which
  location a key means. `Paired` is the agreement of the two: every key of the index resolves to
  a location with the recorded value, and every value lies under exactly one key. Several keys
  may resolve to one location, so writing both sides does not always keep the agreement. For each
  way of changing one or both sides, the `iff` lemmas give the exact condition.
-/
import Mathlib.Logic.Function.Basic

namespace Mik.Lib

open Function

variable {K L V : Type} {resolve : K → Option L} {store : L → Option V} {index : K → Option V}

structure Paired (resolve : K → Option L) (store : L → Option V) (index : K → Option V) :
    Prop where
  resolves : ∀ k v, index k = some v → ∃ l, resolve k = some l ∧ store l = some v
  keyed : ∀ l v, store l = some v → ∃ k, index k = some v ∧ resolve k = some l
  unique : ∀ k k' l, index k ≠ none → index k' ≠ none → resolve k = some l →
    resolve k' = some l → k = k'

namespace Paired

/-- The one value of a key's location. -/
theorem value_eq (h : Paired resolve store index) {k : K} {l : L} {v : V}
    (hk : index k = some v) (hl : resolve k = some l) : store l = some v := by
  obtain ⟨l', hl', hv⟩ := h.resolves k v hk
  rw [hl] at hl'
  cases hl'
  exact hv

/-- The keys of a location with no value are not in the index. -/
theorem index_eq_none (h : Paired resolve store index) {k : K} {l : L} (hl : resolve k = some l)
    (hstore : store l = none) : index k = none := by
  cases hk : index k with
  | none => rfl
  | some v =>
    have := h.value_eq hk hl
    rw [hstore] at this
    cases this

/-- Writing both sides under a key keeps the agreement exactly when no other key of the index
    means the same location. -/
theorem write_both_iff [DecidableEq K] [DecidableEq L] (h : Paired resolve store index) {k : K}
    {l : L} (hl : resolve k = some l) (v : V) :
    Paired resolve (update store l (some v)) (update index k (some v)) ↔
      ∀ k', index k' ≠ none → resolve k' = some l → k' = k := by
  constructor
  · intro h' k' hk' hl'
    by_contra hne
    refine hne (h'.unique k' k l ?_ ?_ hl' hl)
    · rw [update_of_ne hne]
      exact hk'
    · rw [update_self]
      simp
  · intro honly
    refine ⟨fun k' v' hk' => ?_, fun l' v' hl' => ?_, fun k₁ k₂ l' h₁ h₂ hl₁ hl₂ => ?_⟩
    · by_cases heq : k' = k
      · rw [heq, update_self] at hk'
        exact ⟨l, by rw [heq, hl], by rw [update_self, hk']⟩
      · rw [update_of_ne heq] at hk'
        obtain ⟨l', hres, hv⟩ := h.resolves k' v' hk'
        have hother : l' ≠ l := by
          rintro rfl
          exact heq (honly k' (by rw [hk']; simp) hres)
        exact ⟨l', hres, by rw [update_of_ne hother, hv]⟩
    · by_cases heq : l' = l
      · rw [heq, update_self] at hl'
        exact ⟨k, by rw [update_self, hl'], by rw [heq, hl]⟩
      · rw [update_of_ne heq] at hl'
        obtain ⟨k', hk', hres⟩ := h.keyed l' v' hl'
        have hother : k' ≠ k := by
          rintro rfl
          rw [hl] at hres
          exact heq (Option.some.inj hres).symm
        exact ⟨k', by rw [update_of_ne hother, hk'], hres⟩
    · by_cases hl' : l' = l
      · -- both keys mean the written location, so both are `k`
        have hkey : ∀ k', update index k (some v) k' ≠ none → resolve k' = some l' → k' = k := by
          intro k' hk' hres
          by_contra hne
          rw [update_of_ne hne] at hk'
          exact hne (honly k' hk' (by rw [hres, hl']))
        rw [hkey k₁ h₁ hl₁, hkey k₂ h₂ hl₂]
      · have hkeep : ∀ k', update index k (some v) k' ≠ none → resolve k' = some l' →
            index k' ≠ none := by
          intro k' hk' hres
          have hne : k' ≠ k := by
            rintro rfl
            rw [hl] at hres
            exact hl' (Option.some.inj hres).symm
          rw [update_of_ne hne] at hk'
          exact hk'
        exact h.unique k₁ k₂ l' (hkeep k₁ h₁ hl₁) (hkeep k₂ h₂ hl₂) hl₁ hl₂

/-- Writing the store alone keeps the agreement exactly when the index records that value
    already. -/
theorem write_store_iff [DecidableEq L] (h : Paired resolve store index) (l : L) (v : V) :
    Paired resolve (update store l (some v)) index ↔
      ∃ k, index k = some v ∧ resolve k = some l := by
  constructor
  · intro h'
    exact h'.keyed l v (by rw [update_self])
  · rintro ⟨k, hk, hl⟩
    have hsame : update store l (some v) = store := by
      rw [update_eq_self_iff]
      exact (h.value_eq hk hl).symm
    rw [hsame]
    exact h

/-- Removing a value from both sides keeps the agreement exactly when the key is the one in the
    index. -/
theorem remove_both_iff [DecidableEq K] [DecidableEq L] (h : Paired resolve store index) {k : K}
    {l : L} {v : V} (hl : resolve k = some l) (hv : store l = some v) :
    Paired resolve (update store l none) (update index k none) ↔ index k ≠ none := by
  constructor
  · intro h' hk
    obtain ⟨k', hk', hl'⟩ := h.keyed l v hv
    have hne : k' ≠ k := by
      rintro rfl
      rw [hk] at hk'
      cases hk'
    have hnone := h'.index_eq_none hl' (update_self l none store)
    rw [update_of_ne hne, hk'] at hnone
    cases hnone
  · intro hk
    refine ⟨fun k' v' hk' => ?_, fun l' v' hl' => ?_, fun k₁ k₂ l' h₁ h₂ hl₁ hl₂ => ?_⟩
    · have hne : k' ≠ k := by
        rintro rfl
        rw [update_self] at hk'
        cases hk'
      rw [update_of_ne hne] at hk'
      obtain ⟨l', hres, hv'⟩ := h.resolves k' v' hk'
      have hother : l' ≠ l := by
        rintro rfl
        exact hne (h.unique k' k l' (by rw [hk']; simp) hk hres hl)
      exact ⟨l', hres, by rw [update_of_ne hother, hv']⟩
    · have hother : l' ≠ l := by
        rintro rfl
        rw [update_self] at hl'
        cases hl'
      rw [update_of_ne hother] at hl'
      obtain ⟨k', hk', hres⟩ := h.keyed l' v' hl'
      have hne : k' ≠ k := by
        rintro rfl
        rw [hl] at hres
        exact hother (Option.some.inj hres).symm
      exact ⟨k', by rw [update_of_ne hne, hk'], hres⟩
    · have hkeep : ∀ k', update index k none k' ≠ none → index k' ≠ none := by
        intro k' hk'
        have hne : k' ≠ k := by
          rintro rfl
          exact hk' (update_self k' none index)
        rw [update_of_ne hne] at hk'
        exact hk'
      exact h.unique k₁ k₂ l' (hkeep k₁ h₁) (hkeep k₂ h₂) hl₁ hl₂

/-- Removing a value from the store alone never keeps it. -/
theorem not_remove_store [DecidableEq L] (h : Paired resolve store index) {l : L} {v : V}
    (hv : store l = some v) : ¬ Paired resolve (update store l none) index := by
  intro h'
  obtain ⟨k, hk, hl⟩ := h.keyed l v hv
  have hnone := h'.index_eq_none hl (update_self l none store)
  rw [hk] at hnone
  cases hnone

/-- Removing a key from the index alone keeps it exactly when the key was not there. -/
theorem remove_index_iff [DecidableEq K] (h : Paired resolve store index) (k : K) :
    Paired resolve store (update index k none) ↔ index k = none := by
  constructor
  · intro h'
    cases hk : index k with
    | none => rfl
    | some v =>
      obtain ⟨l, hl, hv⟩ := h.resolves k v hk
      -- the value at `l` must be under some key, which can only be the removed one
      obtain ⟨k', hk', hl'⟩ := h'.keyed l v hv
      have hne : k' ≠ k := by
        rintro rfl
        rw [update_self] at hk'
        cases hk'
      rw [update_of_ne hne] at hk'
      exact absurd (h.unique k' k l (by rw [hk']; simp) (by rw [hk]; simp) hl' hl) hne
  · intro hk
    have hsame : update index k none = index := by
      rw [update_eq_self_iff]
      exact hk.symm
    rw [hsame]
    exact h

end Paired

end Mik.Lib
