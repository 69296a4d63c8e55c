/-
  Recursion over a graph with finitely many edges at each node.

  A recursion that follows every edge ends at a node when its calls nest to some depth (`Fits`). It
  does exactly when the nodes reached are finitely many and on no cycle (`fits_iff`): going along an
  edge takes a step of the depth, and where there is no cycle it leaves a node behind for good, so
  that the number of nodes reached is depth enough (`fits_ncard`).
-/
import Mathlib.Data.Set.Card
import Mathlib.Data.Set.Finite.Lattice
import Mathlib.Logic.Relation

namespace Mik.Lib.Unfolding

open Relation

variable {α : Type} {succ : α → List α} {a b : α} {n m : Nat}

/-- There is an edge from `a` to `b`. -/
def Edge (succ : α → List α) (a b : α) : Prop := b ∈ succ a

/-- The calls at `a` nest at most `n` deep. -/
def Fits (succ : α → List α) : Nat → α → Prop
  | 0, _ => False
  | n + 1, a => ∀ b ∈ succ a, Fits succ n b

/-- The nodes that are reached from `a`, with `a` itself. -/
def reached (succ : α → List α) (a : α) : Set α := {b | ReflTransGen (Edge succ) a b}

/-- Finitely many nodes are reached, none of them on a cycle. -/
structure FiniteAcyclic (succ : α → List α) (a : α) : Prop where
  finite : (reached succ a).Finite
  acyclic : ∀ b ∈ reached succ a, ¬ TransGen (Edge succ) b b

/-! ## Depth -/

theorem fits_succ (h : Fits succ n a) : Fits succ (n + 1) a := by
  induction n generalizing a with
  | zero => exact h.elim
  | succ n ih => exact fun b hb => ih (h b hb)

theorem fits_mono (h : Fits succ n a) (hle : n ≤ m) : Fits succ m a := by
  induction hle with
  | refl => exact h
  | step _ ih => exact fits_succ ih

/-- Along a path of edges the depth gets smaller. -/
theorem fits_of_transGen (h : TransGen (Edge succ) a b) (ha : Fits succ n a) :
    ∃ m < n, Fits succ m b := by
  have hedge : ∀ {a b : α} {n : Nat}, Edge succ a b → Fits succ n a → ∃ m < n, Fits succ m b := by
    intro a b n hab ha
    cases n with
    | zero => exact ha.elim
    | succ n => exact ⟨n, Nat.lt_succ_self n, ha b hab⟩
  induction h with
  | single hab => exact hedge hab ha
  | tail _ hbc ih =>
    obtain ⟨m, hm, hb⟩ := ih
    obtain ⟨l, hl, hc⟩ := hedge hbc hb
    exact ⟨l, hl.trans hm, hc⟩

theorem fits_of_reached (ha : Fits succ n a) (h : b ∈ reached succ a) : Fits succ n b := by
  rcases reflTransGen_iff_eq_or_transGen.mp h with rfl | hpath
  · exact ha
  · obtain ⟨m, hm, hb⟩ := fits_of_transGen hpath ha
    exact fits_mono hb (Nat.le_of_lt hm)

/-- A node on a cycle is left by no recursion. -/
theorem not_fits_of_cycle (h : TransGen (Edge succ) a a) (n : Nat) : ¬ Fits succ n a := by
  induction n using Nat.strong_induction_on with
  | _ n ih =>
    intro ha
    obtain ⟨m, hm, ha'⟩ := fits_of_transGen h ha
    exact ih m hm ha'

/-! ## The nodes reached -/

/-- A node and what its neighbours reach. -/
theorem reached_eq (succ : α → List α) (a : α) :
    reached succ a = insert a (⋃ b ∈ succ a, reached succ b) := by
  ext c
  rw [Set.mem_insert_iff, Set.mem_iUnion₂]
  constructor
  · intro h
    rcases ReflTransGen.cases_head h with rfl | ⟨b, hab, hbc⟩
    · exact Or.inl rfl
    · exact Or.inr ⟨b, hab, hbc⟩
  · rintro (rfl | ⟨b, hab, hbc⟩)
    · exact ReflTransGen.refl
    · exact ReflTransGen.head hab hbc

theorem finite_of_fits (h : Fits succ n a) : (reached succ a).Finite := by
  induction n generalizing a with
  | zero => exact h.elim
  | succ n ih =>
    rw [reached_eq]
    exact Set.Finite.insert a ((List.finite_toSet (succ a)).biUnion fun b hb => ih (h b hb))

theorem reached_subset (h : Edge succ a b) : reached succ b ⊆ reached succ a :=
  fun _ hc => ReflTransGen.head h hc

theorem FiniteAcyclic.edge (h : FiniteAcyclic succ a) (hab : Edge succ a b) :
    FiniteAcyclic succ b where
  finite := h.finite.subset (reached_subset hab)
  acyclic c hc := h.acyclic c (reached_subset hab hc)

/-- Without a cycle, a neighbour reaches fewer nodes. -/
theorem FiniteAcyclic.ncard_lt (h : FiniteAcyclic succ a) (hab : Edge succ a b) :
    (reached succ b).ncard < (reached succ a).ncard := by
  refine Set.ncard_lt_ncard ⟨reached_subset hab, fun hback => ?_⟩ h.finite
  have hcycle : b ∈ reached succ a := reached_subset hab ReflTransGen.refl
  have hreturn : ReflTransGen (Edge succ) b a := hback ReflTransGen.refl
  exact h.acyclic a ReflTransGen.refl (TransGen.head' hab hreturn)

/-- The number of nodes reached is depth enough. -/
theorem FiniteAcyclic.fits_ncard (h : FiniteAcyclic succ a) :
    Fits succ (reached succ a).ncard a := by
  induction hn : (reached succ a).ncard using Nat.strong_induction_on generalizing a with
  | _ n ih =>
    have hpos : 0 < n := by
      rw [← hn, Set.ncard_pos h.finite]
      exact ⟨a, ReflTransGen.refl⟩
    obtain ⟨m, rfl⟩ := Nat.exists_eq_succ_of_ne_zero (Nat.ne_of_gt hpos)
    intro b hab
    have hlt := h.ncard_lt hab
    rw [hn] at hlt
    exact fits_mono (ih _ hlt (h.edge hab) rfl) (Nat.le_of_lt_succ hlt)

/-- The recursion ends exactly where finitely many nodes are reached, none of them on a cycle. -/
theorem fits_iff : (∃ n, Fits succ n a) ↔ FiniteAcyclic succ a := by
  constructor
  · rintro ⟨n, h⟩
    exact ⟨finite_of_fits h, fun b hb hcycle => not_fits_of_cycle hcycle n (fits_of_reached h hb)⟩
  · intro h
    exact ⟨_, h.fits_ncard⟩

end Mik.Lib.Unfolding
