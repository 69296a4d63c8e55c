/-
  Runs of a deterministic step function, and the two ways a property is carried along one.

  `run step s es` folds `step` over the events `es`. `Along step Ok s es` says that every
  event of the run meets the guard `Ok` in the state just before it, which is how a condition
  on the steps of a run is written. `run_invariant` is the invariant rule: an initial fact and
  a step lemma that may use the guard give the fact in the last state, and `along_upto`
  turns that into a statement about every state the run passes through.
-/
import Mathlib.Data.List.Basic

namespace Mik.Lib

section

variable {S E : Type} {step : S → E → S} {Ok : S → E → Prop}

/-- The state after the events `es`, from `s`. -/
def run (step : S → E → S) (s : S) (es : List E) : S := es.foldl step s

/-- Every event of the run meets `Ok` in the state just before it. -/
def Along (step : S → E → S) (Ok : S → E → Prop) : S → List E → Prop
  | _, [] => True
  | s, e :: es => Ok s e ∧ Along step Ok (step s e) es

instance instDecidableAlong [∀ s e, Decidable (Ok s e)] :
    (s : S) → (es : List E) → Decidable (Along step Ok s es)
  | _, [] => isTrue trivial
  | s, e :: es => @instDecidableAnd _ _ _ (instDecidableAlong (step s e) es)

@[simp] theorem run_nil (s : S) : run step s [] = s := rfl

@[simp] theorem run_cons (s : S) (e : E) (es : List E) :
    run step s (e :: es) = run step (step s e) es := rfl

theorem run_append (s : S) (es fs : List E) :
    run step s (es ++ fs) = run step (run step s es) fs := List.foldl_append

theorem run_snoc (s : S) (es : List E) (e : E) :
    run step s (es ++ [e]) = step (run step s es) e := by
  rw [run_append]
  rfl

theorem along_append {s : S} {es fs : List E} :
    Along step Ok s (es ++ fs) ↔ Along step Ok s es ∧ Along step Ok (run step s es) fs := by
  induction es generalizing s with
  | nil => simp [Along]
  | cons e es ih => simp only [List.cons_append, Along, ih, run_cons, and_assoc]

/-- Events under other names. -/
theorem run_map {F : Type} (f : F → E) (s : S) (fs : List F) :
    run (fun s e => step s (f e)) s fs = run step s (fs.map f) := by
  induction fs generalizing s with
  | nil => rfl
  | cons e fs ih => exact ih _

theorem along_map {F : Type} {f : F → E} {s : S} {fs : List F} :
    Along (fun s e => step s (f e)) (fun s e => Ok s (f e)) s fs ↔
      Along step Ok s (fs.map f) := by
  induction fs generalizing s with
  | nil => exact Iff.rfl
  | cons e fs ih => exact and_congr_right fun _ => ih

theorem along_mono {Ok' : S → E → Prop} (h : ∀ s e, Ok s e → Ok' s e) {s : S} {es : List E}
    (hes : Along step Ok s es) : Along step Ok' s es := by
  induction es generalizing s with
  | nil => trivial
  | cons e es ih => exact ⟨h s e hes.1, ih hes.2⟩

/-- A guard that says nothing of the state. -/
theorem along_of_mem {s : S} {es : List E} (h : ∀ e ∈ es, ∀ s, Ok s e) : Along step Ok s es := by
  induction es generalizing s with
  | nil => trivial
  | cons e es ih =>
    exact ⟨h e List.mem_cons_self s, ih fun e' he' => h e' (List.mem_cons_of_mem _ he')⟩

/-- A guard met along a run is met along every prefix of it. -/
theorem along_upto {s : S} {es fs : List E} (h : Along step Ok s fs) (hp : es <+: fs) :
    Along step Ok s es := by
  obtain ⟨t, rfl⟩ := hp
  exact (along_append.mp h).1

/-- Where a guard is not met along a run, some event does not meet it. -/
theorem exists_not_of_not_along {s : S} {es : List E} (h : ¬ Along step Ok s es) :
    ∃ done e rest, es = done ++ e :: rest ∧ ¬ Ok (run step s done) e := by
  induction es generalizing s with
  | nil => exact absurd trivial h
  | cons e es ih =>
    by_cases hok : Ok s e
    · obtain ⟨done, e', rest, rfl, hnot⟩ := ih fun hrest => h ⟨hok, hrest⟩
      exact ⟨e :: done, e', rest, rfl, hnot⟩
    · exact ⟨[], e, es, rfl, hok⟩

/-- A guard is met along a run when it is met in every state the run passes through. -/
theorem along_iff_forall {s : S} {es : List E} :
    Along step Ok s es ↔ ∀ done e, done ++ [e] <+: es → Ok (run step s done) e := by
  constructor
  · intro h done e hpre
    exact (along_append.mp (along_upto h hpre)).2.1
  · intro h
    by_contra hno
    obtain ⟨done, e, rest, rfl, hnot⟩ := exists_not_of_not_along hno
    exact hnot (h done e ⟨rest, by simp⟩)

/-- Guards that agree on the events of a run are met along it together. -/
theorem along_congr {Ok' : S → E → Prop} {s : S} {es : List E}
    (h : ∀ s, ∀ e ∈ es, Ok s e ↔ Ok' s e) : Along step Ok s es ↔ Along step Ok' s es := by
  induction es generalizing s with
  | nil => exact Iff.rfl
  | cons e es ih =>
    have hrest := @ih (step s e) (fun s' e' he' => h s' e' (List.mem_cons_of_mem _ he'))
    exact and_congr (h s e List.mem_cons_self) hrest

/-- The invariant rule. -/
theorem run_invariant {Inv : S → Prop} {s : S} {es : List E} (h0 : Inv s)
    (hstep : ∀ s e, Inv s → Ok s e → Inv (step s e)) (h : Along step Ok s es) :
    Inv (run step s es) := by
  induction es generalizing s with
  | nil => exact h0
  | cons e es ih => exact ih (hstep s e h0 h.1) h.2

/-- The invariant rule for steps that need no guard. -/
theorem run_keeps (Inv : S → Prop) (hstep : ∀ s e, Inv s → Inv (step s e)) {s : S} (h0 : Inv s)
    (es : List E) : Inv (run step s es) := by
  induction es generalizing s with
  | nil => exact h0
  | cons e es ih => exact ih (hstep s e h0)

/-- Two guards that agree wherever an invariant holds, which one of them carries on, are met
    along the same runs. -/
theorem along_iff_of_invariant {Ok' : S → E → Prop} (Inv : S → Prop) {s : S} (h0 : Inv s)
    (hstep : ∀ s e, Inv s → Ok s e → Inv (step s e))
    (hiff : ∀ s e, Inv s → (Ok' s e ↔ Ok s e)) (es : List E) :
    Along step Ok' s es ↔ Along step Ok s es := by
  induction es generalizing s with
  | nil => exact Iff.rfl
  | cons e es ih =>
    have hhead := hiff s e h0
    constructor
    · intro h
      have hok := hhead.mp h.1
      exact ⟨hok, (ih (hstep s e h0 hok)).mp h.2⟩
    · intro h
      exact ⟨hhead.mpr h.1, (ih (hstep s e h0 h.1)).mpr h.2⟩

/-- A guard that an invariant turns into another one at each step, and that carries the invariant
    on, gives the other one along the run. -/
theorem along_of_invariant {Ok' : S → E → Prop} (Inv : S → Prop) {s : S} (h0 : Inv s)
    (hstep : ∀ s e, Inv s → Ok s e → Ok' s e ∧ Inv (step s e)) {es : List E}
    (h : Along step Ok s es) : Along step Ok' s es := by
  induction es generalizing s with
  | nil => trivial
  | cons e es ih =>
    obtain ⟨hok, hnext⟩ := hstep s e h0 h.1
    exact ⟨hok, ih hnext h.2⟩

/-- The exact guard of a property: if a step from a good state leads to a good state exactly when
    the guard is met, a run stays good throughout exactly when all its steps meet it. -/
theorem good_throughout_iff (Inv Good : S → Prop) {s : S} {es : List E} (h0 : Inv s)
    (hg : Good s) (hinv : ∀ s e, Inv s → Inv (step s e))
    (hiff : ∀ s e, Inv s → Good s → (Good (step s e) ↔ Ok s e)) :
    (∀ pre, pre <+: es → Good (run step s pre)) ↔ Along step Ok s es := by
  induction es generalizing s with
  | nil =>
    refine ⟨fun _ => trivial, fun _ pre hpre => ?_⟩
    rw [List.prefix_nil.mp hpre]
    exact hg
  | cons e es ih =>
    constructor
    · intro h
      have hone : Good (step s e) := h [e] ⟨es, rfl⟩
      refine ⟨(hiff s e h0 hg).mp hone, (ih (hinv s e h0) hone).mp fun pre hpre => ?_⟩
      exact h (e :: pre) (List.cons_prefix_cons.mpr ⟨rfl, hpre⟩)
    · rintro ⟨hok, hrest⟩ pre hpre
      have hone := (hiff s e h0 hg).mpr hok
      cases pre with
      | nil => exact hg
      | cons e' pre =>
        obtain ⟨rfl, hpre'⟩ := List.cons_prefix_cons.mp hpre
        exact (ih (hinv s _ h0) hone).mpr hrest pre hpre'

/-- The exact guard of what is seen of a state, where more is needed to carry it along: good states
    look right, the guard keeps them good, and an allowed step to a state that looks right meets
    the guard. -/
theorem seen_throughout_iff {Allowed : S → E → Prop} (Good Seen : S → Prop) {s : S} {es : List E}
    (hg : Good s) (hseen : ∀ s, Good s → Seen s)
    (hkeep : ∀ s e, Good s → Allowed s e → Ok s e → Good (step s e))
    (hguard : ∀ s e, Good s → Allowed s e → Seen (step s e) → Ok s e)
    (hallowed : Along step Allowed s es) :
    (∀ pre, pre <+: es → Seen (run step s pre)) ↔ Along step Ok s es := by
  induction es generalizing s with
  | nil =>
    refine ⟨fun _ => trivial, fun _ pre hpre => ?_⟩
    rw [List.prefix_nil.mp hpre]
    exact hseen s hg
  | cons e es ih =>
    constructor
    · intro h
      have hok := hguard s e hg hallowed.1 (h [e] ⟨es, rfl⟩)
      refine ⟨hok, (ih (hkeep s e hg hallowed.1 hok) hallowed.2).mp fun pre hpre => ?_⟩
      exact h (e :: pre) (List.cons_prefix_cons.mpr ⟨rfl, hpre⟩)
    · rintro ⟨hok, hrest⟩ pre hpre
      cases pre with
      | nil => exact hseen s hg
      | cons e' pre =>
        obtain ⟨rfl, hpre'⟩ := List.cons_prefix_cons.mp hpre
        exact (ih (hkeep s _ hg hallowed.1 hok) hallowed.2).mpr hrest pre hpre'

end

end Mik.Lib
