/-
  Programs made of atomic actions.

  `Prog A R α` is a program that performs actions `a : A`, each answered by an `R a`, and
  returns an `α`. It is the shape of an async handler: between two actions other tasks may
  run. Three readings of one program are used.

  * `runOn perform p s`: alone, from the state `s`.
  * `Exec p tr x`: a complete execution with the answers written in the trace `tr`. The
    answers are arbitrary, so a fact about all traces holds under every interference.
  * `Pool.step`: one task of a pool performs its next action. `Pool.run_invariant` is the
    invariant rule for every interleaving; `Within` bounds the actions a program may still
    perform, and is what a task brings into such an invariant.
-/
import Mik.Lib.Run

namespace Mik.Lib

inductive Prog (A : Type) (R : A → Type) (α : Type) where
  | ret (x : α)
  | act (a : A) (k : R a → Prog A R α)

namespace Prog

section

variable {A : Type} {R : A → Type} {α β : Type}

protected def bind : Prog A R α → (α → Prog A R β) → Prog A R β
  | ret x, f => f x
  | act a k, f => act a fun r => (k r).bind f

instance : Monad (Prog A R) where
  pure := ret
  bind := Prog.bind

/-- One action as a program. -/
def perform (a : A) : Prog A R (R a) := act a ret

@[simp] theorem pure_eq (x : α) : (pure x : Prog A R α) = ret x := rfl

@[simp] theorem ret_bind (x : α) (f : α → Prog A R β) : (ret x >>= f) = f x := rfl

@[simp] theorem act_bind (a : A) (k : R a → Prog A R α) (f : α → Prog A R β) :
    (act a k >>= f) = act a fun r => k r >>= f := rfl

@[simp] theorem perform_bind (a : A) (f : R a → Prog A R β) :
    ((perform a : Prog A R (R a)) >>= f) = act a f := rfl

theorem bind_assoc {γ : Type} (p : Prog A R α) (f : α → Prog A R β) (g : β → Prog A R γ) :
    (p >>= f) >>= g = p >>= fun x => f x >>= g := by
  induction p with
  | ret x => rfl
  | act a k ih =>
    show act a (fun r => (k r >>= f) >>= g) = act a fun r => k r >>= fun x => f x >>= g
    congr 1
    funext r
    exact ih r

theorem bind_ret (p : Prog A R α) : (p >>= ret) = p := by
  induction p with
  | ret x => rfl
  | act a k ih => exact congrArg (act a) (funext ih)

/-! ## Alone -/

/-- The program run alone: its result and the state it leaves. -/
def runOn {S : Type} (answer : (a : A) → S → R a × S) : Prog A R α → S → α × S
  | ret x, s => (x, s)
  | act a k, s => runOn answer (k (answer a s).1) (answer a s).2

variable {S : Type} {answer : (a : A) → S → R a × S}

@[simp] theorem runOn_ret (x : α) (s : S) : runOn answer (ret x : Prog A R α) s = (x, s) := rfl

@[simp] theorem runOn_act (a : A) (k : R a → Prog A R α) (s : S) :
    runOn answer (act a k) s = runOn answer (k (answer a s).1) (answer a s).2 := rfl

theorem runOn_bind (p : Prog A R α) (f : α → Prog A R β) (s : S) :
    runOn answer (p >>= f) s = runOn answer (f (runOn answer p s).1) (runOn answer p s).2 := by
  induction p generalizing s with
  | ret x => rfl
  | act a k ih => exact ih _ _

/-! ## Complete executions -/

/-- An action with the answer it got. -/
abbrev Event (A : Type) (R : A → Type) := (a : A) × R a

/-- `Exec p tr x`: answered as in `tr`, the program `p` returns `x`. -/
inductive Exec : Prog A R α → List (Event A R) → α → Prop where
  | ret (x : α) : Exec (ret x) [] x
  | act {a : A} {k : R a → Prog A R α} {r : R a} {tr : List (Event A R)} {x : α} :
      Exec (k r) tr x → Exec (act a k) (⟨a, r⟩ :: tr) x

@[simp] theorem exec_ret_iff {x y : α} {tr : List (Event A R)} :
    Exec (ret x : Prog A R α) tr y ↔ tr = [] ∧ y = x := by
  constructor
  · intro h
    cases h
    exact ⟨rfl, rfl⟩
  · rintro ⟨rfl, rfl⟩
    exact Exec.ret _

@[simp] theorem exec_act_iff {a : A} {k : R a → Prog A R α} {tr : List (Event A R)} {x : α} :
    Exec (act a k) tr x ↔ ∃ r tr', tr = ⟨a, r⟩ :: tr' ∧ Exec (k r) tr' x := by
  constructor
  · intro h
    cases h with
    | act h => exact ⟨_, _, rfl, h⟩
  · rintro ⟨r, tr', rfl, h⟩
    exact Exec.act h

/-- An execution of `p >>= f` is one of `p` followed by one of `f`. -/
theorem exec_bind_iff {p : Prog A R α} {f : α → Prog A R β} {tr : List (Event A R)} {y : β} :
    Exec (p >>= f) tr y ↔
      ∃ tr₁ tr₂ x, tr = tr₁ ++ tr₂ ∧ Exec p tr₁ x ∧ Exec (f x) tr₂ y := by
  induction p generalizing tr with
  | ret x =>
    rw [ret_bind]
    constructor
    · intro h
      exact ⟨[], tr, x, rfl, Exec.ret x, h⟩
    · rintro ⟨tr₁, tr₂, x', rfl, h1, h2⟩
      obtain ⟨rfl, rfl⟩ := exec_ret_iff.mp h1
      exact h2
  | act a k ih =>
    rw [act_bind, exec_act_iff]
    constructor
    · rintro ⟨r, tr', rfl, h⟩
      obtain ⟨tr₁, tr₂, x, rfl, h1, h2⟩ := (ih r).mp h
      exact ⟨⟨a, r⟩ :: tr₁, tr₂, x, rfl, Exec.act h1, h2⟩
    · rintro ⟨tr₁, tr₂, x, rfl, h1, h2⟩
      obtain ⟨r, tr', rfl, h1'⟩ := exec_act_iff.mp h1
      exact ⟨r, tr' ++ tr₂, rfl, (ih r).mpr ⟨tr', tr₂, x, rfl, h1', h2⟩⟩

/-- The trace of the program run alone. -/
def traceOn {S : Type} (answer : (a : A) → S → R a × S) : Prog A R α → S → List (Event A R)
  | ret _, _ => []
  | act a k, s => ⟨a, (answer a s).1⟩ :: traceOn answer (k (answer a s).1) (answer a s).2

theorem traceOn_bind (p : Prog A R α) (f : α → Prog A R β) (s : S) :
    traceOn answer (p >>= f) s =
      traceOn answer p s ++ traceOn answer (f (runOn answer p s).1) (runOn answer p s).2 := by
  induction p generalizing s with
  | ret x => rfl
  | act a k ih => exact congrArg _ (ih _ _)

/-- Running alone is one of the complete executions. -/
theorem exec_traceOn (answer : (a : A) → S → R a × S) (p : Prog A R α) (s : S) :
    Exec p (traceOn answer p s) (runOn answer p s).1 := by
  induction p generalizing s with
  | ret x => exact Exec.ret x
  | act a k ih => exact Exec.act (ih _ _)

/-- The state left by a program run alone is its trace performed on the first state. -/
theorem runOn_state (p : Prog A R α) (s : S) :
    (runOn answer p s).2 = (traceOn answer p s).foldl (fun s ev => (answer ev.1 s).2) s := by
  induction p generalizing s with
  | ret x => rfl
  | act a k ih => exact ih _ _

/-! ## Bounding the actions -/

/-- As long as the answers satisfy `G`, the program only performs actions satisfying `P`, and
    what it returns satisfies `Q`. -/
def Within (G : (a : A) → R a → Prop) (P : A → Prop) (Q : α → Prop) : Prog A R α → Prop
  | ret x => Q x
  | act a k => P a ∧ ∀ r, G a r → (k r).Within G P Q

theorem Within.bind {G : (a : A) → R a → Prop} {P : A → Prop} {Q : α → Prop} {Q' : β → Prop}
    {p : Prog A R α} {f : α → Prog A R β} (hp : p.Within G P Q)
    (hf : ∀ x, Q x → (f x).Within G P Q') : (p >>= f).Within G P Q' := by
  induction p with
  | ret x => exact hf x hp
  | act a k ih => exact ⟨hp.1, fun r hr => ih r (hp.2 r hr)⟩

theorem Within.mono {G : (a : A) → R a → Prop} {P P' : A → Prop} {Q Q' : α → Prop}
    {p : Prog A R α} (hp : p.Within G P Q) (hP : ∀ a, P a → P' a) (hQ : ∀ x, Q x → Q' x) :
    p.Within G P' Q' := by
  induction p with
  | ret x => exact hQ x hp
  | act a k ih => exact ⟨hP a hp.1, fun r hr => ih r (hp.2 r hr)⟩

/-- Fewer answers come. -/
theorem Within.answers {G G' : (a : A) → R a → Prop} {P : A → Prop} {Q : α → Prop}
    {p : Prog A R α} (hp : p.Within G P Q) (hG : ∀ a r, P a → G' a r → G a r) :
    p.Within G' P Q := by
  induction p with
  | ret x => exact hp
  | act a k ih => exact ⟨hp.1, fun r hr => ih r (hp.2 r (hG a r hp.1 hr))⟩

/-- Whatever the answers, the actions of an execution satisfy `P`. -/
theorem Within.of_exec {P : A → Prop} {Q : α → Prop} {p : Prog A R α} {tr : List (Event A R)}
    {x : α} (hp : p.Within (fun _ _ => True) P Q) (h : Exec p tr x) : ∀ ev ∈ tr, P ev.1 := by
  induction h with
  | ret x =>
    intro ev hev
    cases hev
  | act h ih =>
    intro ev hev
    rcases List.mem_cons.mp hev with rfl | hev
    · exact hp.1
    · exact ih (hp.2 _ trivial) ev hev

/-- And what it returns satisfies `Q`. -/
theorem Within.result_of_exec {P : A → Prop} {Q : α → Prop} {p : Prog A R α}
    {tr : List (Event A R)} {x : α} (hp : p.Within (fun _ _ => True) P Q) (h : Exec p tr x) :
    Q x := by
  induction h with
  | ret x => exact hp
  | act h ih => exact ih (hp.2 _ trivial)

end

end Prog

/-! ## Pools of tasks -/

/-- The tasks still running, by number, and the state they share. -/
structure Pool (A : Type) (R : A → Type) (α S : Type) where
  tasks : Nat → Option (Prog A R α)
  state : S

namespace Pool

variable {A E S α : Type} {R : A → Type}

/-- What may happen in a pool: a new task is started, or a running one performs its next
    action while the outside world answers with `e`. -/
inductive Move (A : Type) (R : A → Type) (α E : Type) where
  | spawn (i : Nat) (p : Prog A R α)
  | advance (i : Nat) (e : E)

def step (answer : E → (a : A) → S → R a × S) (w : Pool A R α S) : Move A R α E → Pool A R α S
  | .spawn i p =>
    match w.tasks i with
    | none => { w with tasks := fun j => if j = i then some p else w.tasks j }
    | some _ => w
  | .advance i e =>
    match w.tasks i with
    | none => w
    | some (.ret _) => { w with tasks := fun j => if j = i then none else w.tasks j }
    | some (.act a k) =>
      { tasks := fun j => if j = i then some (k (answer e a w.state).1) else w.tasks j
        state := (answer e a w.state).2 }

/-- What a move finds: its number in use or free, its task gone, finished or about to act. -/
inductive MoveCase (w : Pool A R α S) : Move A R α E → Prop where
  | taken {i : Nat} {p t : Prog A R α} (h : w.tasks i = some t) : MoveCase w (.spawn i p)
  | spawn {i : Nat} {p : Prog A R α} (h : w.tasks i = none) : MoveCase w (.spawn i p)
  | gone {i : Nat} {e : E} (h : w.tasks i = none) : MoveCase w (.advance i e)
  | ret {i : Nat} {e : E} {x : α} (h : w.tasks i = some (.ret x)) : MoveCase w (.advance i e)
  | act {i : Nat} {e : E} {a : A} {k : R a → Prog A R α} (h : w.tasks i = some (.act a k)) :
      MoveCase w (.advance i e)

theorem moveCase (w : Pool A R α S) (m : Move A R α E) : MoveCase w m := by
  cases m with
  | spawn i p =>
    cases h : w.tasks i with
    | none => exact .spawn h
    | some t => exact .taken h
  | advance i e =>
    cases h : w.tasks i with
    | none => exact .gone h
    | some t =>
      cases t with
      | ret x => exact .ret h
      | act a k => exact .act h

section

variable {answer : E → (a : A) → S → R a × S} {w : Pool A R α S} {i : Nat}

theorem step_spawn_of_none (p : Prog A R α) (h : w.tasks i = none) :
    step answer w (.spawn i p) =
      { w with tasks := fun j => if j = i then some p else w.tasks j } := by
  show (match w.tasks i with | none => _ | some _ => _) = _
  rw [h]

theorem step_spawn_of_some (p : Prog A R α) {t : Prog A R α} (h : w.tasks i = some t) :
    step answer w (.spawn i p) = w := by
  show (match w.tasks i with | none => _ | some _ => _) = _
  rw [h]

theorem step_advance_of_none (e : E) (h : w.tasks i = none) :
    step answer w (.advance i e) = w := by
  show (match w.tasks i with | none => _ | some (.ret _) => _ | some (.act _ _) => _) = _
  rw [h]

theorem step_advance_ret (e : E) {x : α} (h : w.tasks i = some (.ret x)) :
    step answer w (.advance i e) =
      { w with tasks := fun j => if j = i then none else w.tasks j } := by
  show (match w.tasks i with | none => _ | some (.ret _) => _ | some (.act _ _) => _) = _
  rw [h]

theorem step_advance_act (e : E) {a : A} {k : R a → Prog A R α}
    (h : w.tasks i = some (.act a k)) :
    step answer w (.advance i e) =
      { tasks := fun j => if j = i then some (k (answer e a w.state).1) else w.tasks j
        state := (answer e a w.state).2 } := by
  show (match w.tasks i with | none => _ | some (.ret _) => _ | some (.act _ _) => _) = _
  rw [h]

end

/-- Every task of the pool stays within `P`. -/
def TasksWithin (G : (a : A) → R a → Prop) (P : A → Prop) (w : Pool A R α S) : Prop :=
  ∀ i p, w.tasks i = some p → p.Within G P fun _ => True

/-- A new task stays within `P`, an answer comes from a `Q` world. -/
def MoveOk (G : (a : A) → R a → Prop) (P : A → Prop) (Q : E → Prop) : Move A R α E → Prop
  | .spawn _ p => p.Within G P fun _ => True
  | .advance _ e => Q e

/-- One move of a pool: if the answers a `Q` world gives in `Inv`-states satisfy `G`, and the
    actions allowed by `P` keep `Inv` there, then tasks within `P` keep `Inv` and stay so. -/
theorem step_invariant {answer : E → (a : A) → S → R a × S} {G : (a : A) → R a → Prop}
    {P : A → Prop} {Q : E → Prop} {Inv : S → Prop}
    (hans : ∀ e a s, Q e → Inv s → P a → G a (answer e a s).1)
    (hkeep : ∀ e a s, Q e → Inv s → P a → Inv (answer e a s).2)
    {w : Pool A R α S} (hi : Inv w.state) (ht : TasksWithin G P w) (m : Move A R α E)
    (hm : MoveOk G P Q m) :
    Inv (step answer w m).state ∧ TasksWithin G P (step answer w m) := by
  cases m with
  | spawn i p =>
    unfold step
    dsimp only
    split
    · refine ⟨hi, fun j q hq => ?_⟩
      dsimp only at hq
      split at hq
      · cases hq
        exact hm
      · exact ht j q hq
    · exact ⟨hi, ht⟩
  | advance i e =>
    unfold step
    dsimp only
    split
    · exact ⟨hi, ht⟩
    · refine ⟨hi, fun j q hq => ?_⟩
      dsimp only at hq
      split at hq
      · cases hq
      · exact ht j q hq
    · next a k hw =>
      obtain ⟨hP, hrest⟩ := ht i _ hw
      refine ⟨hkeep e a w.state hm hi hP, fun j q hq => ?_⟩
      dsimp only at hq
      split at hq
      · cases hq
        exact hrest _ (hans e a w.state hm hi hP)
      · exact ht j q hq

/-- Every interleaving of tasks within `P` keeps `Inv`. -/
theorem run_invariant {answer : E → (a : A) → S → R a × S} {G : (a : A) → R a → Prop}
    {P : A → Prop} {Q : E → Prop} (Inv : S → Prop)
    (hans : ∀ e a s, Q e → Inv s → P a → G a (answer e a s).1)
    (hkeep : ∀ e a s, Q e → Inv s → P a → Inv (answer e a s).2)
    {w : Pool A R α S} (hi : Inv w.state) (ht : TasksWithin G P w) {ms : List (Move A R α E)}
    (hms : ∀ m ∈ ms, MoveOk G P Q m) : Inv (run (step answer) w ms).state := by
  induction ms generalizing w with
  | nil => exact hi
  | cons m ms ih =>
    rw [run_cons]
    obtain ⟨hi', ht'⟩ := step_invariant hans hkeep hi ht m (hms m List.mem_cons_self)
    exact ih hi' ht' (fun m' hm' => hms m' (List.mem_cons_of_mem _ hm'))

end Pool

end Mik.Lib
