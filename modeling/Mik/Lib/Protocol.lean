/-
  Protocols that the tasks of a pool follow.

  What a program may do next often depends on what it has done before: what was begun has to be
  finished, what was read may be acted on. A `Protocol` is an automaton that says so, and `Obeys`
  that a program goes along with it, whatever it is answered within `G`. In a pool each task has a
  state of its own in the protocol, which `Pool.track` follows from move to move; an invariant
  about the shared state can then speak of what the tasks are about to do.
-/
import Mathlib.Logic.Function.Basic
import Mik.Lib.Prog

namespace Mik.Lib

structure Protocol (A : Type) (R : A → Type) where
  State : Type
  allows : State → A → Prop
  next : State → (a : A) → R a → State

section

variable {A : Type} {R : A → Type} {α β S E : Type} {P : Protocol A R}
  {G : (a : A) → R a → Prop}

namespace Prog

/-- From `q` on, the program does what the protocol allows as long as the answers satisfy `G`, and
    returns only what `Q` says of the state it is in then. -/
def Obeys (P : Protocol A R) (G : (a : A) → R a → Prop) (Q : P.State → α → Prop) :
    P.State → Prog A R α → Prop
  | q, ret x => Q q x
  | q, act a k => P.allows q a ∧ ∀ r, G a r → Obeys P G Q (P.next q a r) (k r)

theorem Obeys.bind {Q : P.State → α → Prop} {Q' : P.State → β → Prop} {q : P.State}
    {p : Prog A R α} {f : α → Prog A R β} (hp : p.Obeys P G Q q)
    (hf : ∀ q x, Q q x → (f x).Obeys P G Q' q) : (p >>= f).Obeys P G Q' q := by
  induction p generalizing q with
  | ret x => exact hf q x hp
  | act a k ih => exact ⟨hp.1, fun r hr => ih r (hp.2 r hr)⟩

theorem Obeys.mono {Q Q' : P.State → α → Prop} {q : P.State} {p : Prog A R α} (hp : p.Obeys P G Q q)
    (h : ∀ q x, Q q x → Q' q x) : p.Obeys P G Q' q := by
  induction p generalizing q with
  | ret x => exact h q x hp
  | act a k ih => exact ⟨hp.1, fun r hr => ih r (hp.2 r hr)⟩

theorem obeys_perform {q : P.State} {a : A} (h : P.allows q a) :
    (perform a).Obeys P G (fun q' r => q' = P.next q a r ∧ G a r) q := ⟨h, fun _ hr => ⟨rfl, hr⟩⟩

/-- A program within `H`, if in the states of `S` the protocol allows what `H` does, and stays in
    such a state. -/
theorem Obeys.of_within {S : P.State → Prop} {Q : α → Prop} {H : A → Prop} {p : Prog A R α}
    (hp : p.Within G H Q) {q : P.State} (hq : S q) (hallows : ∀ q a, S q → H a → P.allows q a)
    (hnext : ∀ q a r, S q → H a → S (P.next q a r)) : p.Obeys P G (fun q x => S q ∧ Q x) q := by
  induction p generalizing q with
  | ret x => exact ⟨hq, hp⟩
  | act a k ih =>
    exact ⟨hallows q a hq hp.1, fun r hr => ih r (hp.2 r hr) (hnext q a r hq hp.1)⟩

end Prog

/-- The protocol with fewer actions allowed. -/
def Protocol.restrict (P : Protocol A R) (H : A → Prop) : Protocol A R where
  State := P.State
  allows q a := P.allows q a ∧ H a
  next := P.next

namespace Prog

theorem Obeys.of_restrict {H : A → Prop} {Q : P.State → α → Prop} {q : P.State} {p : Prog A R α}
    (hp : p.Obeys (P.restrict H) G Q q) : p.Obeys P G Q q := by
  induction p generalizing q with
  | ret x => exact hp
  | act a k ih => exact ⟨hp.1.1, fun r hr => ih r (hp.2 r hr)⟩

theorem Obeys.within {H : A → Prop} {Q : P.State → α → Prop} {q : P.State} {p : Prog A R α}
    (hp : p.Obeys (P.restrict H) G Q q) : p.Within G H fun _ => True := by
  induction p generalizing q with
  | ret x => trivial
  | act a k ih => exact ⟨hp.1.2, fun r hr => ih r (hp.2 r hr)⟩

end Prog

namespace Pool

/-- Every task of the pool obeys the protocol from its state on. -/
def Obeying (P : Protocol A R) (G : (a : A) → R a → Prop) (Q : P.State → α → Prop)
    (w : Pool A R α S) (q : Nat → P.State) : Prop :=
  ∀ i p, w.tasks i = some p → p.Obeys P G Q (q i)

/-- The states of the tasks in the protocol after a move; a new task begins in `q₀`. -/
def track (P : Protocol A R) (answer : E → (a : A) → S → R a × S) (w : Pool A R α S)
    (q : Nat → P.State) (q₀ : P.State) : Move A R α E → Nat → P.State
  | .spawn i _ =>
    match w.tasks i with
    | none => fun j => if j = i then q₀ else q j
    | some _ => q
  | .advance i e =>
    match w.tasks i with
    | some (.act a _) => fun j => if j = i then P.next (q i) a (answer e a w.state).1 else q j
    | _ => q

variable {Q : P.State → α → Prop} {answer : E → (a : A) → S → R a × S} {w : Pool A R α S}
  {q : Nat → P.State}

theorem track_spawn_of_none {i : Nat} (q₀ : P.State) (p : Prog A R α) (h : w.tasks i = none) :
    track P answer w q q₀ (.spawn i p) = fun j => if j = i then q₀ else q j := by
  show (match w.tasks i with | none => _ | some _ => _) = _
  rw [h]

theorem track_spawn_of_some {i : Nat} (q₀ : P.State) (p : Prog A R α) {t : Prog A R α}
    (h : w.tasks i = some t) : track P answer w q q₀ (.spawn i p) = q := by
  show (match w.tasks i with | none => _ | some _ => _) = _
  rw [h]

theorem track_advance_of_none {i : Nat} (q₀ : P.State) (e : E) (h : w.tasks i = none) :
    track P answer w q q₀ (.advance i e) = q := by
  show (match w.tasks i with | some (.act _ _) => _ | _ => _) = _
  rw [h]

theorem track_advance_ret {i : Nat} (q₀ : P.State) (e : E) {x : α}
    (h : w.tasks i = some (.ret x)) : track P answer w q q₀ (.advance i e) = q := by
  show (match w.tasks i with | some (.act _ _) => _ | _ => _) = _
  rw [h]

theorem track_advance_act {i : Nat} (q₀ : P.State) (e : E) {a : A} {k : R a → Prog A R α}
    (h : w.tasks i = some (.act a k)) :
    track P answer w q q₀ (.advance i e) =
      fun j => if j = i then P.next (q i) a (answer e a w.state).1 else q j := by
  show (match w.tasks i with | some (.act _ _) => _ | _ => _) = _
  rw [h]

/-- Along a move whose answer satisfies `G`, the tasks go on obeying. -/
theorem Obeying.step (h : Obeying P G Q w q) (answer : E → (a : A) → S → R a × S)
    (q₀ : P.State) (m : Move A R α E)
    (hspawn : ∀ i p, m = .spawn i p → p.Obeys P G Q q₀)
    (hans : ∀ i e a k, m = .advance i e → w.tasks i = some (.act a k) →
      G a (answer e a w.state).1) :
    Obeying P G Q (step answer w m) (track P answer w q q₀ m) := by
  cases moveCase w m with
  | taken hi =>
    rw [step_spawn_of_some _ hi, track_spawn_of_some _ _ hi]
    exact h
  | gone hi =>
    rw [step_advance_of_none _ hi, track_advance_of_none _ _ hi]
    exact h
  | @spawn i p hi =>
    rw [step_spawn_of_none _ hi, track_spawn_of_none _ _ hi]
    intro j p' hp
    dsimp only at hp ⊢
    by_cases hj : j = i
    · rw [if_pos hj] at hp ⊢
      cases hp
      exact hspawn i p rfl
    · rw [if_neg hj] at hp ⊢
      exact h j p' hp
  | @ret i e x hi =>
    rw [step_advance_ret _ hi, track_advance_ret _ _ hi]
    intro j p' hp
    dsimp only at hp
    by_cases hj : j = i
    · rw [if_pos hj] at hp
      cases hp
    · rw [if_neg hj] at hp
      exact h j p' hp
  | @act i e a k hi =>
    rw [step_advance_act _ hi, track_advance_act _ _ hi]
    intro j p' hp
    dsimp only at hp ⊢
    by_cases hj : j = i
    · rw [if_pos hj] at hp ⊢
      cases hp
      exact (h i _ hi).2 _ (hans i e a k rfl hi)
    · rw [if_neg hj] at hp ⊢
      exact h j p' hp

/-- The tasks obey from their states on, and a number that is not used is at rest. -/
structure Tracked (P : Protocol A R) (G : (a : A) → R a → Prop) (Q : P.State → α → Prop)
    (AtRest : P.State → Prop) (w : Pool A R α S) (q : Nat → P.State) : Prop where
  obeying : Obeying P G Q w q
  gone : ∀ i, w.tasks i = none → AtRest (q i)

/-- Along a move whose answer satisfies `G`, if tasks only return at rest. -/
theorem Tracked.step {AtRest : P.State → Prop} (h : Tracked P G Q AtRest w q)
    (hret : ∀ q x, Q q x → AtRest q) (answer : E → (a : A) → S → R a × S) (q₀ : P.State)
    (m : Move A R α E) (hspawn : ∀ i p, m = .spawn i p → p.Obeys P G Q q₀)
    (hans : ∀ i e a k, m = .advance i e → w.tasks i = some (.act a k) →
      G a (answer e a w.state).1) :
    Tracked P G Q AtRest (step answer w m) (track P answer w q q₀ m) := by
  refine ⟨h.obeying.step answer q₀ m hspawn hans, fun j hj => ?_⟩
  cases moveCase w m with
  | taken hi =>
    rw [step_spawn_of_some _ hi] at hj
    rw [track_spawn_of_some _ _ hi]
    exact h.gone j hj
  | gone hi =>
    rw [step_advance_of_none _ hi] at hj
    rw [track_advance_of_none _ _ hi]
    exact h.gone j hj
  | @spawn i p hi =>
    rw [step_spawn_of_none _ hi] at hj
    rw [track_spawn_of_none _ _ hi]
    dsimp only at hj ⊢
    by_cases hji : j = i
    · rw [if_pos hji] at hj
      cases hj
    · rw [if_neg hji] at hj ⊢
      exact h.gone j hj
  | @ret i e x hi =>
    rw [step_advance_ret _ hi] at hj
    rw [track_advance_ret _ _ hi]
    dsimp only at hj
    by_cases hji : j = i
    · rw [hji]
      exact hret _ x (h.obeying i _ hi)
    · rw [if_neg hji] at hj
      exact h.gone j hj
  | @act i e a k hi =>
    rw [step_advance_act _ hi] at hj
    rw [track_advance_act _ _ hi]
    dsimp only at hj ⊢
    by_cases hji : j = i
    · rw [if_pos hji] at hj
      cases hj
    · rw [if_neg hji] at hj ⊢
      exact h.gone j hj

end Pool

end

end Mik.Lib
