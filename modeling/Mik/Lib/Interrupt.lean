/-
  Programs that may be stopped after any action.

  `Outside` says which answers an action may get and what an answered action changes. A `Partial`
  execution follows the program for some actions and then ends, because the program has, or was
  stopped. `Safe` is an invariant of the program in the style of a postcondition: it holds after
  every action, whatever is answered, and `Safe.of_partial` turns this into the invariant at every
  point where an execution can end, `Safe.of_finishes` into the postcondition where it returns.
  `Within.of_partial` does it for the actions themselves.
-/
import Mik.Lib.Prog

namespace Mik.Lib.Prog

section

variable {A : Type} {R : A → Type} {α β ε : Type}

/-- The rest of a program that may have failed: an error ends it. -/
def andThen (p : Prog A R (Except ε α)) (f : α → Prog A R (Except ε β)) :
    Prog A R (Except ε β) :=
  p >>= fun result =>
    match result with
    | .ok x => f x
    | .error e => pure (.error e)

/-- The program with another error. -/
def context (p : Prog A R (Except ε α)) (error : ε) : Prog A R (Except ε α) :=
  p >>= fun result => pure (result.mapError fun _ => error)

end

structure Outside (A : Type) (R : A → Type) (S : Type) where
  may : S → (a : A) → R a → Prop
  effect : S → (a : A) → R a → S

section

variable {A S α β : Type} {R : A → Type} (w : Outside A R S)

/-- The state after some answered actions. -/
def after (s : S) (tr : List (Event A R)) : S := tr.foldl (fun s ev => w.effect s ev.1 ev.2) s

/-- The answered actions of a run of the program up to some point. -/
inductive Partial : Prog A R α → S → List (Event A R) → Prop where
  | stopped (p : Prog A R α) (s : S) : Partial p s []
  | act {a : A} {k : R a → Prog A R α} {s : S} {r : R a} {tr : List (Event A R)} :
      w.may s a r → Partial (k r) (w.effect s a r) tr → Partial (act a k) s (⟨a, r⟩ :: tr)

/-- A run of the program to its end: what it returns, and the state that it leaves. -/
inductive Finishes : Prog A R α → S → α → S → Prop where
  | ret (x : α) (s : S) : Finishes (ret x) s x s
  | act {a : A} {k : R a → Prog A R α} {s s' : S} {r : R a} {x : α} :
      w.may s a r → Finishes (k r) (w.effect s a r) x s' → Finishes (act a k) s x s'

/-- After every action of the program the state satisfies `Inv`, and `Post` when it returns. -/
def Safe (Inv : S → Prop) (Post : α → S → Prop) : Prog A R α → S → Prop
  | ret x, s => Post x s
  | act a k, s => ∀ r, w.may s a r →
      Inv (w.effect s a r) ∧ Safe Inv Post (k r) (w.effect s a r)

variable {w} {Inv : S → Prop} {Post Post' : α → S → Prop}

theorem Safe.mono {p : Prog A R α} {s : S} (hp : p.Safe w Inv Post s)
    (h : ∀ x s, Post x s → Post' x s) : p.Safe w Inv Post' s := by
  induction p generalizing s with
  | ret x => exact h x s hp
  | act a k ih =>
    intro r hr
    exact ⟨(hp r hr).1, ih r (hp r hr).2⟩

theorem Safe.bind {Mid : β → S → Prop} {p : Prog A R β} {f : β → Prog A R α} {s : S}
    (hp : p.Safe w Inv Mid s) (hf : ∀ x s, Mid x s → (f x).Safe w Inv Post s) :
    (p >>= f).Safe w Inv Post s := by
  induction p generalizing s with
  | ret x => exact hf x s hp
  | act a k ih =>
    intro r hr
    exact ⟨(hp r hr).1, ih r (hp r hr).2⟩

theorem Finishes.bind {p : Prog A R β} {f : β → Prog A R α} {s s' s'' : S} {x : β} {y : α}
    (hp : Finishes w p s x s') (hf : Finishes w (f x) s' y s'') :
    Finishes w (p >>= f) s y s'' := by
  induction hp with
  | ret x s => exact hf
  | act hmay _ ih => exact .act hmay (ih hf)

theorem Finishes.andThen {ε : Type} {p : Prog A R (Except ε β)} {f : β → Prog A R (Except ε α)}
    {s s' s'' : S} {x : β} {y : Except ε α} (hp : Finishes w p s (.ok x) s')
    (hf : Finishes w (f x) s' y s'') : Finishes w (p.andThen f) s y s'' :=
  hp.bind hf

theorem Finishes.context {ε : Type} {p : Prog A R (Except ε α)} {s s' : S} {x : α}
    (hp : Finishes w p s (.ok x) s') (error : ε) : Finishes w (p.context error) s (.ok x) s' :=
  hp.bind (.ret _ _)

/-- The postcondition of a program that may fail: `Q` in any case, and `P` of what it returns. -/
def Ends {ε : Type} (Q : S → Prop) (P : α → S → Prop) (r : Except ε α) (s : S) : Prop :=
  Q s ∧ ∀ x, r = .ok x → P x s

theorem Safe.andThen {ε : Type} {Mid : β → S → Prop} {P : α → S → Prop}
    {p : Prog A R (Except ε β)} {f : β → Prog A R (Except ε α)} {s : S}
    (hp : p.Safe w Inv (Ends Inv Mid) s)
    (hf : ∀ x s, Mid x s → (f x).Safe w Inv (Ends Inv P) s) :
    (p.andThen f).Safe w Inv (Ends Inv P) s := by
  refine hp.bind fun r s h => ?_
  cases r with
  | error e => exact ⟨h.1, nofun⟩
  | ok x => exact hf x s (h.2 x rfl)

theorem Safe.context {ε : Type} {P : α → S → Prop} {p : Prog A R (Except ε α)} {s : S}
    (hp : p.Safe w Inv (Ends Inv P) s) (error : ε) :
    (p.context error).Safe w Inv (Ends Inv P) s := by
  refine hp.bind fun r s h => ?_
  cases r with
  | error e => exact ⟨h.1, nofun⟩
  | ok x => exact ⟨h.1, fun y hy => h.2 y (congrArg Except.ok (Except.ok.inj hy))⟩

/-- The invariant holds wherever an execution of a safe program ends. -/
theorem Safe.of_partial {p : Prog A R α} {s : S} {tr : List (Event A R)} (hs : Inv s)
    (hp : p.Safe w Inv Post s) (h : Partial w p s tr) : Inv (after w s tr) := by
  induction h with
  | stopped p s => exact hs
  | act hmay _ ih =>
    obtain ⟨hinv, hrest⟩ := hp _ hmay
    exact ih hinv hrest

/-- The postcondition holds where an execution of a safe program returns. -/
theorem Safe.of_finishes {p : Prog A R α} {s s' : S} {x : α} (hp : p.Safe w Inv Post s)
    (h : Finishes w p s x s') : Post x s' := by
  induction h with
  | ret x s => exact hp
  | act hmay _ ih => exact ih (hp _ hmay).2

/-! ## Bounding the actions -/

/-- The postcondition of a program that may fail and is only about what it returns. -/
def IfOk {ε : Type} (Q : α → Prop) (r : Except ε α) : Prop := ∀ x, r = .ok x → Q x

variable {G : (a : A) → R a → Prop} {P : A → Prop}

theorem Within.andThen {ε : Type} {Q : β → Prop} {Q' : α → Prop} {p : Prog A R (Except ε β)}
    {f : β → Prog A R (Except ε α)} (hp : p.Within G P (IfOk Q))
    (hf : ∀ x, Q x → (f x).Within G P (IfOk Q')) : (p.andThen f).Within G P (IfOk Q') := by
  refine hp.bind fun r h => ?_
  cases r with
  | error e => exact nofun
  | ok x => exact hf x (h x rfl)

theorem Within.context {ε : Type} {Q : α → Prop} {p : Prog A R (Except ε α)}
    (hp : p.Within G P (IfOk Q)) (error : ε) : (p.context error).Within G P (IfOk Q) := by
  refine hp.bind fun r h => ?_
  cases r with
  | error e => exact nofun
  | ok x => exact fun y hy => h y (congrArg Except.ok (Except.ok.inj hy))

/-- The actions of an execution that may end anywhere are bounded in the same way. -/
theorem Within.of_partial {Q : α → Prop} {p : Prog A R α} {s : S} {tr : List (Event A R)}
    (hG : ∀ s a r, w.may s a r → G a r) (hp : p.Within G P Q) (h : Partial w p s tr) :
    ∀ ev ∈ tr, P ev.1 := by
  induction h with
  | stopped p s => exact nofun
  | act hmay _ ih =>
    intro ev hev
    rcases List.mem_cons.mp hev with rfl | hev
    · exact hp.1
    · exact ih (hp.2 _ (hG _ _ _ hmay)) ev hev

end

end Mik.Lib.Prog
