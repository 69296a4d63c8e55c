/-
  Rules of pre- and postconditions for programs of atomic actions that run alone.

  `Meets answer Ok p s` says that each action `p` performs, run alone from `s`, meets `Ok` in the
  state it is performed in; it is how a condition on the steps inside a call is written. `Triple`
  is the Hoare triple under such a condition, with a rule for each way to build a program;
  `Outline` is one that speaks of the states on the way as well.
-/
import Mik.Lib.Prog

namespace Mik.Lib.Prog

section

variable {A S E α β : Type} {R : A → Type}

/-! ## The outside world as a stream -/

/-- Answers from the outside world one by one, as a program that runs alone meets them. -/
def alone (answer : E → (a : A) → S → R a × S) (a : A) (w : (Nat → E) × S) :
    R a × ((Nat → E) × S) :=
  ((answer (w.1 0) a w.2).1, fun n => w.1 (n + 1), (answer (w.1 0) a w.2).2)

/-! ## Conditions on the actions of a run -/

/-- Each action of the program, run alone from `s`, meets `Ok` where it is performed. -/
def Meets (answer : (a : A) → S → R a × S) (Ok : A → S → Prop) : Prog A R α → S → Prop
  | ret _, _ => True
  | act a k, s => Ok a s ∧ Meets answer Ok (k (answer a s).1) (answer a s).2

variable {answer : (a : A) → S → R a × S} {Ok Ok' : A → S → Prop}

theorem meets_act {a : A} {k : R a → Prog A R α} {s : S} :
    Meets answer Ok (act a k) s ↔
      Ok a s ∧ Meets answer Ok (k (answer a s).1) (answer a s).2 := Iff.rfl

theorem meets_bind {p : Prog A R α} {f : α → Prog A R β} {s : S} :
    Meets answer Ok (p >>= f) s ↔
      Meets answer Ok p s ∧ Meets answer Ok (f (runOn answer p s).1) (runOn answer p s).2 := by
  induction p generalizing s with
  | ret x => exact ⟨fun h => ⟨trivial, h⟩, fun h => h.2⟩
  | act a k ih =>
    rw [act_bind, meets_act, meets_act, ih, runOn_act, and_assoc]

theorem Meets.mono (h : ∀ a s, Ok a s → Ok' a s) {p : Prog A R α} {s : S}
    (hp : Meets answer Ok p s) : Meets answer Ok' p s := by
  induction p generalizing s with
  | ret x => trivial
  | act a k ih => exact ⟨h a s hp.1, ih _ hp.2⟩

instance instDecidableMeets [∀ a s, Decidable (Ok a s)] :
    (p : Prog A R α) → (s : S) → Decidable (Meets answer Ok p s)
  | ret _, _ => isTrue trivial
  | act a k, s => @instDecidableAnd _ _ _ (instDecidableMeets (k (answer a s).1) (answer a s).2)

/-- What every action keeps, a program keeps. -/
theorem runOn_keeps {Inv : S → Prop} (hinv : ∀ a s, Inv s → Inv (answer a s).2) (p : Prog A R α)
    {s : S} (h0 : Inv s) : Inv (runOn answer p s).2 := by
  induction p generalizing s with
  | ret x => exact h0
  | act a k ih => exact ih _ (hinv a s h0)

/-- The exact condition of a property: if from a good state an action that meets `Ok` leads to a
    good state and any other to a bad one, and bad states stay bad, then the state after a program
    is good exactly when all its actions meet `Ok`. -/
theorem meets_iff_good (Inv Good Bad : S → Prop) (hinv : ∀ a s, Inv s → Inv (answer a s).2)
    (hgood : ∀ a s, Inv s → Good s → Ok a s → Good (answer a s).2)
    (hbad : ∀ a s, Inv s → Good s → ¬ Ok a s → Bad (answer a s).2)
    (hstays : ∀ a s, Inv s → Bad s → Bad (answer a s).2) (hdisjoint : ∀ s, Bad s → ¬ Good s)
    (p : Prog A R α) {s : S} (h0 : Inv s) (hg : Good s) :
    Good (runOn answer p s).2 ↔ Meets answer Ok p s := by
  have hlost : ∀ (p : Prog A R α) {s : S}, Inv s → Bad s → Bad (runOn answer p s).2 := by
    intro p s h0 h
    have hkeeps : ∀ a s, Inv s ∧ Bad s → Inv (answer a s).2 ∧ Bad (answer a s).2 :=
      fun a s hs => ⟨hinv a s hs.1, hstays a s hs.1 hs.2⟩
    exact (runOn_keeps hkeeps p ⟨h0, h⟩).2
  induction p generalizing s with
  | ret x => exact ⟨fun _ => trivial, fun _ => hg⟩
  | act a k ih =>
    rw [runOn_act, meets_act]
    constructor
    · intro h
      by_cases hok : Ok a s
      · exact ⟨hok, (ih _ (hinv a s h0) (hgood a s h0 hg hok)).mp h⟩
      · exact absurd h (hdisjoint _ (hlost _ (hinv a s h0) (hbad a s h0 hg hok)))
    · rintro ⟨hok, hrest⟩
      exact (ih _ (hinv a s h0) (hgood a s h0 hg hok)).mpr hrest

/-- The actions of a program alone are within what the program is within. -/
theorem Within.of_traceOn {P : A → Prop} {Q : α → Prop} {p : Prog A R α}
    (hp : p.Within (fun _ _ => True) P Q) {s : S} : ∀ ev ∈ traceOn answer p s, P ev.1 :=
  hp.of_exec (exec_traceOn answer p s)

/-- An invariant that gives the answers of `G`, and that the actions of `P` keep. -/
theorem Within.runOn_keeps {G : (a : A) → R a → Prop} {P : A → Prop} {Q : α → Prop}
    {p : Prog A R α} (hp : p.Within G P Q) (Inv : S → Prop)
    (hinv : ∀ a s, P a → Inv s → G a (answer a s).1 ∧ Inv (answer a s).2) {s : S} (h0 : Inv s) :
    Inv (runOn answer p s).2 := by
  induction p generalizing s with
  | ret x => exact h0
  | act a k ih =>
    obtain ⟨hreply, hnext⟩ := hinv a s hp.1 h0
    exact ih _ (hp.2 _ hreply) hnext

/-- What all its actions meet everywhere, a program meets. -/
theorem Within.meets {P : A → Prop} {Q : α → Prop} {p : Prog A R α}
    (hp : p.Within (fun _ _ => True) P Q) (h : ∀ a s, P a → Ok a s) (s : S) :
    Meets answer Ok p s := by
  induction p generalizing s with
  | ret x => trivial
  | act a k ih => exact ⟨h a s hp.1, ih _ (hp.2 _ trivial) _⟩

/-! ## Exact conditions -/

/-- What `Good` says of the result, the trace and the last state of a run from `s`, where `tr` went
    before, holds exactly when the actions of the run meet `Ok`. -/
def Exact (answer : (a : A) → S → R a × S) (Ok : A → S → Prop)
    (Good : α → List (Event A R) → S → Prop) (p : Prog A R α) (tr : List (Event A R)) (s : S) :
    Prop :=
  Good (runOn answer p s).1 (tr ++ traceOn answer p s) (runOn answer p s).2 ↔ Meets answer Ok p s

namespace Exact

variable {Good : α → List (Event A R) → S → Prop} {tr : List (Event A R)} {s : S}

theorem ret {x : α} (h : Good x tr s) : Exact answer Ok Good (ret x) tr s := by
  refine iff_of_true ?_ trivial
  rw [traceOn, List.append_nil]
  exact h

/-- What comes first meets the condition; the rest decides. -/
theorem bind {p : Prog A R β} {f : β → Prog A R α} (hp : Meets answer Ok p s)
    (hf : Exact answer Ok Good (f (runOn answer p s).1) (tr ++ traceOn answer p s)
      (runOn answer p s).2) :
    Exact answer Ok Good (p >>= f) tr s := by
  unfold Exact at hf ⊢
  rw [runOn_bind, traceOn_bind, meets_bind, ← List.append_assoc, hf]
  exact (and_iff_right hp).symm

theorem act {a : A} {k : R a → Prog A R α} (ha : Ok a s)
    (hk : Exact answer Ok Good (k (answer a s).1) (tr ++ [⟨a, (answer a s).1⟩]) (answer a s).2) :
    Exact answer Ok Good (act a k) tr s :=
  @bind A S _ _ R answer Ok Good tr s (perform a) k ⟨ha, trivial⟩ hk

/-- After its last action, the action decides. -/
theorem last {a : A} {k : R a → Prog A R α} {x : α} (hk : k (answer a s).1 = Prog.ret x)
    (h : Good x (tr ++ [⟨a, (answer a s).1⟩]) (answer a s).2 ↔ Ok a s) :
    Exact answer Ok Good (Prog.act a k) tr s := by
  unfold Exact
  rw [runOn_act, traceOn, meets_act, hk]
  exact h.trans (and_iff_left trivial).symm

end Exact

/-! ## What a program leaves alone -/

/-- Run alone, the program does not change `g`. -/
def Leaves {γ : Type} (answer : (a : A) → S → R a × S) (g : S → γ) (p : Prog A R α) : Prop :=
  ∀ s, g (runOn answer p s).2 = g s

namespace Leaves

variable {γ : Type} {g : S → γ} {p : Prog A R α}

theorem ret (x : α) : Leaves answer g (ret x : Prog A R α) := fun _ => rfl

theorem act {a : A} {k : R a → Prog A R α} (ha : ∀ s, g (answer a s).2 = g s)
    (hk : ∀ r, Leaves answer g (k r)) : Leaves answer g (act a k) :=
  fun s => (hk _ _).trans (ha s)

theorem bind {f : α → Prog A R β} (hp : Leaves answer g p) (hf : ∀ x, Leaves answer g (f x)) :
    Leaves answer g (p >>= f) := by
  intro s
  rw [runOn_bind]
  exact (hf _ _).trans (hp s)

/-- What all its actions leave alone, a program leaves alone. -/
theorem of_within {P : A → Prop} {Q : α → Prop} (hp : p.Within (fun _ _ => True) P Q)
    (hleave : ∀ a s, P a → g (answer a s).2 = g s) : Leaves answer g p := by
  induction p with
  | ret x => exact ret x
  | act a k ih => exact act (fun s => hleave a s hp.1) fun r => ih r (hp.2 r trivial)

end Leaves

/-! ## Triples -/

/-- From a state with `Pre`, a run of `p` whose actions meet `Ok` ends with `Post`. -/
def Triple (answer : (a : A) → S → R a × S) (Ok : A → S → Prop) (Pre : S → Prop)
    (p : Prog A R α) (Post : α → S → Prop) : Prop :=
  ∀ s, Pre s → Meets answer Ok p s → Post (runOn answer p s).1 (runOn answer p s).2

namespace Triple

variable {Pre : S → Prop} {Post : α → S → Prop} {Post₂ : β → S → Prop}
  {p : Prog A R α}

theorem ret {x : α} (h : ∀ s, Pre s → Post x s) : Triple answer Ok Pre (ret x) Post :=
  fun s hs _ => h s hs

theorem bind {Mid : α → S → Prop} {f : α → Prog A R β} (hp : Triple answer Ok Pre p Mid)
    (hf : ∀ x, Triple answer Ok (Mid x) (f x) Post₂) : Triple answer Ok Pre (p >>= f) Post₂ := by
  intro s hs hmeets
  obtain ⟨hfirst, hrest⟩ := meets_bind.mp hmeets
  rw [runOn_bind]
  exact hf _ _ (hp s hs hfirst) hrest

/-- What an action does, then the rest. -/
theorem act {a : A} {k : R a → Prog A R α} {Mid : R a → S → Prop}
    (ha : ∀ s, Pre s → Ok a s → Mid (answer a s).1 (answer a s).2)
    (hk : ∀ r, Triple answer Ok (Mid r) (k r) Post) : Triple answer Ok Pre (act a k) Post :=
  fun s hs hmeets => hk _ _ (ha s hs hmeets.1) hmeets.2

/-- Under a stronger condition on the actions. -/
theorem restrict (hp : Triple answer Ok Pre p Post) (h : ∀ a s, Ok' a s → Ok a s) :
    Triple answer Ok' Pre p Post := fun s hs hmeets => hp s hs (hmeets.mono h)

/-- What the actions of `P` keep as long as they meet the condition. -/
theorem of_within {P : A → Prop} {Q : α → Prop} {Inv : S → Prop}
    (hp : p.Within (fun _ _ => True) P Q)
    (hinv : ∀ a s, P a → Ok a s → Inv s → Inv (answer a s).2) :
    Triple answer Ok Inv p fun _ => Inv := by
  induction p with
  | ret x => exact ret fun _ hs => hs
  | act a k ih =>
    intro s hs hmeets
    exact ih _ (hp.2 _ trivial) _ (hinv a s hp.1 hmeets.1 hs) hmeets.2

theorem and {Pre' : S → Prop} {Post' : α → S → Prop} (hp : Triple answer Ok Pre p Post)
    (hp' : Triple answer Ok Pre' p Post') :
    Triple answer Ok (fun s => Pre s ∧ Pre' s) p fun x s => Post x s ∧ Post' x s :=
  fun s hs hmeets => ⟨hp s hs.1 hmeets, hp' s hs.2 hmeets⟩

end Triple

/-! ## Outlines -/

/-- A triple that holds of the states on the way too: from a state with `Pre`, each action of `p`
    is performed in a `Good` state, and `p` ends with `Post`. -/
def Outline (answer : (a : A) → S → R a × S) (Good : S → Prop) (Pre : S → Prop) (p : Prog A R α)
    (Post : α → S → Prop) : Prop :=
  ∀ s, Pre s → Meets answer (fun _ s => Good s) p s ∧ Post (runOn answer p s).1 (runOn answer p s).2

namespace Outline

variable {Good Pre : S → Prop} {Post : α → S → Prop} {Post₂ : β → S → Prop} {p : Prog A R α}

theorem ret {x : α} (h : ∀ s, Pre s → Post x s) : Outline answer Good Pre (ret x) Post :=
  fun s hs => ⟨trivial, h s hs⟩

/-- `Mid` is what holds after the action. -/
theorem act {a : A} {k : R a → Prog A R α} (Mid : R a → S → Prop) (hgood : ∀ s, Pre s → Good s)
    (ha : ∀ s, Pre s → Mid (answer a s).1 (answer a s).2)
    (hk : ∀ r, Outline answer Good (Mid r) (k r) Post) :
    Outline answer Good Pre (act a k) Post := by
  intro s hs
  obtain ⟨hmeets, hpost⟩ := hk _ _ (ha s hs)
  exact ⟨⟨hgood s hs, hmeets⟩, hpost⟩

theorem bind {Mid : α → S → Prop} {f : α → Prog A R β} (hp : Outline answer Good Pre p Mid)
    (hf : ∀ x, Outline answer Good (Mid x) (f x) Post₂) :
    Outline answer Good Pre (p >>= f) Post₂ := by
  intro s hs
  obtain ⟨hfirst, hmid⟩ := hp s hs
  obtain ⟨hrest, hpost⟩ := hf _ _ hmid
  rw [runOn_bind]
  exact ⟨meets_bind.mpr ⟨hfirst, hrest⟩, hpost⟩

/-- What the actions of `P` keep, if it makes a state good. -/
theorem of_within {P : A → Prop} {Q : α → Prop} {Inv : S → Prop}
    (hp : p.Within (fun _ _ => True) P Q) (hgood : ∀ s, Inv s → Good s)
    (hinv : ∀ a s, P a → Inv s → Inv (answer a s).2) :
    Outline answer Good Inv p fun x s => Q x ∧ Inv s := by
  induction p with
  | ret x => exact ret fun _ hs => ⟨hp, hs⟩
  | act a k ih =>
    exact act (fun _ => Inv) hgood (fun s hs => hinv a s hp.1 hs) fun r => ih r (hp.2 r trivial)

theorem consequence {Pre' : S → Prop} {Post' : α → S → Prop}
    (hp : Outline answer Good Pre p Post) (hpre : ∀ s, Pre' s → Pre s)
    (hpost : ∀ x s, Post x s → Post' x s) : Outline answer Good Pre' p Post' := by
  intro s hs
  obtain ⟨hmeets, hend⟩ := hp s (hpre s hs)
  exact ⟨hmeets, hpost _ _ hend⟩

theorem triple (hp : Outline answer Good Pre p Post) : Triple answer Ok Pre p Post :=
  fun s hs _ => (hp s hs).2

end Outline

end

end Mik.Lib.Prog
