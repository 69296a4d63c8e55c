/-
  Programs that run among others.

  `SafeAmong answer Ok Rely Post p s` is the weakest precondition of `p` under interference: between
  two actions of `p` the state may change as `Rely` says, every action of `p` is answered by a
  world that meets `Ok`, and however that goes, `p` returns with `Post`. It is the rely half of
  rely-guarantee reasoning; the guarantee of the other tasks is that each of their actions is a
  move of `Rely`. `Pool.attended_run` joins the two for every interleaving.

  `Prog.Agree answer Rel Agrees p q` says that two programs do the same on states that `Rel`
  relates. Tasks whose actions leave their state related to the other one are not seen:
  `Pool.run_without` leaves them out of an interleaving, and all others agree.
-/
import Mik.Lib.Prog

namespace Mik.Lib

section

variable {A E S α β : Type} {R : A → Type}

namespace Prog

def SafeAmong (answer : E → (a : A) → S → R a × S) (Ok : E → A → S → Prop) (Rely : S → S → Prop)
    (Post : α → S → Prop) : Prog A R α → S → Prop
  | ret x, s => ∀ s', Rely s s' → Post x s'
  | act a k, s => ∀ s', Rely s s' → ∀ e, Ok e a s' →
      SafeAmong answer Ok Rely Post (k (answer e a s').1) (answer e a s').2

variable {answer : E → (a : A) → S → R a × S} {Ok : E → A → S → Prop} {Rely : S → S → Prop}

namespace SafeAmong

variable {Post Post' : α → S → Prop} {Post₂ : β → S → Prop} {p : Prog A R α} {s s' : S}

/-- What the others may do does not hurt. -/
theorem rely (htrans : ∀ s t u, Rely s t → Rely t u → Rely s u)
    (h : SafeAmong answer Ok Rely Post p s) (hs : Rely s s') :
    SafeAmong answer Ok Rely Post p s' := by
  cases p with
  | ret x => exact fun t ht => h t (htrans _ _ _ hs ht)
  | act a k => exact fun t ht => h t (htrans _ _ _ hs ht)

theorem mono (h : SafeAmong answer Ok Rely Post p s) (hpost : ∀ x s, Post x s → Post' x s) :
    SafeAmong answer Ok Rely Post' p s := by
  induction p generalizing s with
  | ret x => exact fun t ht => hpost x t (h t ht)
  | act a k ih => exact fun t ht e he => ih _ (h t ht e he)

theorem bind (hrefl : ∀ s, Rely s s) {f : α → Prog A R β} (hp : SafeAmong answer Ok Rely Post p s)
    (hf : ∀ x s, Post x s → SafeAmong answer Ok Rely Post₂ (f x) s) :
    SafeAmong answer Ok Rely Post₂ (p >>= f) s := by
  induction p generalizing s with
  | ret x => exact hf x s (hp s (hrefl s))
  | act a k ih => exact fun t ht e he => ih _ (hp t ht e he)

/-- A postcondition that the others keep. -/
theorem ret_of {x : α} (hstable : ∀ s s', Post x s → Rely s s' → Post x s') (h : Post x s) :
    SafeAmong answer Ok Rely Post (ret x : Prog A R α) s := fun t ht => hstable s t h ht

end SafeAmong

/-! ## Programs that agree -/

/-- On states that `Rel` relates, the two programs perform the same actions, and they return what
    `Agrees` relates. -/
def Agree (answer : E → (a : A) → S → R a × S) (Rel : S → S → Prop) (Agrees : α → α → Prop) :
    Prog A R α → Prog A R α → Prop
  | ret x, q => ∃ y, q = ret y ∧ Agrees x y
  | act a k, q => ∃ k', q = act a k' ∧ ∀ e s s', Rel s s' →
      Rel (answer e a s).2 (answer e a s').2 ∧
        Agree answer Rel Agrees (k (answer e a s).1) (k' (answer e a s').1)

theorem Agree.bind {Rel : S → S → Prop} {Agrees : α → α → Prop} {Agrees' : β → β → Prop}
    {p q : Prog A R α} {f g : α → Prog A R β} (h : p.Agree answer Rel Agrees q)
    (hf : ∀ x y, Agrees x y → (f x).Agree answer Rel Agrees' (g y)) :
    (p >>= f).Agree answer Rel Agrees' (q >>= g) := by
  induction p generalizing q with
  | ret x =>
    obtain ⟨y, rfl, hxy⟩ := h
    exact hf x y hxy
  | act a k ih =>
    obtain ⟨k', rfl, hnext⟩ := h
    exact ⟨_, rfl, fun e s s' hs => ⟨(hnext e s s' hs).1, ih _ (hnext e s s' hs).2⟩⟩

end Prog

/-! ## A task of a pool -/

namespace Pool

open Prog

variable {answer : E → (a : A) → S → R a × S} {Ok : E → A → S → Prop} {Rely : S → S → Prop}
  {P : A → Prop} {Post : α → S → Prop} {i : Nat} {w : Pool A R α S}

/-- The task has returned. -/
def Ended (i : Nat) (w : Pool A R α S) : Prop := ∀ p, w.tasks i = some p → ∃ x, p = ret x

/-- What may happen around task `i`: tasks with other numbers, whose actions are in `P`, are
    started, and the actions of task `i` are answered as `Ok` says. -/
def Among (Ok : E → A → S → Prop) (P : A → Prop) (i : Nat) (w : Pool A R α S) :
    Move A R α E → Prop
  | .spawn j p => j ≠ i ∧ p.Within (fun _ _ => True) P fun _ => True
  | .advance j e => j = i → ∀ a k, w.tasks i = some (.act a k) → Ok e a w.state

/-- Task `i` is safe, and the actions of the others are in `P`. -/
structure Attended (answer : E → (a : A) → S → R a × S) (Ok : E → A → S → Prop)
    (Rely : S → S → Prop) (P : A → Prop) (Post : α → S → Prop) (i : Nat) (w : Pool A R α S) :
    Prop where
  safe : ∀ p, w.tasks i = some p → p.SafeAmong answer Ok Rely Post w.state
  gone : w.tasks i = none → ∃ x, (ret x : Prog A R α).SafeAmong answer Ok Rely Post w.state
  others : ∀ j p, j ≠ i → w.tasks j = some p → p.Within (fun _ _ => True) P fun _ => True

/-- A move of another task. -/
theorem Attended.other (h : Attended answer Ok Rely P Post i w)
    (htrans : ∀ s t u, Rely s t → Rely t u → Rely s u) {w' : Pool A R α S}
    (hself : w'.tasks i = w.tasks i) (hstate : Rely w.state w'.state)
    (hothers : ∀ j p, j ≠ i → w'.tasks j = some p → p.Within (fun _ _ => True) P fun _ => True) :
    Attended answer Ok Rely P Post i w' where
  safe p hp := (h.safe p (hself ▸ hp)).rely htrans hstate
  gone hnone := by
    obtain ⟨x, hx⟩ := h.gone (hself ▸ hnone)
    exact ⟨x, hx.rely htrans hstate⟩
  others := hothers

theorem attended_step (hrefl : ∀ s, Rely s s) (htrans : ∀ s t u, Rely s t → Rely t u → Rely s u)
    (hrely : ∀ e a s, P a → Rely s (answer e a s).2) (h : Attended answer Ok Rely P Post i w)
    (m : Move A R α E) (hm : Among Ok P i w m) :
    Attended answer Ok Rely P Post i (step answer w m) := by
  cases moveCase w m with
  | taken ht =>
    rw [step_spawn_of_some _ ht]
    exact h
  | @spawn j p hnone =>
    rw [step_spawn_of_none _ hnone]
    refine h.other htrans (if_neg hm.1.symm) (hrefl _) fun l q hl hq => ?_
    dsimp only at hq
    split at hq
    · cases hq
      exact hm.2
    · exact h.others l q hl hq
  | gone hnone =>
    rw [step_advance_of_none _ hnone]
    exact h
  | @ret j e x hret =>
    rw [step_advance_ret _ hret]
    by_cases hj : i = j
    · subst hj
      refine ⟨fun p hp => ?_, fun _ => ⟨x, h.safe _ hret⟩, fun l q hl hq => ?_⟩
      · have heq := (if_pos rfl).symm.trans hp
        cases heq
      · exact h.others l q hl ((if_neg hl).symm.trans hq)
    · refine h.other htrans (if_neg hj) (hrefl _) fun l q hl hq => ?_
      dsimp only at hq
      split at hq
      · cases hq
      · exact h.others l q hl hq
  | @act j e a k hact =>
    rw [step_advance_act _ hact]
    by_cases hj : i = j
    · subst hj
      refine ⟨fun p hp => ?_, fun hnone => ?_, fun l q hl hq => ?_⟩
      · have heq := (if_pos rfl).symm.trans hp
        cases heq
        exact h.safe _ hact _ (hrefl _) e (hm rfl a k hact)
      · have heq := (if_pos rfl).symm.trans hnone
        cases heq
      · exact h.others l q hl ((if_neg hl).symm.trans hq)
    · obtain ⟨ha, hk⟩ := h.others j _ (Ne.symm hj) hact
      refine h.other htrans (if_neg hj) (hrely e a w.state ha) fun l q hl hq => ?_
      dsimp only at hq
      split at hq
      · cases hq
        exact hk _ trivial
      · exact h.others l q hl hq

/-- Task `i` alone in the pool. -/
def single (i : Nat) (p : Prog A R α) (s : S) : Pool A R α S :=
  ⟨fun j => if j = i then some p else none, s⟩

/-- In every interleaving, once it has returned, the postcondition of a safe task holds. -/
theorem attended_run (hrefl : ∀ s, Rely s s) (htrans : ∀ s t u, Rely s t → Rely t u → Rely s u)
    (hrely : ∀ e a s, P a → Rely s (answer e a s).2) {p : Prog A R α} {s : S}
    (hp : p.SafeAmong answer Ok Rely Post s) {ms : List (Move A R α E)}
    (hms : Along (step answer) (Among Ok P i) (single i p s) ms)
    (hended : Ended i (run (step answer) (single i p s) ms)) :
    ∃ x, Post x (run (step answer) (single i p s) ms).state := by
  have h0 : Attended answer Ok Rely P Post i (single i p s) := by
    refine ⟨fun q hq => ?_, fun hnone => ?_, fun j q hj hq => ?_⟩
    · have heq := (if_pos rfl).symm.trans hq
      cases heq
      exact hp
    · have heq := (if_pos rfl).symm.trans hnone
      cases heq
    · have heq := (if_neg hj).symm.trans hq
      cases heq
  have hlast : Attended answer Ok Rely P Post i (run (step answer) (single i p s) ms) :=
    Mik.Lib.run_invariant h0 (fun _ m hw hm => attended_step hrefl htrans hrely hw m hm) hms
  cases htask : (run (step answer) (single i p s) ms).tasks i with
  | none =>
    obtain ⟨x, hx⟩ := hlast.gone htask
    exact ⟨x, hx _ (hrefl _)⟩
  | some q =>
    obtain ⟨x, rfl⟩ := hended q htask
    exact ⟨x, hlast.safe _ htask _ (hrefl _)⟩

/-! ## Tasks that are not seen -/

variable {Rel : S → S → Prop} {Agrees : α → α → Prop} {T : Nat → Prop} {w' : Pool A R α S}

/-- The number that a move is about. -/
def Move.index : Move A R α E → Nat
  | .spawn i _ => i
  | .advance i _ => i

/-- The action leaves its state related to the other one. -/
def Unseen (answer : E → (a : A) → S → R a × S) (Rel : S → S → Prop) (a : A) : Prop :=
  ∀ e s s', Rel s s' → Rel (answer e a s).2 s'

/-- Tasks that start under a number of `T` are not seen, and the others agree with themselves. -/
def Starts (answer : E → (a : A) → S → R a × S) (Rel : S → S → Prop) (Agrees : α → α → Prop)
    (T : Nat → Prop) : Move A R α E → Prop
  | .spawn i p => (T i → p.Within (fun _ _ => True) (Unseen answer Rel) fun _ => True) ∧
      (¬ T i → p.Agree answer Rel Agrees p)
  | .advance _ _ => True

/-- The states are related, the tasks that `T` numbers are not seen in the first pool, and the
    others agree. -/
structure AgreeBut (answer : E → (a : A) → S → R a × S) (Rel : S → S → Prop)
    (Agrees : α → α → Prop) (T : Nat → Prop) (w w' : Pool A R α S) : Prop where
  state : Rel w.state w'.state
  tasks : ∀ i, ¬ T i → Option.Rel (Prog.Agree answer Rel Agrees) (w.tasks i) (w'.tasks i)
  unseen : ∀ i, T i → ∀ p, w.tasks i = some p →
    p.Within (fun _ _ => True) (Unseen answer Rel) fun _ => True

/-- A move leaves the other tasks alone. -/
theorem tasks_step_of_ne {m : Move A R α E} {j : Nat} (h : j ≠ m.index) :
    (step answer w m).tasks j = w.tasks j := by
  cases moveCase w m with
  | taken ht => rw [step_spawn_of_some _ ht]
  | spawn hnone =>
    rw [step_spawn_of_none _ hnone]
    exact if_neg h
  | gone hnone => rw [step_advance_of_none _ hnone]
  | ret hret =>
    rw [step_advance_ret _ hret]
    exact if_neg h
  | act hact =>
    rw [step_advance_act _ hact]
    exact if_neg h

/-- A move under a number of `T` is not seen. -/
theorem AgreeBut.own (h : AgreeBut answer Rel Agrees T w w') {m : Move A R α E}
    (hm : Starts answer Rel Agrees T m) (hindex : T m.index) :
    AgreeBut answer Rel Agrees T (Pool.step answer w m) w' := by
  have hself : Rel (Pool.step answer w m).state w'.state ∧
      ∀ p, (Pool.step answer w m).tasks m.index = some p →
        p.Within (fun _ _ => True) (Unseen answer Rel) fun _ => True := by
    cases moveCase w m with
    | taken ht =>
      rw [step_spawn_of_some _ ht]
      exact ⟨h.state, h.unseen _ hindex⟩
    | spawn hnone =>
      rw [step_spawn_of_none _ hnone]
      refine ⟨h.state, fun q hq => ?_⟩
      have heq := (if_pos rfl).symm.trans hq
      cases heq
      exact hm.1 hindex
    | gone hnone =>
      rw [step_advance_of_none _ hnone]
      exact ⟨h.state, h.unseen _ hindex⟩
    | ret hret =>
      rw [step_advance_ret _ hret]
      refine ⟨h.state, fun q hq => ?_⟩
      have heq := (if_pos rfl).symm.trans hq
      cases heq
    | act hact =>
      obtain ⟨ha, hk⟩ := h.unseen _ hindex _ hact
      rw [step_advance_act _ hact]
      refine ⟨ha _ _ _ h.state, fun q hq => ?_⟩
      have heq := (if_pos rfl).symm.trans hq
      cases heq
      exact hk _ trivial
  refine ⟨hself.1, fun i hi => ?_, fun i hi p hp => ?_⟩
  · have hne : i ≠ m.index := fun heq => hi (heq ▸ hindex)
    rw [tasks_step_of_ne hne]
    exact h.tasks i hi
  · by_cases heq : i = m.index
    · subst heq
      exact hself.2 p hp
    · rw [tasks_step_of_ne heq] at hp
      exact h.unseen i hi p hp

/-- Tasks that agree have both been taken away, or both returned, or are both at the same action. -/
theorem agree_cases {t t' : Option (Prog A R α)}
    (h : Option.Rel (Prog.Agree answer Rel Agrees) t t') :
    (t = none ∧ t' = none) ∨ (∃ x y, t = some (ret x) ∧ t' = some (ret y)) ∨
      ∃ a k k', t = some (act a k) ∧ t' = some (act a k') ∧ ∀ e s s', Rel s s' →
        Rel (answer e a s).2 (answer e a s').2 ∧
          Prog.Agree answer Rel Agrees (k (answer e a s).1) (k' (answer e a s').1) := by
  cases h with
  | none => exact .inl ⟨rfl, rfl⟩
  | @some p q hagree =>
    cases p with
    | ret x =>
      obtain ⟨y, rfl, -⟩ := hagree
      exact .inr (.inl ⟨x, y, rfl, rfl⟩)
    | act a k =>
      obtain ⟨k', rfl, hnext⟩ := hagree
      exact .inr (.inr ⟨a, k, k', rfl, rfl, hnext⟩)

/-- Where a move puts tasks that agree in both pools. -/
theorem rel_update {r : Prog A R α → Prog A R α → Prop} {i : Nat} {t t' : Option (Prog A R α)}
    {f f' : Nat → Option (Prog A R α)} (h : Option.Rel r t t') :
    Option.Rel r (if i = i then t else f i) (if i = i then t' else f' i) := by
  rw [if_pos rfl, if_pos rfl]
  exact h

/-- A move under another number does the same to its task in both pools. -/
theorem AgreeBut.moved (h : AgreeBut answer Rel Agrees T w w') {m : Move A R α E}
    (hm : Starts answer Rel Agrees T m) (hindex : ¬ T m.index) :
    Rel (Pool.step answer w m).state (Pool.step answer w' m).state ∧
      Option.Rel (Prog.Agree answer Rel Agrees) ((Pool.step answer w m).tasks m.index)
        ((Pool.step answer w' m).tasks m.index) := by
  cases m with
  | spawn i p =>
    have htask : Option.Rel (Prog.Agree answer Rel Agrees) (w.tasks i) (w'.tasks i) :=
      h.tasks i hindex
    rcases agree_cases htask with ⟨ht, ht'⟩ | ⟨x, y, ht, ht'⟩ | ⟨a, k, k', ht, ht', -⟩
    · rw [step_spawn_of_none _ ht, step_spawn_of_none _ ht']
      exact ⟨h.state, rel_update (.some (hm.2 hindex))⟩
    · rw [step_spawn_of_some _ ht, step_spawn_of_some _ ht']
      exact ⟨h.state, htask⟩
    · rw [step_spawn_of_some _ ht, step_spawn_of_some _ ht']
      exact ⟨h.state, htask⟩
  | advance i e =>
    have htask : Option.Rel (Prog.Agree answer Rel Agrees) (w.tasks i) (w'.tasks i) :=
      h.tasks i hindex
    rcases agree_cases htask with ⟨ht, ht'⟩ | ⟨x, y, ht, ht'⟩ | ⟨a, k, k', ht, ht', hnext⟩
    · rw [step_advance_of_none _ ht, step_advance_of_none _ ht']
      exact ⟨h.state, htask⟩
    · rw [step_advance_ret _ ht, step_advance_ret _ ht']
      exact ⟨h.state, rel_update .none⟩
    · obtain ⟨hstate, hk⟩ := hnext e _ _ h.state
      rw [step_advance_act _ ht, step_advance_act _ ht']
      exact ⟨hstate, rel_update (.some hk)⟩

/-- And the other tasks are as they were. -/
theorem AgreeBut.step (h : AgreeBut answer Rel Agrees T w w') {m : Move A R α E}
    (hm : Starts answer Rel Agrees T m) (hindex : ¬ T m.index) :
    AgreeBut answer Rel Agrees T (Pool.step answer w m) (Pool.step answer w' m) := by
  obtain ⟨hstate, hself⟩ := h.moved hm hindex
  refine ⟨hstate, fun i hi => ?_, fun i hi p hp => ?_⟩
  · by_cases heq : i = m.index
    · rw [heq]
      exact hself
    · rw [tasks_step_of_ne heq, tasks_step_of_ne heq]
      exact h.tasks i hi
  · have hne : i ≠ m.index := fun heq => hindex (heq ▸ hi)
    rw [tasks_step_of_ne hne] at hp
    exact h.unseen i hi p hp

/-- Tasks that are not seen can be left out of an interleaving. -/
theorem run_without [DecidablePred T] {ms : List (Move A R α E)}
    (h : AgreeBut answer Rel Agrees T w w') (hms : ∀ m ∈ ms, Starts answer Rel Agrees T m) :
    AgreeBut answer Rel Agrees T (run (Pool.step answer) w ms)
      (run (Pool.step answer) w' (ms.filter fun m => ¬ T m.index)) := by
  induction ms generalizing w w' with
  | nil => exact h
  | cons m ms ih =>
    have hm := hms m List.mem_cons_self
    have htail : ∀ m ∈ ms, Starts answer Rel Agrees T m :=
      fun m hm => hms m (List.mem_cons_of_mem _ hm)
    by_cases hindex : T m.index
    · rw [List.filter_cons_of_neg (by simpa using hindex)]
      exact ih (h.own hm hindex) htail
    · rw [List.filter_cons_of_pos (by simpa using hindex)]
      exact ih (h.step hm hindex) htail

end Pool

end

end Mik.Lib
