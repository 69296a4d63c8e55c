/-
  Replacing the occurrences of a pattern in a text.

  Occurrences are taken from the left and do not overlap. What is in front of the first place where
  the pattern begins is copied (`replace_append`), so a rewriting is followed from place to place once
  it is known where the pattern can begin. Two tests decide that for a fixed text in front of one that
  is not known: `Clear`, that no rest of the text agrees with the pattern, and `Apart`, that no rest
  of the pattern agrees with what follows.
-/
import Mathlib.Data.List.Infix

namespace Mik.Lib.Rewrite

variable {α : Type} {p r s t : List α}

/-! ## Where a pattern begins -/

/-- No occurrence of `p` in `s ++ t` begins in `s`. -/
def NotStarting (p s t : List α) : Prop := ∀ back, back <:+ s → back ≠ [] → ¬ p <+: back ++ t

/-- One is the beginning of the other. -/
def Agree (xs ys : List α) : Prop := xs <+: ys ∨ ys <+: xs

/-- Wherever `p` would begin in `s`, the two differ. -/
def Clear (p s : List α) : Prop := ∀ back ∈ s.tails, back ≠ [] → ¬ Agree p back

/-- No proper part at the end of `p` agrees with `s`. -/
def Apart (p s : List α) : Prop := ∀ back ∈ p.tails, back ≠ [] → back ≠ p → ¬ Agree back s

section

variable [DecidableEq α]

instance (xs ys : List α) : Decidable (Agree xs ys) := inferInstanceAs (Decidable (_ ∨ _))

instance (p s : List α) : Decidable (Clear p s) :=
  inferInstanceAs (Decidable (∀ back ∈ s.tails, _ → _))

instance (p s : List α) : Decidable (Apart p s) :=
  inferInstanceAs (Decidable (∀ back ∈ p.tails, _ → _ → _))

end

theorem agree_of_prefix_append (h : p <+: s ++ t) : Agree p s :=
  List.prefix_or_prefix_of_prefix h (List.prefix_append s t)

theorem Clear.notStarting (h : Clear p s) (t : List α) : NotStarting p s t :=
  fun back hback hne hfront =>
    h back ((List.mem_tails back s).mpr hback) hne (agree_of_prefix_append hfront)

/-- A pattern that is not in `s` begins there only if its end agrees with what follows. -/
theorem notStarting_of_apart {q : List α} (h : ¬ p <:+: s) (hapart : Apart p q) (t : List α) :
    NotStarting p s (q ++ t) := by
  intro back hback hne hfront
  rcases agree_of_prefix_append hfront with hin | hover
  · exact h (hin.isInfix.trans hback.isInfix)
  · obtain ⟨rest, rfl⟩ := hover
    have hrest : rest <+: q ++ t := (List.prefix_append_right_inj back).mp hfront
    by_cases hempty : rest = []
    · rw [hempty, List.append_nil] at h
      exact h hback.isInfix
    · refine hapart rest ((List.mem_tails _ _).mpr (List.suffix_append back rest)) hempty
        (fun heq => hne ?_) (agree_of_prefix_append hrest)
      have hlength := congrArg List.length heq
      rw [List.length_append] at hlength
      exact List.eq_nil_of_length_eq_zero (by omega)

theorem NotStarting.of_longer {q : List α} (h : NotStarting p s t) (hq : p <+: q) :
    NotStarting q s t :=
  fun back hback hne hfront => h back hback hne (hq.trans hfront)

/-- An occurrence that does not begin in the front is in the rest. -/
theorem NotStarting.infix_append_iff (h : NotStarting p s t) : p <:+: s ++ t ↔ p <:+: t := by
  induction s with
  | nil => exact Iff.rfl
  | cons c s ih =>
    have hhead : ¬ p <+: c :: (s ++ t) := h (c :: s) List.suffix_rfl (List.cons_ne_nil c s)
    rw [List.cons_append, List.infix_cons_iff,
      ih fun back hback => h back (hback.trans (List.suffix_cons c s))]
    exact or_iff_right hhead

theorem NotStarting.append {s' : List α} (h : NotStarting p s (s' ++ t))
    (h' : NotStarting p s' t) : NotStarting p (s ++ s') t := by
  induction s with
  | nil => exact h'
  | cons c s ih =>
    intro back hback hne hfront
    rcases List.suffix_cons_iff.mp hback with rfl | hback
    · refine h (c :: s) List.suffix_rfl (List.cons_ne_nil c s) ?_
      rw [← List.append_assoc]
      exact hfront
    · exact ih (fun back hback => h back (hback.trans (List.suffix_cons c s))) back hback hne
        hfront

/-! ## Replacing -/

variable [DecidableEq α]

/-- Replaces from a place on, after `skip` elements that belong to the last occurrence. -/
def replaceFrom (p r : List α) : Nat → List α → List α
  | _, [] => []
  | skip + 1, _ :: s => replaceFrom p r skip s
  | 0, c :: s =>
    if p <+: c :: s then r ++ replaceFrom p r (p.length - 1) s
    else c :: replaceFrom p r 0 s

/-- Every occurrence of `p` becomes `r`. -/
def replace (p r s : List α) : List α := replaceFrom p r 0 s

theorem replaceFrom_append (xs s : List α) :
    replaceFrom p r xs.length (xs ++ s) = replaceFrom p r 0 s := by
  induction xs with
  | nil => rfl
  | cons c xs ih => exact ih

/-- An occurrence is replaced. -/
theorem replace_match (hp : p ≠ []) (s : List α) : replace p r (p ++ s) = r ++ replace p r s := by
  obtain ⟨c, xs, rfl⟩ := List.exists_cons_of_ne_nil hp
  have hhead : c :: xs <+: c :: (xs ++ s) := List.prefix_append (c :: xs) s
  show (if c :: xs <+: c :: (xs ++ s) then r ++ replaceFrom (c :: xs) r xs.length (xs ++ s)
    else c :: replaceFrom (c :: xs) r 0 (xs ++ s)) = _
  rw [if_pos hhead, replaceFrom_append]
  rfl

/-- Where no occurrence begins the text is copied. -/
theorem replace_append (h : NotStarting p s t) : replace p r (s ++ t) = s ++ replace p r t := by
  induction s with
  | nil => rfl
  | cons c s ih =>
    have hhead : ¬ p <+: c :: (s ++ t) := h (c :: s) List.suffix_rfl (List.cons_ne_nil c s)
    show (if p <+: c :: (s ++ t) then _ else _) = _
    rw [if_neg hhead]
    exact congrArg (List.cons c)
      (ih fun back hback => h back (hback.trans (List.suffix_cons c s)))

theorem replace_eq_self (h : ¬ p <:+: s) : replace p r s = s := by
  have hnone : NotStarting p s [] := by
    intro back hback _ hfront
    rw [List.append_nil] at hfront
    exact h (hfront.isInfix.trans hback.isInfix)
  have hcopy : replace p r (s ++ []) = s ++ [] := replace_append hnone
  rw [List.append_nil] at hcopy
  exact hcopy

theorem length_replaceFrom (hp : p ≠ []) (h : p.length ≤ r.length) (skip : Nat) (s : List α) :
    s.length ≤ (replaceFrom p r skip s).length + skip := by
  have hpos := List.length_pos_of_ne_nil hp
  induction s generalizing skip with
  | nil => exact Nat.zero_le _
  | cons c s ih =>
    cases skip with
    | succ skip =>
      have hrest := ih skip
      show s.length + 1 ≤ (replaceFrom p r skip s).length + (skip + 1)
      omega
    | zero =>
      unfold replaceFrom
      split
      · have hrest := ih (p.length - 1)
        rw [List.length_append, List.length_cons]
        omega
      · have hrest := ih 0
        rw [List.length_cons, List.length_cons]
        omega

/-- A text with an occurrence grows when what is put in is longer. -/
theorem length_lt_replace (hp : p ≠ []) (h : p.length < r.length) (hs : p <:+: s) :
    s.length < (replace p r s).length := by
  unfold replace
  induction s with
  | nil => exact absurd (List.eq_nil_of_infix_nil hs) hp
  | cons c s ih =>
    unfold replaceFrom
    split
    · have hrest := length_replaceFrom hp (Nat.le_of_lt h) (p.length - 1) s
      have hpos := List.length_pos_of_ne_nil hp
      rw [List.length_append, List.length_cons]
      omega
    · next hhead =>
      have hrest := ih ((List.infix_cons_iff.mp hs).resolve_left hhead)
      rw [List.length_cons, List.length_cons]
      omega

theorem length_le_replace (hp : p ≠ []) (h : p.length ≤ r.length) (s : List α) :
    s.length ≤ (replace p r s).length := length_replaceFrom hp h 0 s

/-! ## One rewriting after the other -/

/-- Applies rules in their order, each to the result of the one before. -/
def rewrite (rules : List (List α × List α)) (s : List α) : List α :=
  rules.foldl (fun s rule => replace rule.1 rule.2 s) s

theorem length_le_rewrite {rules : List (List α × List α)}
    (hrules : ∀ rule ∈ rules, rule.1 ≠ [] ∧ rule.1.length < rule.2.length) (s : List α) :
    s.length ≤ (rewrite rules s).length := by
  induction rules generalizing s with
  | nil => exact Nat.le_refl _
  | cons rule rules ih =>
    obtain ⟨hne, hlt⟩ := hrules rule List.mem_cons_self
    exact Nat.le_trans (length_le_replace hne (Nat.le_of_lt hlt) s)
      (ih (fun rule' hrule' => hrules rule' (List.mem_cons_of_mem _ hrule')) _)

/-- Rules that make a text longer leave it as it is exactly when none of their patterns is in it. -/
theorem rewrite_eq_self_iff {rules : List (List α × List α)}
    (hrules : ∀ rule ∈ rules, rule.1 ≠ [] ∧ rule.1.length < rule.2.length) (s : List α) :
    rewrite rules s = s ↔ ∀ rule ∈ rules, ¬ rule.1 <:+: s := by
  induction rules with
  | nil => simp [rewrite]
  | cons rule rules ih =>
    obtain ⟨hne, hlt⟩ := hrules rule List.mem_cons_self
    have hrest : ∀ rule' ∈ rules, rule'.1 ≠ [] ∧ rule'.1.length < rule'.2.length :=
      fun rule' hrule' => hrules rule' (List.mem_cons_of_mem _ hrule')
    have hstep : rewrite (rule :: rules) s = rewrite rules (replace rule.1 rule.2 s) := rfl
    rw [List.forall_mem_cons, hstep]
    by_cases hin : rule.1 <:+: s
    · -- the text has grown, and no later rule makes it shorter
      have hgrown := length_lt_replace hne hlt hin
      have hkept := length_le_rewrite hrest (replace rule.1 rule.2 s)
      refine iff_of_false (fun heq => ?_) fun h => h.1 hin
      rw [heq] at hkept
      omega
    · rw [replace_eq_self hin, ih hrest]
      exact ⟨fun h => ⟨hin, h⟩, And.right⟩

/-- Text in front in which no pattern begins, whatever follows, is kept. -/
theorem rewrite_append {rules : List (List α × List α)}
    (h : ∀ rule ∈ rules, ∀ t, NotStarting rule.1 s t) (t : List α) :
    rewrite rules (s ++ t) = s ++ rewrite rules t := by
  induction rules generalizing t with
  | nil => rfl
  | cons rule rules ih =>
    have hstep : ∀ s, rewrite (rule :: rules) s = rewrite rules (replace rule.1 rule.2 s) :=
      fun _ => rfl
    rw [hstep, hstep, replace_append (h rule List.mem_cons_self t),
      ih fun rule' hrule' => h rule' (List.mem_cons_of_mem _ hrule')]

/-- The one place at which a pattern of the rules begins in front: it is rewritten by its rule, and
    what is behind it by all of them. -/
theorem rewrite_occurrence {before after : List (List α × List α)} (hp : p ≠ [])
    (hbefore : ∀ rule ∈ before, ∀ t, NotStarting rule.1 (s ++ p) t)
    (hfront : ∀ t, NotStarting p s (p ++ t))
    (hafter : ∀ rule ∈ after, ∀ t, NotStarting rule.1 (s ++ r) t) (t : List α) :
    rewrite (before ++ (p, r) :: after) (s ++ p ++ t) =
      s ++ r ++ rewrite (before ++ (p, r) :: after) t := by
  have hsplit : ∀ t, rewrite (before ++ (p, r) :: after) t =
      rewrite after (replace p r (rewrite before t)) := by
    intro t
    unfold rewrite
    rw [List.foldl_append, List.foldl_cons]
  rw [hsplit, hsplit, rewrite_append hbefore, List.append_assoc, replace_append (hfront _),
    replace_match hp, ← List.append_assoc, rewrite_append hafter]

end Mik.Lib.Rewrite
