/-
  Host names, as texts and as lists of labels.

  `labels` cuts a name at every dot. A host is within a domain when its labels end with those of
  the domain, without regard to the case of ASCII letters. Read off the two texts, either they are
  the same or the host ends with a dot and the domain (`isWithin_iff`), so nothing is within a
  domain that only ends with the same characters (`not_isWithin_of_boundary`).
-/
import Mathlib.Data.List.Infix
import Mik.Lib.Text

namespace Mik.Lib

/-- `str::to_ascii_lowercase`. -/
def toAsciiLowercase (s : String) : String := String.ofList (s.toList.map Char.toLower)

/-- `str::ends_with`. -/
def endsWith (p s : String) : Bool := p.toList.isSuffixOf s.toList

/-- The labels of a host name. -/
def labels (host : String) : List String := splitChar '.' host

/-- The host is the domain or one of its subdomains. -/
def IsWithin (domain host : String) : Prop :=
  (labels domain).map toAsciiLowercase <:+ (labels host).map toAsciiLowercase

instance (domain host : String) : Decidable (IsWithin domain host) :=
  inferInstanceAs (Decidable (_ <:+ _))

/-! ## Pieces of a text -/

section

variable {α : Type}

theorem intercalate_append {sep : List α} {front back : List (List α)} (hfront : front ≠ [])
    (hback : back ≠ []) :
    sep.intercalate (front ++ back) = sep.intercalate front ++ sep ++ sep.intercalate back := by
  induction front with
  | nil => exact absurd rfl hfront
  | cons seg segs ih =>
    by_cases hsegs : segs = []
    · rw [hsegs, List.singleton_append, List.intercalate_cons_of_ne_nil hback,
        List.intercalate_singleton, List.append_assoc]
    · have hmore : segs ++ back ≠ [] := fun h => hback (List.append_eq_nil_iff.mp h).2
      rw [List.cons_append, List.intercalate_cons_of_ne_nil hmore, ih hsegs,
        List.intercalate_cons_of_ne_nil hsegs]
      simp only [List.append_assoc]

variable [BEq α] [LawfulBEq α]

/-- A function that keeps the separator apart cuts in the same places. -/
theorem splitOn_map {f : α → α} {c : α} (hf : ∀ x, f x = c ↔ x = c) (xs : List α) :
    (xs.map f).splitOn c = (xs.splitOn c).map (List.map f) := by
  induction xs with
  | nil => rfl
  | cons x xs ih =>
    rw [List.map_cons, List.splitOn_cons_eq_if_modifyHead, List.splitOn_cons_eq_if_modifyHead, ih]
    by_cases hx : x = c
    · simp [hx, (hf c).mpr rfl]
    · have hfx : f x ≠ c := fun heq => hx ((hf x).mp heq)
      obtain ⟨seg, segs, heq⟩ := List.exists_cons_of_ne_nil (List.splitOn_ne_nil c xs)
      simp [hx, hfx, heq]

/-- The pieces of a text are the last ones of another exactly when it is that text, or ends it
    behind a separator. -/
theorem splitOn_suffix_iff (c : α) (xs ys : List α) :
    xs.splitOn c <:+ ys.splitOn c ↔ ys = xs ∨ (c :: xs) <:+ ys := by
  constructor
  · rintro ⟨front, hfront⟩
    have hys := @List.intercalate_splitOn _ ys _ _ c
    rw [← hfront] at hys
    by_cases hnil : front = []
    · rw [hnil, List.nil_append, List.intercalate_splitOn] at hys
      exact Or.inl hys.symm
    · rw [intercalate_append hnil (List.splitOn_ne_nil c xs), List.intercalate_splitOn] at hys
      rw [List.append_assoc, List.singleton_append] at hys
      exact Or.inr ⟨_, hys⟩
  · rintro (rfl | ⟨front, rfl⟩)
    · exact List.suffix_refl _
    · rw [List.splitOn_append_cons_self]
      exact List.suffix_append _ _

end

/-! ## Case -/

/-- Lowering the case touches letters only, and what it makes are letters. -/
theorem toLower_eq_iff {c d : Char} (hd : d.toNat < 65) : c.toLower = d ↔ c = d := by
  unfold Char.toLower
  split
  · next h =>
    have hge : 65 ≤ c.toNat := h.1
    have hle : c.toNat ≤ 90 := h.2
    have h32 : ('a'.val - 'A'.val).toNat = 32 := by decide
    unfold Char.toNat at hd hge hle
    constructor
    · intro heq
      have hval := congrArg Char.toNat heq
      unfold Char.toNat at hval
      rw [UInt32.toNat_add, h32] at hval
      omega
    · rintro rfl
      omega
  · exact Iff.rfl

theorem toList_toAsciiLowercase (s : String) :
    (toAsciiLowercase s).toList = s.toList.map Char.toLower := String.toList_ofList

theorem toAsciiLowercase_append (s s' : String) :
    toAsciiLowercase (s ++ s') = toAsciiLowercase s ++ toAsciiLowercase s' := by
  refine String.toList_inj.mp ?_
  simp only [toList_toAsciiLowercase, String.toList_append, List.map_append]

theorem labels_toAsciiLowercase (host : String) :
    labels (toAsciiLowercase host) = (labels host).map toAsciiLowercase := by
  unfold labels splitChar
  rw [toList_toAsciiLowercase, splitOn_map (fun _ => toLower_eq_iff (by decide)), List.map_map,
    List.map_map]
  refine List.map_congr_left fun seg _ => ?_
  simp only [Function.comp_apply, toAsciiLowercase, String.toList_ofList]

/-! ## Domains -/

theorem endsWith_iff {p s : String} : endsWith p s = true ↔ p.toList <:+ s.toList :=
  List.isSuffixOf_iff_suffix

theorem map_ofList_suffix_iff {segs segs' : List (List Char)} :
    segs.map String.ofList <:+ segs'.map String.ofList ↔ segs <:+ segs' := by
  refine ⟨fun h => ?_, fun h => h.map String.ofList⟩
  have hback := h.map String.toList
  rw [List.map_map, List.map_map] at hback
  have hid : String.toList ∘ String.ofList = id := funext fun _ => String.toList_ofList
  rwa [hid, List.map_id, List.map_id] at hback

theorem isWithin_iff {domain host : String} :
    IsWithin domain host ↔
      toAsciiLowercase host = toAsciiLowercase domain ∨
        endsWith ("." ++ toAsciiLowercase domain) (toAsciiLowercase host) = true := by
  have hdot : ("." ++ toAsciiLowercase domain).toList = '.' :: (toAsciiLowercase domain).toList :=
    String.toList_append
  unfold IsWithin
  rw [← labels_toAsciiLowercase, ← labels_toAsciiLowercase]
  unfold labels splitChar
  rw [map_ofList_suffix_iff, splitOn_suffix_iff, String.toList_inj, endsWith_iff, hdot]

theorem not_isWithin_of_boundary {domain host : String} {front : List Char} {c : Char}
    (hc : c ≠ '.')
    (h : (toAsciiLowercase host).toList = front ++ c :: (toAsciiLowercase domain).toList) :
    ¬ IsWithin domain host := by
  rw [isWithin_iff, endsWith_iff]
  rintro (heq | hsuffix)
  · rw [heq] at h
    have := congrArg List.length h
    rw [List.length_append, List.length_cons] at this
    omega
  · obtain ⟨front', hfront'⟩ := hsuffix
    rw [h] at hfront'
    have hlen : ("." ++ toAsciiLowercase domain).toList.length =
        (c :: (toAsciiLowercase domain).toList).length := by
      rw [String.toList_append, List.length_append, List.length_cons]
      exact Nat.add_comm _ _
    have hsame := (List.append_inj' hfront' hlen).2
    rw [String.toList_append] at hsame
    exact hc (List.cons.inj hsame).1.symm

end Mik.Lib
