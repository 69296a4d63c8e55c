/-
  Strings the way Rust's `str` API and the `percent_encoding` crate treat them.

  A `String` is read through its characters (`toList`) for searching and splitting, and
  through its UTF-8 bytes (`utf8`) for percent-decoding. `percentDecode` replaces every `%`
  that two hexadecimal digits follow and keeps any other byte. `fromUtf8Lossy` is
  `String::from_utf8_lossy`: each maximal prefix of an ill-formed sequence becomes one
  U+FFFD, with the admissible second bytes of `core::str::lossy`.
-/
import Mathlib.Data.List.Basic
import Mathlib.Data.List.TakeDrop

namespace Mik.Lib

/-- `str::strip_prefix`. -/
def stripPrefix (p s : String) : Option String :=
  if p.toList.isPrefixOf s.toList then some (String.ofList (s.toList.drop p.toList.length))
  else none

/-- `str::starts_with`. -/
def startsWith (p s : String) : Bool := p.toList.isPrefixOf s.toList

/-- `str::contains` of one character. -/
def containsChar (c : Char) (s : String) : Bool := s.toList.contains c

/-- `str::split` at one character; empty pieces are kept. -/
def splitChar (c : Char) (s : String) : List String := (s.toList.splitOn c).map String.ofList

/-- `str::replace` of one character by another. -/
def replaceChar (a b : Char) (s : String) : String :=
  String.ofList (s.toList.map fun c => if c = a then b else c)

/-- The text up to the first `c`, and the text from that `c` on, when there is one. -/
def splitAtChar (c : Char) (s : String) : Option (String × String) :=
  match s.toList.span (· ≠ c) with
  | (_, []) => none
  | (before, rest) => some (String.ofList before, String.ofList rest)

/-- `str::split_once` at a character. -/
def splitOnce (c : Char) (s : String) : Option (String × String) :=
  match s.toList.span (· ≠ c) with
  | (_, []) => none
  | (before, _ :: rest) => some (String.ofList before, String.ofList rest)

/-- `str::rsplit_once` at a character. -/
def rsplitOnce (c : Char) (s : String) : Option (String × String) :=
  match s.toList.reverse.span (· ≠ c) with
  | (_, []) => none
  | (rest, _ :: before) => some (String.ofList before.reverse, String.ofList rest.reverse)

/-- The first piece of `str::rsplit`. -/
def lastPiece (c : Char) (s : String) : String :=
  String.ofList (s.toList.reverse.takeWhile (· ≠ c)).reverse

/-- The text up to its last `c`, which `lastPiece` goes on from. -/
def upToLast (c : Char) (s : String) : String :=
  String.ofList (s.toList.reverse.dropWhile (· ≠ c)).reverse

/-- The text without up to `n` copies of `p` at its front. -/
def dropCopies (p : List Char) : Nat → List Char → List Char
  | 0, cs => cs
  | n + 1, cs => if p.isPrefixOf cs then dropCopies p n (cs.drop p.length) else cs

/-- `str::trim_end_matches`, for a text: all its copies at the end go. -/
def trimEndMatches (p s : String) : String :=
  String.ofList (dropCopies p.toList.reverse s.toList.length s.toList.reverse).reverse

/-- The UTF-8 encoding of a string. -/
def utf8 (s : String) : List UInt8 := s.toList.flatMap String.utf8EncodeChar

theorem utf8_append (s s' : String) : utf8 (s ++ s') = utf8 s ++ utf8 s' := by
  unfold utf8
  rw [String.toList_append, List.flatMap_append]

theorem utf8_ofList (cs : List Char) :
    utf8 (String.ofList cs) = cs.flatMap String.utf8EncodeChar := by
  unfold utf8
  rw [String.toList_ofList]

theorem replaceChar_of_notMem {a b : Char} {s : String} (h : a ∉ s.toList) :
    replaceChar a b s = s := by
  refine String.toList_inj.mp ?_
  unfold replaceChar
  rw [String.toList_ofList]
  have hsame : ∀ c ∈ s.toList, (if c = a then b else c) = id c := by
    intro c hc
    refine if_neg fun heq => h ?_
    rw [← heq]
    exact hc
  rw [List.map_congr_left hsame, List.map_id]

theorem notMem_replaceChar {a b : Char} (hab : a ≠ b) (s : String) :
    a ∉ (replaceChar a b s).toList := by
  unfold replaceChar
  rw [String.toList_ofList, List.mem_map]
  rintro ⟨c, -, heq⟩
  split at heq
  · exact hab heq.symm
  · next hne => exact hne heq

theorem mem_intercalate_iff {c : Char} {sep : String} (hc : c ∉ sep.toList) {l : List String} :
    c ∈ (sep.intercalate l).toList ↔ ∃ s ∈ l, c ∈ s.toList := by
  induction l with
  | nil => simp [String.intercalate_nil]
  | cons s l ih =>
    cases l with
    | nil => simp
    | cons s' l =>
      rw [String.intercalate_cons_cons, String.toList_append, String.toList_append,
        List.mem_append, List.mem_append, ih]
      simp [hc]

theorem stripPrefix_eq_some_iff {p s rest : String} :
    stripPrefix p s = some rest ↔ s = p ++ rest := by
  unfold stripPrefix
  constructor
  · intro h
    split at h
    · next hprefix =>
      cases h
      obtain ⟨tail, htail⟩ := List.isPrefixOf_iff_prefix.mp hprefix
      apply String.toList_inj.mp
      rw [String.toList_append, String.toList_ofList, ← htail, List.drop_left]
    · cases h
  · rintro rfl
    have hprefix : p.toList.isPrefixOf (p ++ rest).toList = true := by
      rw [String.toList_append]
      exact List.isPrefixOf_iff_prefix.mpr (List.prefix_append _ _)
    rw [if_pos hprefix, String.toList_append, List.drop_left, String.ofList_toList]

theorem startsWith_iff {p s : String} : startsWith p s = true ↔ ∃ rest, s = p ++ rest := by
  unfold startsWith
  rw [List.isPrefixOf_iff_prefix]
  constructor
  · rintro ⟨tail, htail⟩
    refine ⟨String.ofList tail, String.toList_inj.mp ?_⟩
    rw [String.toList_append, String.toList_ofList, htail]
  · rintro ⟨rest, rfl⟩
    rw [String.toList_append]
    exact List.prefix_append _ _

/-- A text is cut in one way at the first of a separator. -/
theorem append_sep_inj {c : Char} {xs xs' ys ys' : List Char} (hxs : c ∉ xs) (hxs' : c ∉ xs')
    (h : xs ++ c :: ys = xs' ++ c :: ys') : xs = xs' ∧ ys = ys' := by
  rcases List.append_eq_append_iff.mp h with ⟨as, rfl, has⟩ | ⟨as, rfl, has⟩
  · cases as with
    | nil => exact ⟨(List.append_nil xs).symm, (List.cons.inj has).2⟩
    | cons d as =>
      obtain ⟨rfl, -⟩ := List.cons.inj has
      exact absurd (List.mem_append_right _ List.mem_cons_self) hxs'
  · cases as with
    | nil => exact ⟨List.append_nil xs', (List.cons.inj has).2.symm⟩
    | cons d as =>
      obtain ⟨rfl, -⟩ := List.cons.inj has
      exact absurd (List.mem_append_right _ List.mem_cons_self) hxs

/-- A text is cut in one way at the last of a separator. -/
theorem append_last_sep_inj {c : Char} {xs xs' ys ys' : List Char} (hys : c ∉ ys) (hys' : c ∉ ys')
    (h : xs ++ c :: ys = xs' ++ c :: ys') : xs = xs' ∧ ys = ys' := by
  have hreverse := congrArg List.reverse h
  simp only [List.reverse_append, List.reverse_cons, List.append_assoc,
    List.singleton_append] at hreverse
  obtain ⟨hy, hx⟩ := append_sep_inj (fun hm => hys (List.mem_reverse.mp hm))
    (fun hm => hys' (List.mem_reverse.mp hm)) hreverse
  exact ⟨List.reverse_injective hx, List.reverse_injective hy⟩

theorem span_of_notMem {c : Char} {l : List Char} (h : c ∉ l) : l.span (· ≠ c) = (l, []) := by
  have hall : ∀ x ∈ l, decide (x ≠ c) = true := fun x hx =>
    decide_eq_true fun heq => h (heq ▸ hx)
  rw [List.span_eq_takeWhile_dropWhile, ← List.append_nil l, List.takeWhile_append_of_pos hall,
    List.dropWhile_append_of_pos hall]
  rfl

theorem span_append {c : Char} {xs : List Char} (h : c ∉ xs) (ys : List Char) :
    (xs ++ c :: ys).span (· ≠ c) = (xs, c :: ys) := by
  have hall : ∀ x ∈ xs, decide (x ≠ c) = true := fun x hx =>
    decide_eq_true fun heq => h (heq ▸ hx)
  rw [List.span_eq_takeWhile_dropWhile, List.takeWhile_append_of_pos hall,
    List.dropWhile_append_of_pos hall]
  simp

theorem splitAtChar_of_notMem {c : Char} {s : String} (h : c ∉ s.toList) :
    splitAtChar c s = none := by
  unfold splitAtChar
  rw [span_of_notMem h]

theorem splitAtChar_append {c : Char} {s : String} (h : c ∉ s.toList) (rest : List Char) :
    splitAtChar c (String.ofList (s.toList ++ c :: rest)) =
      some (s, String.ofList (c :: rest)) := by
  unfold splitAtChar
  rw [String.toList_ofList, span_append h]
  dsimp only
  rw [String.ofList_toList]

theorem upToLast_append_lastPiece (c : Char) (s : String) :
    upToLast c s ++ lastPiece c s = s := by
  refine String.toList_inj.mp ?_
  unfold upToLast lastPiece
  rw [String.toList_append, String.toList_ofList, String.toList_ofList, ← List.reverse_append,
    List.takeWhile_append_dropWhile, List.reverse_reverse]

theorem notMem_lastPiece (c : Char) (s : String) : c ∉ (lastPiece c s).toList := by
  unfold lastPiece
  rw [String.toList_ofList, List.mem_reverse]
  intro h
  have hall := List.all_eq_true.mp (@List.all_takeWhile _ (· ≠ c) s.toList.reverse) c h
  exact of_decide_eq_true hall rfl

theorem upToLast_cases (c : Char) (s : String) :
    upToLast c s = "" ∨ (upToLast c s).toList.getLast? = some c := by
  unfold upToLast
  rw [String.toList_ofList, List.getLast?_reverse]
  cases h : s.toList.reverse.dropWhile (· ≠ c) with
  | nil => exact Or.inl rfl
  | cons d rest =>
    have hhead := List.head_dropWhile_not (· ≠ c) (by rw [h]; exact List.cons_ne_nil d rest)
    simp only [h, List.head_cons, decide_eq_false_iff_not, not_not] at hhead
    exact Or.inr (by rw [hhead]; rfl)

theorem upToLast_of_notMem {c : Char} {s : String} (h : c ∉ s.toList) : upToLast c s = "" := by
  rcases upToLast_cases c s with hempty | hlast
  · exact hempty
  · have hmem : c ∈ (upToLast c s ++ lastPiece c s).toList := by
      rw [String.toList_append]
      exact List.mem_append_left _ (List.mem_of_getLast? hlast)
    rw [upToLast_append_lastPiece] at hmem
    exact absurd hmem h

/-! ## Cutting at a character -/

section

variable {c : Char} {sep a b s : String}

theorem splitOnce_append (hsep : sep.toList = [c]) (h : c ∉ a.toList) :
    splitOnce c (a ++ sep ++ b) = some (a, b) := by
  unfold splitOnce
  rw [String.toList_append, String.toList_append, hsep, List.append_assoc, List.singleton_append,
    span_append h]
  dsimp only
  rw [String.ofList_toList, String.ofList_toList]

theorem splitOnce_of_notMem (h : c ∉ s.toList) : splitOnce c s = none := by
  unfold splitOnce
  rw [span_of_notMem h]

/-- A text has no `c`, or is cut at the first. -/
theorem splitOnce_cases (hsep : sep.toList = [c]) (s : String) :
    c ∉ s.toList ∨ ∃ a b, s = a ++ sep ++ b ∧ c ∉ a.toList := by
  by_cases hmem : c ∈ s.toList
  · obtain ⟨as, bs, hs, has⟩ := List.eq_append_cons_of_mem hmem
    refine Or.inr ⟨String.ofList as, String.ofList bs, String.toList_inj.mp ?_, ?_⟩
    · rw [String.toList_append, String.toList_append, hsep, String.toList_ofList,
        String.toList_ofList, hs, List.append_assoc, List.singleton_append]
    · rwa [String.toList_ofList]
  · exact Or.inl hmem

theorem rsplitOnce_append (hsep : sep.toList = [c]) (h : c ∉ b.toList) :
    rsplitOnce c (a ++ sep ++ b) = some (a, b) := by
  unfold rsplitOnce
  rw [String.toList_append, String.toList_append, hsep, List.reverse_append, List.reverse_append,
    List.reverse_singleton, List.singleton_append,
    span_append fun hmem => h (List.mem_reverse.mp hmem)]
  dsimp only
  rw [List.reverse_reverse, List.reverse_reverse, String.ofList_toList, String.ofList_toList]

theorem rsplitOnce_of_notMem (h : c ∉ s.toList) : rsplitOnce c s = none := by
  unfold rsplitOnce
  rw [span_of_notMem fun hmem => h (List.mem_reverse.mp hmem)]

/-- A text has no `c`, or is cut at the last. -/
theorem rsplitOnce_cases (hsep : sep.toList = [c]) (s : String) :
    c ∉ s.toList ∨ ∃ a b, s = a ++ sep ++ b ∧ c ∉ b.toList := by
  by_cases hmem : c ∈ s.toList
  · obtain ⟨as, bs, hs, has⟩ := List.eq_append_cons_of_mem (List.mem_reverse.mpr hmem)
    refine Or.inr ⟨String.ofList bs.reverse, String.ofList as.reverse,
      String.toList_inj.mp ?_, ?_⟩
    · have hs' := congrArg List.reverse hs
      rw [List.reverse_reverse, List.reverse_append, List.reverse_cons] at hs'
      rw [String.toList_append, String.toList_append, hsep, String.toList_ofList,
        String.toList_ofList, hs']
    · rwa [String.toList_ofList, List.mem_reverse]
  · exact Or.inl hmem

/-- What is in front of the last piece, up to a `c`, makes no difference to it. -/
theorem lastPiece_append (h : a = "" ∨ a.toList.getLast? = some c) (s : String) :
    lastPiece c (a ++ s) = lastPiece c s := by
  rcases h with rfl | hlast
  · rw [String.empty_append]
  · have hnone : a.toList.reverse.takeWhile (· ≠ c) = [] := by
      rw [← List.head?_reverse] at hlast
      obtain ⟨rest, hrest⟩ := List.head?_eq_some_iff.mp hlast
      rw [hrest, List.takeWhile_cons_of_neg (by simp)]
    unfold lastPiece
    rw [String.toList_append, List.reverse_append, List.takeWhile_append, hnone,
      List.append_nil]
    split
    · rename_i hlength
      rw [List.takeWhile_prefix (· ≠ c) |>.eq_of_length hlength]
    · rfl

theorem upToLast_append (h : a = "" ∨ a.toList.getLast? = some c) (s : String) :
    upToLast c (a ++ s) = a ++ upToLast c s := by
  have hwhole := upToLast_append_lastPiece c (a ++ s)
  rw [lastPiece_append h] at hwhole
  refine (String.append_left_inj (lastPiece c s)).mp ?_
  rw [hwhole, String.append_assoc, upToLast_append_lastPiece]

theorem lastPiece_of_notMem (h : c ∉ s.toList) : lastPiece c s = s := by
  have hwhole := upToLast_append_lastPiece c s
  rwa [upToLast_of_notMem h, String.empty_append] at hwhole

end

/-- A text in front of two: it ends before the first of them ends, or in the second. -/
theorem append_cut {a x p rest : String} (h : a ++ x = p ++ rest) :
    (∃ r, p = a ++ r ∧ x = r ++ rest) ∨ ∃ s, a = p ++ s ∧ rest = s ++ x := by
  have hlist := congrArg String.toList h
  rw [String.toList_append, String.toList_append] at hlist
  rcases List.append_eq_append_iff.mp hlist with ⟨as, hp, hx⟩ | ⟨as, ha, hrest⟩
  · refine Or.inl ⟨String.ofList as, String.toList_inj.mp ?_, String.toList_inj.mp ?_⟩
    · rw [String.toList_append, String.toList_ofList, hp]
    · rw [String.toList_append, String.toList_ofList, hx]
  · refine Or.inr ⟨String.ofList as, String.toList_inj.mp ?_, String.toList_inj.mp ?_⟩
    · rw [String.toList_append, String.toList_ofList, ha]
    · rw [String.toList_append, String.toList_ofList, hrest]

/-! ## Percent-decoding -/

/-- `char::to_digit(16)` on an ASCII byte. -/
def hexValue (b : UInt8) : Option Nat :=
  let n := b.toNat
  if 0x30 ≤ n ∧ n ≤ 0x39 then some (n - 0x30)
  else if 0x41 ≤ n ∧ n ≤ 0x46 then some (n - 0x37)
  else if 0x61 ≤ n ∧ n ≤ 0x66 then some (n - 0x57)
  else none

/-- `percent_encoding::percent_decode`. -/
def percentDecode : List UInt8 → List UInt8
  | [] => []
  | [b] => [b]
  | [b, c] => [b, c]
  | b :: h :: l :: rest =>
    if b = 0x25 then
      match hexValue h, hexValue l with
      | some x, some y => UInt8.ofNat (16 * x + y) :: percentDecode rest
      | _, _ => b :: percentDecode (h :: l :: rest)
    else b :: percentDecode (h :: l :: rest)

/-! ## Lossy UTF-8 -/

/-- U+FFFD. -/
def replacementChar : Char := Char.ofNat 0xFFFD

/-- A continuation byte `10xxxxxx`. -/
def isCont (b : UInt8) : Bool := b.toNat / 64 == 2

/-- The second byte a three-byte sequence starting with `b` may have. -/
def second3 (b c : UInt8) : Bool :=
  if b = 0xE0 then decide (0xA0 ≤ c ∧ c ≤ 0xBF)
  else if b = 0xED then decide (0x80 ≤ c ∧ c ≤ 0x9F)
  else isCont c

/-- The second byte a four-byte sequence starting with `b` may have. -/
def second4 (b c : UInt8) : Bool :=
  if b = 0xF0 then decide (0x90 ≤ c ∧ c ≤ 0xBF)
  else if b = 0xF4 then decide (0x80 ≤ c ∧ c ≤ 0x8F)
  else isCont c

/-- The character with the given leading bits and continuation bytes. -/
def assemble (lead : Nat) (conts : List UInt8) : Char :=
  Char.ofNat (conts.foldl (fun n c => n * 64 + c.toNat % 64) lead)

/-- `String::from_utf8_lossy`, as characters. -/
def fromUtf8Lossy : List UInt8 → List Char
  | [] => []
  | b :: rest =>
    if b < 0x80 then Char.ofNat b.toNat :: fromUtf8Lossy rest
    else if 0xC2 ≤ b ∧ b ≤ 0xDF then
      match rest with
      | [] => [replacementChar]
      | c :: rest1 =>
        if isCont c then assemble (b.toNat % 32) [c] :: fromUtf8Lossy rest1
        else replacementChar :: fromUtf8Lossy (c :: rest1)
    else if 0xE0 ≤ b ∧ b ≤ 0xEF then
      match rest with
      | [] => [replacementChar]
      | c :: rest1 =>
        if second3 b c then
          match rest1 with
          | [] => [replacementChar]
          | d :: rest2 =>
            if isCont d then assemble (b.toNat % 16) [c, d] :: fromUtf8Lossy rest2
            else replacementChar :: fromUtf8Lossy (d :: rest2)
        else replacementChar :: fromUtf8Lossy (c :: rest1)
    else if 0xF0 ≤ b ∧ b ≤ 0xF4 then
      match rest with
      | [] => [replacementChar]
      | c :: rest1 =>
        if second4 b c then
          match rest1 with
          | [] => [replacementChar]
          | d :: rest2 =>
            if isCont d then
              match rest2 with
              | [] => [replacementChar]
              | e :: rest3 =>
                if isCont e then assemble (b.toNat % 8) [c, d, e] :: fromUtf8Lossy rest3
                else replacementChar :: fromUtf8Lossy (e :: rest3)
            else replacementChar :: fromUtf8Lossy (d :: rest2)
        else replacementChar :: fromUtf8Lossy (c :: rest1)
    else replacementChar :: fromUtf8Lossy rest

/-- `percent_decode_str(s).decode_utf8_lossy()`. -/
def percentDecodeStr (s : String) : String :=
  String.ofList (fromUtf8Lossy (percentDecode (utf8 s)))

example : percentDecodeStr "a%2Fb%C3%A9%FFc%4" = "a/bé\uFFFDc%4" := by decide +kernel

end Mik.Lib
