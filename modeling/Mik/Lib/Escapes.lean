/-
  What percent-decoding and lossy decoding do to the ASCII of a text.

  Lossy decoding keeps the ASCII bytes as they are, in their order (`lowBytes_lossy`). An escape is
  three of them and becomes at most one, so a text is decoded to as many ASCII bytes as it has
  only if there is no escape in it (`hasEscape_of_lowBytes`), and then decoding changes nothing.
  A `/` is never part of an escape (`percentDecode_slash`).
-/
import Mik.Lib.Decoding

namespace Mik.Lib

def lowBytes (bs : List UInt8) : List UInt8 := bs.filter fun b => b.toNat < 0x80

/-- A `%` with two hexadecimal digits after it is somewhere in the text. -/
def hasEscape : List UInt8 → Bool
  | b :: h :: l :: rest =>
    (b == 0x25 && (hexValue h).isSome && (hexValue l).isSome) || hasEscape (h :: l :: rest)
  | _ => false

/-! ## ASCII bytes -/

theorem lowBytes_append (bs bs' : List UInt8) :
    lowBytes (bs ++ bs') = lowBytes bs ++ lowBytes bs' := List.filter_append ..

theorem lowBytes_cons_low {b : UInt8} (h : b.toNat < 0x80) (bs : List UInt8) :
    lowBytes (b :: bs) = b :: lowBytes bs := List.filter_cons_of_pos (decide_eq_true h)

theorem lowBytes_high {bs : List UInt8} (h : ∀ b ∈ bs, 0x80 ≤ b.toNat) : lowBytes bs = [] := by
  refine List.filter_eq_nil_iff.mpr fun b hb => ?_
  have := h b hb
  rw [decide_eq_true_iff]
  omega

/-- A character outside ASCII has no byte inside. -/
theorem lowBytes_encode_high {c : Char} (h : 0x80 ≤ c.toNat) :
    lowBytes (String.utf8EncodeChar c) = [] := by
  rcases encode_cases c with ⟨b, heq, hb⟩ | ⟨b, bs, heq, hhigh⟩
  · have hchar := lossy_encode c []
    rw [heq, List.singleton_append, lossy_one hb] at hchar
    rw [← (List.cons.inj hchar).1, toNat_ofNat_scalar (Or.inl (by omega))] at h
    omega
  · rw [heq]
    exact lowBytes_high hhigh

theorem assemble_two_high {b c : UInt8} (hb : 0xC2 ≤ b ∧ b ≤ 0xDF) :
    0x80 ≤ (assemble (b.toNat % 32) [c]).toNat := by
  have hlow : 0xC2 ≤ b.toNat := UInt8.le_iff_toNat_le.mp hb.1
  have hhigh : b.toNat ≤ 0xDF := UInt8.le_iff_toNat_le.mp hb.2
  simp only [assemble, List.foldl_cons, List.foldl_nil]
  rw [toNat_ofNat_scalar (by omega)]
  omega

theorem second3_bounds {b c : UInt8} (h : second3 b c = true) :
    (0x80 ≤ c.toNat ∧ c.toNat ≤ 0xBF) ∧ (b.toNat = 0xE0 → 0xA0 ≤ c.toNat) ∧
      (b.toNat = 0xED → c.toNat ≤ 0x9F) := by
  refine ⟨isCont_iff.mp (isCont_of_second3 h), fun hb => ?_, fun hb => ?_⟩
  · obtain rfl : b = 0xE0 := UInt8.toNat_inj.mp hb
    exact UInt8.le_iff_toNat_le.mp (of_decide_eq_true h).1
  · obtain rfl : b = 0xED := UInt8.toNat_inj.mp hb
    exact UInt8.le_iff_toNat_le.mp (of_decide_eq_true h).2

theorem second4_bounds {b c : UInt8} (h : second4 b c = true) :
    (0x80 ≤ c.toNat ∧ c.toNat ≤ 0xBF) ∧ (b.toNat = 0xF0 → 0x90 ≤ c.toNat) ∧
      (b.toNat = 0xF4 → c.toNat ≤ 0x8F) := by
  refine ⟨isCont_iff.mp (isCont_of_second4 h), fun hb => ?_, fun hb => ?_⟩
  · obtain rfl : b = 0xF0 := UInt8.toNat_inj.mp hb
    exact UInt8.le_iff_toNat_le.mp (of_decide_eq_true h).1
  · obtain rfl : b = 0xF4 := UInt8.toNat_inj.mp hb
    exact UInt8.le_iff_toNat_le.mp (of_decide_eq_true h).2

theorem assemble_three_high {b c d : UInt8} (hb : 0xE0 ≤ b ∧ b ≤ 0xEF) (hc : second3 b c = true) :
    0x80 ≤ (assemble (b.toNat % 16) [c, d]).toNat := by
  have hlow : 0xE0 ≤ b.toNat := UInt8.le_iff_toNat_le.mp hb.1
  have hhigh : b.toNat ≤ 0xEF := UInt8.le_iff_toNat_le.mp hb.2
  obtain ⟨hcont, hfirst, hsurrogate⟩ := second3_bounds hc
  simp only [assemble, List.foldl_cons, List.foldl_nil]
  rw [toNat_ofNat_scalar (by omega)]
  omega

theorem assemble_four_high {b c d e : UInt8} (hb : 0xF0 ≤ b ∧ b ≤ 0xF4)
    (hc : second4 b c = true) : 0x80 ≤ (assemble (b.toNat % 8) [c, d, e]).toNat := by
  have hlow : 0xF0 ≤ b.toNat := UInt8.le_iff_toNat_le.mp hb.1
  have hhigh : b.toNat ≤ 0xF4 := UInt8.le_iff_toNat_le.mp hb.2
  obtain ⟨hcont, hfirst, hlast⟩ := second4_bounds hc
  simp only [assemble, List.foldl_cons, List.foldl_nil]
  rw [toNat_ofNat_scalar (by omega)]
  omega

/-- A character outside ASCII for some bytes outside ASCII. -/
theorem lowBytes_lossy_high {c : Char} {taken rest : List UInt8} (hc : 0x80 ≤ c.toNat)
    (htaken : ∀ b ∈ taken, 0x80 ≤ b.toNat)
    (ih : lowBytes ((fromUtf8Lossy rest).flatMap String.utf8EncodeChar) = lowBytes rest) :
    lowBytes ((c :: fromUtf8Lossy rest).flatMap String.utf8EncodeChar) =
      lowBytes (taken ++ rest) := by
  rw [List.flatMap_cons, lowBytes_append, lowBytes_append, lowBytes_encode_high hc,
    lowBytes_high htaken, ih]

/-- Lossy decoding keeps the ASCII bytes. -/
theorem lowBytes_lossy (bs : List UInt8) :
    lowBytes ((fromUtf8Lossy bs).flatMap String.utf8EncodeChar) = lowBytes bs := by
  have hreplacement : 0x80 ≤ replacementChar.toNat := by decide
  have hfirst : ∀ {b : UInt8}, ¬ b < 0x80 → 0x80 ≤ b.toNat := fun {b} h => by
    rw [UInt8.lt_iff_toNat_lt] at h
    exact Nat.not_lt.mp h
  have hcont : ∀ {b : UInt8}, isCont b = true → 0x80 ≤ b.toNat := fun h => (isCont_iff.mp h).1
  have hsecond3 : ∀ {b c : UInt8}, second3 b c = true → 0x80 ≤ c.toNat :=
    fun h => (second3_bounds h).1.1
  have hsecond4 : ∀ {b c : UInt8}, second4 b c = true → 0x80 ≤ c.toNat :=
    fun h => (second4_bounds h).1.1
  fun_induction fromUtf8Lossy bs with
  | case1 => rfl
  | case2 b rest hascii ih =>
    have hlt : b.toNat < 0x80 := UInt8.lt_iff_toNat_lt.mp hascii
    rw [List.flatMap_cons, lowBytes_append, encode_ascii hlt, UInt8.ofNat_toNat, ih,
      lowBytes_cons_low hlt, lowBytes_cons_low hlt]
    rfl
  -- a byte on its own, at the end or in front of what it does not go with
  | case3 b hb =>
    exact @lowBytes_lossy_high _ [b] [] hreplacement (by simp [hfirst hb]) rfl
  | case5 b hb _ c rest _ ih =>
    exact @lowBytes_lossy_high _ [b] _ hreplacement (by simp [hfirst hb]) ih
  | case6 b hb =>
    exact @lowBytes_lossy_high _ [b] [] hreplacement (by simp [hfirst hb]) rfl
  | case10 b hb _ _ c rest _ ih =>
    exact @lowBytes_lossy_high _ [b] _ hreplacement (by simp [hfirst hb]) ih
  | case11 b hb =>
    exact @lowBytes_lossy_high _ [b] [] hreplacement (by simp [hfirst hb]) rfl
  | case17 b hb _ _ _ c rest _ ih =>
    exact @lowBytes_lossy_high _ [b] _ hreplacement (by simp [hfirst hb]) ih
  | case18 b rest hb _ _ _ ih =>
    exact @lowBytes_lossy_high _ [b] _ hreplacement (by simp [hfirst hb]) ih
  -- a sequence that breaks off later
  | case7 b hb _ _ c hc =>
    exact @lowBytes_lossy_high _ [b, c] [] hreplacement (by simp [hfirst hb, hsecond3 hc]) rfl
  | case9 b hb _ _ c hc d rest _ ih =>
    exact @lowBytes_lossy_high _ [b, c] _ hreplacement (by simp [hfirst hb, hsecond3 hc]) ih
  | case12 b hb _ _ _ c hc =>
    exact @lowBytes_lossy_high _ [b, c] [] hreplacement (by simp [hfirst hb, hsecond4 hc]) rfl
  | case13 b hb _ _ _ c hc d hd =>
    exact @lowBytes_lossy_high _ [b, c, d] [] hreplacement
      (by simp [hfirst hb, hsecond4 hc, hcont hd]) rfl
  | case15 b hb _ _ _ c hc d hd e rest _ ih =>
    exact @lowBytes_lossy_high _ [b, c, d] _ hreplacement
      (by simp [hfirst hb, hsecond4 hc, hcont hd]) ih
  | case16 b hb _ _ _ c hc d rest _ ih =>
    exact @lowBytes_lossy_high _ [b, c] _ hreplacement (by simp [hfirst hb, hsecond4 hc]) ih
  -- a whole sequence
  | case4 b hb htwo c rest hc ih =>
    exact @lowBytes_lossy_high _ [b, c] _ (assemble_two_high htwo)
      (by simp [hfirst hb, hcont hc]) ih
  | case8 b hb _ hthree c hc d rest hd ih =>
    exact @lowBytes_lossy_high _ [b, c, d] _ (assemble_three_high hthree hc)
      (by simp [hfirst hb, hsecond3 hc, hcont hd]) ih
  | case14 b hb _ _ hfour c hc d hd e rest he ih =>
    exact @lowBytes_lossy_high _ [b, c, d, e] _ (assemble_four_high hfour hc)
      (by simp [hfirst hb, hsecond4 hc, hcont hd, hcont he]) ih

/-- ASCII bytes are counted in a text as in the bytes it was decoded from. -/
theorem count_lossy {b : UInt8} (hb : b.toNat < 0x80) (bs : List UInt8) :
    ((fromUtf8Lossy bs).flatMap String.utf8EncodeChar).count b = bs.count b := by
  have hcount : ∀ l : List UInt8, (lowBytes l).count b = l.count b :=
    fun l => List.count_filter (decide_eq_true hb)
  rw [← hcount, lowBytes_lossy, hcount]

/-! ## Escapes -/

theorem hasEscape_cons (b h l : UInt8) (rest : List UInt8) :
    hasEscape (b :: h :: l :: rest) =
      ((b == 0x25 && (hexValue h).isSome && (hexValue l).isSome) || hasEscape (h :: l :: rest)) :=
  rfl

theorem digit_missing {h l : UInt8}
    (hdigits : ∀ x y, hexValue h = some x → hexValue l = some y → False) :
    hexValue h = none ∨ hexValue l = none := by
  cases hh : hexValue h with
  | none => exact Or.inl rfl
  | some x =>
    cases hl : hexValue l with
    | none => exact Or.inr rfl
    | some y => exact absurd hl (hdigits x y hh)

/-- Without escapes decoding changes nothing. -/
theorem percentDecode_of_hasEscape {bs : List UInt8} (h : hasEscape bs = false) :
    percentDecode bs = bs := by
  fun_induction percentDecode bs with
  | case1 => rfl
  | case2 b => rfl
  | case3 b c => rfl
  | case4 h' l rest x y hx hy ih =>
    rw [hasEscape_cons, hx, hy] at h
    cases h
  | case5 h' l rest hdigits ih =>
    rw [hasEscape_cons, Bool.or_eq_false_iff] at h
    rw [ih h.2]
  | case6 b h' l rest hb ih =>
    rw [hasEscape_cons, Bool.or_eq_false_iff] at h
    rw [ih h.2]

theorem length_lowBytes_cons (b : UInt8) (bs : List UInt8) :
    (lowBytes (b :: bs)).length = (lowBytes [b]).length + (lowBytes bs).length := by
  rw [← List.length_append, ← lowBytes_append, List.singleton_append]

/-- An escape is three ASCII bytes, for at most one. -/
theorem length_lowBytes_escape {h l : UInt8} {x y : Nat} (hl : hexValue l = some y)
    (hh : hexValue h = some x) (b : UInt8) (rest : List UInt8) :
    (lowBytes [b]).length + 2 + (lowBytes rest).length ≤
      (lowBytes (0x25 :: h :: l :: rest)).length := by
  have hone : (lowBytes [b]).length ≤ 1 := List.length_filter_le _ [b]
  have hthree : lowBytes (0x25 :: h :: l :: rest) = 0x25 :: h :: l :: lowBytes rest := by
    rw [lowBytes_cons_low (by decide), lowBytes_cons_low (hexValue_lt (by rw [hh]; rfl)),
      lowBytes_cons_low (hexValue_lt (by rw [hl]; rfl))]
  rw [hthree]
  simp only [List.length_cons]
  omega

theorem length_lowBytes_percentDecode_le (bs : List UInt8) :
    (lowBytes (percentDecode bs)).length ≤ (lowBytes bs).length := by
  fun_induction percentDecode bs with
  | case1 => exact Nat.le_refl _
  | case2 b => exact Nat.le_refl _
  | case3 b c => exact Nat.le_refl _
  | case4 h l rest x y hl hh ih =>
    have hescape := length_lowBytes_escape hl hh (UInt8.ofNat (16 * x + y)) rest
    have hfront := length_lowBytes_cons (UInt8.ofNat (16 * x + y)) (percentDecode rest)
    omega
  | case5 h l rest hdigits ih =>
    have hbefore := length_lowBytes_cons 0x25 (h :: l :: rest)
    have hafter := length_lowBytes_cons 0x25 (percentDecode (h :: l :: rest))
    omega
  | case6 b h l rest hb ih =>
    have hbefore := length_lowBytes_cons b (h :: l :: rest)
    have hafter := length_lowBytes_cons b (percentDecode (h :: l :: rest))
    omega

/-- A text that keeps the number of its ASCII bytes has no escapes. -/
theorem hasEscape_of_lowBytes {bs : List UInt8}
    (h : (lowBytes bs).length ≤ (lowBytes (percentDecode bs)).length) : hasEscape bs = false := by
  fun_induction percentDecode bs with
  | case1 => rfl
  | case2 b => rfl
  | case3 b c => rfl
  | case4 h' l rest x y hl hh ih =>
    have hescape := length_lowBytes_escape hl hh (UInt8.ofNat (16 * x + y)) rest
    have hfront := length_lowBytes_cons (UInt8.ofNat (16 * x + y)) (percentDecode rest)
    have hrest := length_lowBytes_percentDecode_le rest
    omega
  | case5 h' l rest hdigits ih =>
    have hbefore := length_lowBytes_cons 0x25 (h' :: l :: rest)
    have hafter := length_lowBytes_cons 0x25 (percentDecode (h' :: l :: rest))
    have hno : ((hexValue h').isSome && (hexValue l).isSome) = false := by
      rcases digit_missing hdigits with hno | hno
      · rw [hno, Option.isSome_none, Bool.false_and]
      · rw [hno, Option.isSome_none, Bool.and_false]
    rw [hasEscape_cons, Bool.and_assoc, hno, Bool.and_false, ih (by omega)]
    rfl
  | case6 b h' l rest hb ih =>
    have hbefore := length_lowBytes_cons b (h' :: l :: rest)
    have hafter := length_lowBytes_cons b (percentDecode (h' :: l :: rest))
    rw [hasEscape_cons, beq_false_of_ne hb, ih (by omega)]
    rfl

theorem utf8_percentDecodeStr (s : String) :
    utf8 (percentDecodeStr s) =
      (fromUtf8Lossy (percentDecode (utf8 s))).flatMap String.utf8EncodeChar := utf8_ofList _

/-- Decoding a text changes nothing only where it has no escape. -/
theorem percentDecodeStr_eq_self_iff {s : String} :
    percentDecodeStr s = s ↔ hasEscape (utf8 s) = false := by
  constructor
  · intro h
    have hlow := lowBytes_lossy (percentDecode (utf8 s))
    rw [← utf8_percentDecodeStr, h] at hlow
    exact hasEscape_of_lowBytes (Nat.le_of_eq (congrArg List.length hlow))
  · intro h
    unfold percentDecodeStr
    rw [percentDecode_of_hasEscape h, lossy_utf8, String.ofList_toList]

/-! ## Separators -/

theorem percentDecode_percent_keep {h l : UInt8} (hno : hexValue h = none ∨ hexValue l = none)
    (rest : List UInt8) :
    percentDecode (0x25 :: h :: l :: rest) = 0x25 :: percentDecode (h :: l :: rest) := by
  rw [percentDecode, if_pos rfl]
  split
  · next hx hy =>
    rw [hx, hy] at hno
    rcases hno with hno | hno
    · cases hno
    · cases hno
  · rfl

/-- A `/` is in no escape. -/
theorem percentDecode_slash (bs rest : List UInt8) :
    percentDecode (bs ++ 0x2F :: rest) = percentDecode bs ++ 0x2F :: percentDecode rest := by
  have hslash := @percentDecode_cons_of_ne 0x2F (by decide) rest
  have hone : ∀ b, percentDecode (b :: 0x2F :: rest) = b :: 0x2F :: percentDecode rest := by
    intro b
    by_cases hb : b = 0x25
    · cases rest with
      | nil => rfl
      | cons l tail => rw [hb, percentDecode_percent_keep (Or.inl rfl), hslash]
    · rw [percentDecode_cons_of_ne hb, hslash]
  fun_induction percentDecode bs with
  | case1 => exact hslash
  | case2 b => exact hone b
  | case3 b c =>
    show percentDecode (b :: c :: 0x2F :: rest) = b :: c :: 0x2F :: percentDecode rest
    by_cases hb : b = 0x25
    · rw [hb, percentDecode_percent_keep (Or.inr rfl), hone]
    · rw [percentDecode_cons_of_ne hb, hone]
  | case4 h l tail x y hl hh ih =>
    show percentDecode (0x25 :: h :: l :: (tail ++ 0x2F :: rest)) = _
    rw [percentDecode, if_pos rfl, hh, hl]
    dsimp only
    rw [ih]
    rfl
  | case5 h l tail hdigits ih =>
    show percentDecode (0x25 :: h :: l :: (tail ++ 0x2F :: rest)) = _
    rw [percentDecode_percent_keep (digit_missing hdigits)]
    exact congrArg _ ih
  | case6 b h l tail hb ih =>
    rw [List.cons_append, percentDecode_cons_of_ne hb, ih]
    rfl

end Mik.Lib
