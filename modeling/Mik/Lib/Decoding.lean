/-
  How long a text is after percent-decoding.

  `percentDecodeStr` never makes a text longer, counted in characters
  (`length_percentDecodeStr_le`): an escape of three characters becomes one byte, a byte in front
  of others adds at most one character to what they decode to (`length_lossy_cons_le`), and the
  bytes of a character together add one (`length_lossy_encode_le`). The decoder meets the bytes
  of a character at its first byte, since an ill-formed sequence ends before the next of them.
-/
import Mik.Lib.Text

namespace Mik.Lib

/-! ## Bytes in front of a text -/

theorem isCont_iff {b : UInt8} : isCont b = true ↔ 0x80 ≤ b.toNat ∧ b.toNat ≤ 0xBF := by
  unfold isCont
  rw [beq_iff_eq]
  omega

theorem isCont_of_second3 {b c : UInt8} (h : second3 b c = true) : isCont c = true := by
  unfold second3 at h
  split at h
  · obtain ⟨hlow, hhigh⟩ := of_decide_eq_true h
    rw [UInt8.le_iff_toNat_le] at hlow hhigh
    exact isCont_iff.mpr ⟨Nat.le_trans (by decide) hlow, hhigh⟩
  split at h
  · obtain ⟨hlow, hhigh⟩ := of_decide_eq_true h
    rw [UInt8.le_iff_toNat_le] at hlow hhigh
    exact isCont_iff.mpr ⟨hlow, Nat.le_trans hhigh (by decide)⟩
  · exact h

theorem isCont_of_second4 {b c : UInt8} (h : second4 b c = true) : isCont c = true := by
  unfold second4 at h
  split at h
  · obtain ⟨hlow, hhigh⟩ := of_decide_eq_true h
    rw [UInt8.le_iff_toNat_le] at hlow hhigh
    exact isCont_iff.mpr ⟨Nat.le_trans (by decide) hlow, hhigh⟩
  split at h
  · obtain ⟨hlow, hhigh⟩ := of_decide_eq_true h
    rw [UInt8.le_iff_toNat_le] at hlow hhigh
    exact isCont_iff.mpr ⟨hlow, Nat.le_trans hhigh (by decide)⟩
  · exact h

/-- A continuation byte that nothing asked for is a character of its own. -/
theorem length_lossy_cont {c : UInt8} (h : isCont c = true) (rest : List UInt8) :
    (fromUtf8Lossy (c :: rest)).length = (fromUtf8Lossy rest).length + 1 := by
  obtain ⟨hlow, hhigh⟩ := isCont_iff.mp h
  have hascii : ¬ c < 0x80 := by
    rw [UInt8.lt_iff_toNat_lt]
    exact Nat.not_lt.mpr hlow
  have hlead : ∀ a : UInt8, 0xC0 ≤ a.toNat → ¬ a ≤ c := by
    intro a ha
    rw [UInt8.le_iff_toNat_le]
    omega
  rw [fromUtf8Lossy.eq_def]
  dsimp only
  rw [if_neg hascii, if_neg fun hc => hlead 0xC2 (by decide) hc.1,
    if_neg fun hc => hlead 0xE0 (by decide) hc.1, if_neg fun hc => hlead 0xF0 (by decide) hc.1]
  rfl

/-- A byte in front adds at most one character. -/
theorem length_lossy_cons_le (b : UInt8) (rest : List UInt8) :
    (fromUtf8Lossy (b :: rest)).length ≤ (fromUtf8Lossy rest).length + 1 := by
  rw [fromUtf8Lossy.eq_def]
  dsimp only
  split
  · exact Nat.le_refl _
  split
  · split
    · exact Nat.le_refl _
    · next c rest1 =>
      split
      · next hc =>
        rw [length_lossy_cont hc, List.length_cons]
        omega
      · exact Nat.le_refl _
  split
  · split
    · exact Nat.le_refl _
    · next c rest1 =>
      split
      · next hc =>
        rw [length_lossy_cont (isCont_of_second3 hc)]
        split
        · exact Nat.le_add_left _ _
        · next d rest2 =>
          split
          · next hd =>
            rw [length_lossy_cont hd, List.length_cons]
            omega
          · rw [List.length_cons]
            omega
      · exact Nat.le_refl _
  split
  · split
    · exact Nat.le_refl _
    · next c rest1 =>
      split
      · next hc =>
        rw [length_lossy_cont (isCont_of_second4 hc)]
        split
        · exact Nat.le_add_left _ _
        · next d rest2 =>
          split
          · next hd =>
            rw [length_lossy_cont hd]
            split
            · exact Nat.le_add_left _ _
            · next e rest3 =>
              split
              · next he =>
                rw [length_lossy_cont he, List.length_cons]
                omega
              · rw [List.length_cons]
                omega
          · rw [List.length_cons]
            omega
      · exact Nat.le_refl _
  · exact Nat.le_refl _

/-! ## The bytes of a character -/

theorem lossy_one {b : UInt8} (hb : b.toNat < 0x80) (rest : List UInt8) :
    fromUtf8Lossy (b :: rest) = Char.ofNat b.toNat :: fromUtf8Lossy rest := by
  have hascii : b < 0x80 := UInt8.lt_iff_toNat_lt.mpr hb
  rw [fromUtf8Lossy.eq_def]
  dsimp only
  rw [if_pos hascii]

theorem lossy_two {b c : UInt8} (hb : 0xC2 ≤ b.toNat ∧ b.toNat ≤ 0xDF)
    (hc : isCont c = true) (rest : List UInt8) :
    fromUtf8Lossy (b :: c :: rest) = assemble (b.toNat % 32) [c] :: fromUtf8Lossy rest := by
  have hascii : ¬ b < 0x80 := fun h => by
    have := UInt8.lt_iff_toNat_lt.mp h
    have : (0x80 : UInt8).toNat = 0x80 := rfl
    omega
  rw [fromUtf8Lossy.eq_def]
  dsimp only
  rw [if_neg hascii, if_pos ⟨UInt8.le_iff_toNat_le.mpr hb.1, UInt8.le_iff_toNat_le.mpr hb.2⟩,
    if_pos hc]

theorem lossy_three {b c d : UInt8} (hb : 0xE0 ≤ b.toNat ∧ b.toNat ≤ 0xEF)
    (hc : second3 b c = true) (hd : isCont d = true) (rest : List UInt8) :
    fromUtf8Lossy (b :: c :: d :: rest) =
      assemble (b.toNat % 16) [c, d] :: fromUtf8Lossy rest := by
  have hascii : ¬ b < 0x80 := fun h => by
    have := UInt8.lt_iff_toNat_lt.mp h
    have : (0x80 : UInt8).toNat = 0x80 := rfl
    omega
  have htwo : ¬ (0xC2 ≤ b ∧ b ≤ 0xDF) := fun h => by
    have := UInt8.le_iff_toNat_le.mp h.2
    have : (0xDF : UInt8).toNat = 0xDF := rfl
    omega
  rw [fromUtf8Lossy.eq_def]
  dsimp only
  rw [if_neg hascii, if_neg htwo,
    if_pos ⟨UInt8.le_iff_toNat_le.mpr hb.1, UInt8.le_iff_toNat_le.mpr hb.2⟩, if_pos hc, if_pos hd]

theorem lossy_four {b c d e : UInt8} (hb : 0xF0 ≤ b.toNat ∧ b.toNat ≤ 0xF4)
    (hc : second4 b c = true) (hd : isCont d = true) (he : isCont e = true) (rest : List UInt8) :
    fromUtf8Lossy (b :: c :: d :: e :: rest) =
      assemble (b.toNat % 8) [c, d, e] :: fromUtf8Lossy rest := by
  have hascii : ¬ b < 0x80 := fun h => by
    have := UInt8.lt_iff_toNat_lt.mp h
    have : (0x80 : UInt8).toNat = 0x80 := rfl
    omega
  have htwo : ¬ (0xC2 ≤ b ∧ b ≤ 0xDF) := fun h => by
    have := UInt8.le_iff_toNat_le.mp h.2
    have : (0xDF : UInt8).toNat = 0xDF := rfl
    omega
  have hthree : ¬ (0xE0 ≤ b ∧ b ≤ 0xEF) := fun h => by
    have := UInt8.le_iff_toNat_le.mp h.2
    have : (0xEF : UInt8).toNat = 0xEF := rfl
    omega
  rw [fromUtf8Lossy.eq_def]
  dsimp only
  rw [if_neg hascii, if_neg htwo, if_neg hthree,
    if_pos ⟨UInt8.le_iff_toNat_le.mpr hb.1, UInt8.le_iff_toNat_le.mpr hb.2⟩, if_pos hc, if_pos hd,
    if_pos he]

theorem toNat_ofNat_of_lt {n : Nat} (h : n < 256) : (UInt8.ofNat n).toNat = n := by
  rw [UInt8.toNat_ofNat', Nat.mod_eq_of_lt h]

theorem isCont_ofNat (n : Nat) : isCont (UInt8.ofNat (n % 64 + 0x80)) = true := by
  rw [isCont_iff, toNat_ofNat_of_lt (by omega)]
  omega

/-- The second of three bytes keeps away from overlong forms and surrogates. -/
theorem second3_ofNat {v : Nat} (hlow : 0x7FF < v) (hhigh : v ≤ 0xFFFF)
    (hscalar : v < 0xD800 ∨ 0xDFFF < v) :
    second3 (UInt8.ofNat (v / 4096 % 16 + 0xE0)) (UInt8.ofNat (v / 64 % 64 + 0x80)) = true := by
  have hfirst : (UInt8.ofNat (v / 4096 % 16 + 0xE0)).toNat = v / 4096 % 16 + 0xE0 :=
    toNat_ofNat_of_lt (by omega)
  have hsecond : (UInt8.ofNat (v / 64 % 64 + 0x80)).toNat = v / 64 % 64 + 0x80 :=
    toNat_ofNat_of_lt (by omega)
  unfold second3
  split
  · next heq =>
    rw [heq] at hfirst
    have : (0xE0 : UInt8).toNat = 0xE0 := rfl
    refine decide_eq_true ⟨UInt8.le_iff_toNat_le.mpr ?_, UInt8.le_iff_toNat_le.mpr ?_⟩
    · show 0xA0 ≤ _
      omega
    · show _ ≤ 0xBF
      omega
  split
  · next heq =>
    rw [heq] at hfirst
    have : (0xED : UInt8).toNat = 0xED := rfl
    refine decide_eq_true ⟨UInt8.le_iff_toNat_le.mpr ?_, UInt8.le_iff_toNat_le.mpr ?_⟩
    · show 0x80 ≤ _
      omega
    · show _ ≤ 0x9F
      omega
  · exact isCont_ofNat _

theorem second4_ofNat {v : Nat} (hlow : 0xFFFF < v) (hhigh : v < 0x110000) :
    second4 (UInt8.ofNat (v / 262144 % 8 + 0xF0)) (UInt8.ofNat (v / 4096 % 64 + 0x80)) = true := by
  have hfirst : (UInt8.ofNat (v / 262144 % 8 + 0xF0)).toNat = v / 262144 % 8 + 0xF0 :=
    toNat_ofNat_of_lt (by omega)
  have hsecond : (UInt8.ofNat (v / 4096 % 64 + 0x80)).toNat = v / 4096 % 64 + 0x80 :=
    toNat_ofNat_of_lt (by omega)
  unfold second4
  split
  · next heq =>
    rw [heq] at hfirst
    have : (0xF0 : UInt8).toNat = 0xF0 := rfl
    refine decide_eq_true ⟨UInt8.le_iff_toNat_le.mpr ?_, UInt8.le_iff_toNat_le.mpr ?_⟩
    · show 0x90 ≤ _
      omega
    · show _ ≤ 0xBF
      omega
  split
  · next heq =>
    rw [heq] at hfirst
    have : (0xF4 : UInt8).toNat = 0xF4 := rfl
    refine decide_eq_true ⟨UInt8.le_iff_toNat_le.mpr ?_, UInt8.le_iff_toNat_le.mpr ?_⟩
    · show 0x80 ≤ _
      omega
    · show _ ≤ 0x8F
      omega
  · exact isCont_ofNat _

/-- The bytes of a character are decoded as this character. -/
theorem lossy_encode (c : Char) (rest : List UInt8) :
    fromUtf8Lossy (String.utf8EncodeChar c ++ rest) = c :: fromUtf8Lossy rest := by
  have hscalar : c.val.toNat < 0xD800 ∨ 0xDFFF < c.val.toNat ∧ c.val.toNat < 0x110000 := c.valid
  have hchar : Char.ofNat c.val.toNat = c := Char.ofNat_toNat c
  unfold String.utf8EncodeChar
  dsimp only
  generalize c.val.toNat = v at hscalar hchar ⊢
  split
  · have hb : (UInt8.ofNat v).toNat = v := toNat_ofNat_of_lt (by omega)
    rw [List.singleton_append, lossy_one (by omega), hb, hchar]
  split
  · have hb : (UInt8.ofNat (v / 64 % 32 + 0xC0)).toNat = v / 64 % 32 + 0xC0 :=
      toNat_ofNat_of_lt (by omega)
    have hc : (UInt8.ofNat (v % 64 + 0x80)).toNat = v % 64 + 0x80 := toNat_ofNat_of_lt (by omega)
    have hvalue : (v / 64 % 32 + 0xC0) % 32 * 64 + (v % 64 + 0x80) % 64 = v := by omega
    show fromUtf8Lossy (_ :: _ :: rest) = _
    rw [lossy_two (by omega) (isCont_ofNat v)]
    simp only [assemble, List.foldl_cons, List.foldl_nil, hb, hc, hvalue, hchar]
  split
  · have hb : (UInt8.ofNat (v / 4096 % 16 + 0xE0)).toNat = v / 4096 % 16 + 0xE0 :=
      toNat_ofNat_of_lt (by omega)
    have hc : (UInt8.ofNat (v / 64 % 64 + 0x80)).toNat = v / 64 % 64 + 0x80 :=
      toNat_ofNat_of_lt (by omega)
    have hd : (UInt8.ofNat (v % 64 + 0x80)).toNat = v % 64 + 0x80 := toNat_ofNat_of_lt (by omega)
    have hvalue : ((v / 4096 % 16 + 0xE0) % 16 * 64 + (v / 64 % 64 + 0x80) % 64) * 64 +
        (v % 64 + 0x80) % 64 = v := by omega
    show fromUtf8Lossy (_ :: _ :: _ :: rest) = _
    rw [lossy_three (by omega) (second3_ofNat (by omega) (by omega) (by omega)) (isCont_ofNat v)]
    simp only [assemble, List.foldl_cons, List.foldl_nil, hb, hc, hd, hvalue, hchar]
  · have hb : (UInt8.ofNat (v / 262144 % 8 + 0xF0)).toNat = v / 262144 % 8 + 0xF0 :=
      toNat_ofNat_of_lt (by omega)
    have hc : (UInt8.ofNat (v / 4096 % 64 + 0x80)).toNat = v / 4096 % 64 + 0x80 :=
      toNat_ofNat_of_lt (by omega)
    have hd : (UInt8.ofNat (v / 64 % 64 + 0x80)).toNat = v / 64 % 64 + 0x80 :=
      toNat_ofNat_of_lt (by omega)
    have he : (UInt8.ofNat (v % 64 + 0x80)).toNat = v % 64 + 0x80 := toNat_ofNat_of_lt (by omega)
    have hvalue : (((v / 262144 % 8 + 0xF0) % 8 * 64 + (v / 4096 % 64 + 0x80) % 64) * 64 +
        (v / 64 % 64 + 0x80) % 64) * 64 + (v % 64 + 0x80) % 64 = v := by omega
    show fromUtf8Lossy (_ :: _ :: _ :: _ :: rest) = _
    rw [lossy_four (by omega) (second4_ofNat (by omega) (by omega)) (isCont_ofNat _)
      (isCont_ofNat v)]
    simp only [assemble, List.foldl_cons, List.foldl_nil, hb, hc, hd, he, hvalue, hchar]

theorem toNat_ofNat_scalar {n : Nat} (h : n < 0xD800 ∨ 0xDFFF < n ∧ n < 0x110000) :
    (Char.ofNat n).toNat = n := by
  have hvalid : n.isValidChar := h
  unfold Char.ofNat
  rw [dif_pos hvalid]
  rfl

theorem encode_ascii {n : Nat} (h : n < 0x80) :
    String.utf8EncodeChar (Char.ofNat n) = [UInt8.ofNat n] := by
  have hval : (Char.ofNat n).val.toNat = n := toNat_ofNat_scalar (Or.inl (by omega))
  unfold String.utf8EncodeChar
  dsimp only
  rw [hval, if_pos (by omega)]

theorem length_lossy_encode_le (c : Char) (rest : List UInt8) :
    (fromUtf8Lossy (String.utf8EncodeChar c ++ rest)).length ≤
      (fromUtf8Lossy rest).length + 1 :=
  Nat.le_of_eq (by rw [lossy_encode, List.length_cons])

/-- The bytes of a text are decoded as the text. -/
theorem lossy_utf8 (s : String) : fromUtf8Lossy (utf8 s) = s.toList := by
  unfold utf8
  induction s.toList with
  | nil => rfl
  | cons c cs ih => rw [List.flatMap_cons, lossy_encode, ih]

theorem utf8_injective {s s' : String} (h : utf8 s = utf8 s') : s = s' := by
  have hlossy := congrArg fromUtf8Lossy h
  rw [lossy_utf8, lossy_utf8] at hlossy
  exact String.toList_inj.mp hlossy

/-! ## Escapes -/

/-- Only `%` starts an escape. -/
theorem percentDecode_cons_of_ne {b : UInt8} (h : b ≠ 0x25) (rest : List UInt8) :
    percentDecode (b :: rest) = b :: percentDecode rest := by
  match rest with
  | [] => rfl
  | [_] => rfl
  | _ :: _ :: _ => rw [percentDecode, if_neg h]

/-- A `%` stays, or stands for a byte together with two digits. -/
theorem percentDecode_percent (rest : List UInt8) :
    percentDecode (0x25 :: rest) = 0x25 :: percentDecode rest ∨
      ∃ h l tail b, rest = h :: l :: tail ∧ (hexValue h).isSome = true ∧
        (hexValue l).isSome = true ∧ percentDecode (0x25 :: rest) = b :: percentDecode tail := by
  match rest with
  | [] => exact Or.inl rfl
  | [_] => exact Or.inl rfl
  | h :: l :: tail =>
    rw [percentDecode, if_pos rfl]
    cases hh : hexValue h with
    | none => exact Or.inl rfl
    | some x =>
      cases hl : hexValue l with
      | none => exact Or.inl rfl
      | some y => exact Or.inr ⟨h, l, tail, _, rfl, by rw [hh]; rfl, by rw [hl]; rfl, rfl⟩

theorem percentDecode_append {bs : List UInt8} (h : ∀ b ∈ bs, b ≠ 0x25) (rest : List UInt8) :
    percentDecode (bs ++ rest) = bs ++ percentDecode rest := by
  induction bs with
  | nil => rfl
  | cons b bs ih =>
    rw [List.cons_append, percentDecode_cons_of_ne (h b List.mem_cons_self),
      ih fun b' hb' => h b' (List.mem_cons_of_mem _ hb')]
    rfl

theorem hexValue_lt {b : UInt8} (h : (hexValue b).isSome = true) : b.toNat < 0x80 := by
  unfold hexValue at h
  dsimp only at h
  split at h
  · omega
  split at h
  · omega
  split at h
  · omega
  · cases h

/-- The first byte of a character tells whether it is the only one; `%` has one. -/
theorem encode_cases (c : Char) :
    (∃ b, String.utf8EncodeChar c = [b] ∧ b.toNat < 0x80) ∨
      ∃ b bs, String.utf8EncodeChar c = b :: bs ∧ ∀ b' ∈ b :: bs, 0x80 ≤ b'.toNat := by
  have hscalar : c.val.toNat < 0xD800 ∨ 0xDFFF < c.val.toNat ∧ c.val.toNat < 0x110000 := c.valid
  unfold String.utf8EncodeChar
  dsimp only
  generalize c.val.toNat = v at hscalar ⊢
  have hhigh : ∀ n, 0x80 ≤ n → n < 256 → 0x80 ≤ (UInt8.ofNat n).toNat := fun n hlow hlt => by
    rw [toNat_ofNat_of_lt hlt]
    exact hlow
  split
  · exact Or.inl ⟨_, rfl, by rw [toNat_ofNat_of_lt (by omega)]; omega⟩
  split
  · refine Or.inr ⟨_, _, rfl, ?_⟩
    intro b' hb'
    simp only [List.mem_cons, List.not_mem_nil, or_false] at hb'
    rcases hb' with rfl | rfl
    all_goals exact hhigh _ (by omega) (by omega)
  split
  · refine Or.inr ⟨_, _, rfl, ?_⟩
    intro b' hb'
    simp only [List.mem_cons, List.not_mem_nil, or_false] at hb'
    rcases hb' with rfl | rfl | rfl
    all_goals exact hhigh _ (by omega) (by omega)
  · refine Or.inr ⟨_, _, rfl, ?_⟩
    intro b' hb'
    simp only [List.mem_cons, List.not_mem_nil, or_false] at hb'
    rcases hb' with rfl | rfl | rfl | rfl
    all_goals exact hhigh _ (by omega) (by omega)

/-- A byte of a digit in front of a text is its first character. -/
theorem chars_of_low_byte {cs : List Char} {b : UInt8} {bs : List UInt8} (hb : b.toNat < 0x80)
    (h : cs.flatMap String.utf8EncodeChar = b :: bs) :
    ∃ c cs', cs = c :: cs' ∧ bs = cs'.flatMap String.utf8EncodeChar := by
  cases cs with
  | nil => cases h
  | cons c cs =>
    refine ⟨c, cs, rfl, ?_⟩
    rw [List.flatMap_cons] at h
    rcases encode_cases c with ⟨b', heq, -⟩ | ⟨b', bs', heq, hhigh⟩
    · rw [heq] at h
      exact (List.cons.inj h).2.symm
    · rw [heq] at h
      have hsame := (List.cons.inj h).1
      have := hhigh b' List.mem_cons_self
      rw [hsame] at this
      omega

/-- Decoding a text makes it no longer. -/
theorem length_decoded_le (n : Nat) (cs : List Char) (hn : cs.length ≤ n) :
    (fromUtf8Lossy (percentDecode (cs.flatMap String.utf8EncodeChar))).length ≤ cs.length := by
  induction n generalizing cs with
  | zero =>
    rw [List.length_eq_zero_iff.mp (Nat.le_zero.mp hn)]
    exact Nat.le_refl 0
  | succ n ih =>
    cases cs with
    | nil => exact Nat.le_refl 0
    | cons c cs =>
      rw [List.length_cons] at hn
      have hrest := ih cs (by omega)
      rw [List.flatMap_cons, List.length_cons]
      rcases encode_cases c with ⟨b, heq, -⟩ | ⟨b, bs, heq, hhigh⟩
      · rw [heq, List.singleton_append]
        by_cases hb : b = 0x25
        · rw [hb]
          rcases percentDecode_percent (cs.flatMap String.utf8EncodeChar) with
            hstays | ⟨h, l, tail, d, hbytes, hh, hl, hdecoded⟩
          · rw [hstays]
            have := length_lossy_cons_le 0x25
              (percentDecode (cs.flatMap String.utf8EncodeChar))
            omega
          · -- the two digits are characters of the text
            obtain ⟨x, cs', rfl, hbytes'⟩ := chars_of_low_byte (hexValue_lt hh) hbytes
            obtain ⟨y, cs'', rfl, htail⟩ := chars_of_low_byte (hexValue_lt hl) hbytes'.symm
            rw [hdecoded, htail]
            simp only [List.length_cons] at hn ⊢
            have := ih cs'' (by omega)
            have := length_lossy_cons_le d (percentDecode (cs''.flatMap String.utf8EncodeChar))
            omega
        · rw [percentDecode_cons_of_ne hb]
          have := length_lossy_cons_le b (percentDecode (cs.flatMap String.utf8EncodeChar))
          omega
      · have hne : ∀ b' ∈ String.utf8EncodeChar c, b' ≠ 0x25 := by
          rw [heq]
          intro b' hb' heq'
          have := hhigh b' hb'
          rw [heq'] at this
          exact absurd this (by decide)
        rw [percentDecode_append hne]
        have := length_lossy_encode_le c (percentDecode (cs.flatMap String.utf8EncodeChar))
        omega

theorem length_percentDecodeStr_le (s : String) :
    (percentDecodeStr s).toList.length ≤ s.toList.length := by
  unfold percentDecodeStr utf8
  rw [String.toList_ofList]
  exact length_decoded_le _ s.toList (Nat.le_refl _)

/-- An ASCII byte is in a text only as its character. -/
theorem mem_of_low_mem_utf8 {s : String} {b : UInt8} (hlow : b.toNat < 0x80) (h : b ∈ utf8 s) :
    Char.ofNat b.toNat ∈ s.toList := by
  unfold utf8 at h
  obtain ⟨c, hc, hb⟩ := List.mem_flatMap.mp h
  rcases encode_cases c with ⟨b', heq, -⟩ | ⟨b', bs, heq, hhigh⟩
  · rw [heq, List.mem_singleton] at hb
    have hchar := lossy_encode c []
    rw [heq, ← hb, List.singleton_append, lossy_one hlow] at hchar
    rw [(List.cons.inj hchar).1]
    exact hc
  · rw [heq] at hb
    have := hhigh b hb
    omega

end Mik.Lib
