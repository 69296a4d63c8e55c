/-
  Percent-encoding of texts, the inverse of `percentDecode`.

  An `EncodeSet` says which bytes an encoder leaves as they are; the others become escapes. The
  bytes of a text come back from its encoding (`percentDecode_percentEncode`), so an encoded path
  has as many names as the path (`percentEncode_pathOfNames`), and it is the path itself only if
  nothing had to be encoded (`percentEncode_eq_self_iff`).
-/
import Mik.Lib.Decoding
import Mik.Lib.UnixPath

namespace Mik.Lib

structure EncodeSet where
  keep : UInt8 → Bool
  ascii : ∀ b, keep b = true → b.toNat < 0x80
  percent : keep 0x25 = false
  slash : keep 0x2F = true

/-- A hexadecimal digit in upper case. -/
def escapeDigit (n : Nat) : Char := Char.ofNat (if n < 10 then 0x30 + n else 0x37 + n)

def encodeByte (set : EncodeSet) (b : UInt8) : List Char :=
  if set.keep b then [Char.ofNat b.toNat]
  else ['%', escapeDigit (b.toNat / 16), escapeDigit (b.toNat % 16)]

def percentEncode (set : EncodeSet) (s : String) : String :=
  String.ofList ((utf8 s).flatMap (encodeByte set))

/-- What a path may hold as it is: unreserved characters, delimiters, `:`, `@` and `/`. -/
def pathSet : EncodeSet where
  keep b := decide (b.toNat < 0x80) && ((Char.ofNat b.toNat).isAlphanum ||
    containsChar (Char.ofNat b.toNat) "-._~!$&'()*+,;=:@/")
  ascii := fun b h => of_decide_eq_true (Bool.and_eq_true_iff.mp h).1
  percent := by decide
  slash := by decide

example : percentEncode pathSet "docs/a b%.txt" = "docs/a%20b%25.txt" := by decide

/-! ## The bytes of an encoded text -/

theorem utf8EncodeChar_escapeDigit : ∀ n < 16,
    String.utf8EncodeChar (escapeDigit n) = [UInt8.ofNat (escapeDigit n).toNat] ∧
      hexValue (UInt8.ofNat (escapeDigit n).toNat) = some n ∧ escapeDigit n ≠ '/' := by
  decide

/-- An escape that was encoded is one byte again. -/
theorem percentDecode_encodeByte (set : EncodeSet) (b : UInt8) (rest : List UInt8) :
    percentDecode ((encodeByte set b).flatMap String.utf8EncodeChar ++ rest) =
      b :: percentDecode rest := by
  have hlt : b.toNat < 256 := b.toNat_lt
  unfold encodeByte
  split
  · next hkeep =>
    have hne : b ≠ 0x25 := by
      rintro rfl
      rw [set.percent] at hkeep
      cases hkeep
    rw [List.flatMap_singleton, encode_ascii (set.ascii b hkeep), UInt8.ofNat_toNat,
      List.singleton_append, percentDecode_cons_of_ne hne]
  · obtain ⟨hhigh, hx, -⟩ := utf8EncodeChar_escapeDigit (b.toNat / 16) (by omega)
    obtain ⟨hlow, hy, -⟩ := utf8EncodeChar_escapeDigit (b.toNat % 16) (by omega)
    have hpercent : String.utf8EncodeChar '%' = [0x25] := by decide
    have hbyte : 16 * (b.toNat / 16) + b.toNat % 16 = b.toNat := by omega
    simp only [List.flatMap_cons, List.flatMap_nil, List.append_nil, hpercent, hhigh, hlow,
      List.cons_append, List.nil_append]
    rw [percentDecode, if_pos rfl, hx, hy]
    dsimp only
    rw [hbyte, UInt8.ofNat_toNat]

/-- Decoding gives back the bytes that were encoded. -/
theorem percentDecode_percentEncode (set : EncodeSet) (s : String) :
    percentDecode (utf8 (percentEncode set s)) = utf8 s := by
  unfold percentEncode
  rw [utf8_ofList]
  induction utf8 s with
  | nil => rfl
  | cons b bs ih => rw [List.flatMap_cons, List.flatMap_append, percentDecode_encodeByte, ih]

theorem percentEncode_append (set : EncodeSet) (s s' : String) :
    percentEncode set (s ++ s') = percentEncode set s ++ percentEncode set s' := by
  refine String.toList_inj.mp ?_
  unfold percentEncode
  rw [utf8_append, List.flatMap_append, String.toList_append, String.toList_ofList,
    String.toList_ofList, String.toList_ofList]

/-! ## What an encoding changes -/

theorem length_le_encoded (set : EncodeSet) (bs : List UInt8) :
    bs.length ≤ (bs.flatMap (encodeByte set)).length := by
  induction bs with
  | nil => exact Nat.le_refl 0
  | cons b bs ih =>
    have hone : 1 ≤ (encodeByte set b).length := by
      unfold encodeByte
      split
      · exact Nat.le_refl 1
      · simp
    rw [List.flatMap_cons, List.length_append, List.length_cons]
    omega

/-- An encoding with as many characters as there are bytes escaped none of them. -/
theorem keep_of_length {set : EncodeSet} {bs : List UInt8}
    (h : (bs.flatMap (encodeByte set)).length ≤ bs.length) : ∀ b ∈ bs, set.keep b = true := by
  induction bs with
  | nil => exact fun b hb => absurd hb List.not_mem_nil
  | cons b bs ih =>
    have hrest := length_le_encoded set bs
    rw [List.flatMap_cons, List.length_append, List.length_cons] at h
    by_cases hkeep : set.keep b = true
    · have hone : (encodeByte set b).length = 1 := by simp [encodeByte, hkeep]
      have htail := ih (by omega)
      intro b' hb'
      rcases List.mem_cons.mp hb' with rfl | hb'
      · exact hkeep
      · exact htail b' hb'
    · have hthree : (encodeByte set b).length = 3 := by simp [encodeByte, hkeep]
      omega

theorem length_toList_le_utf8 (cs : List Char) :
    cs.length ≤ (cs.flatMap String.utf8EncodeChar).length := by
  induction cs with
  | nil => exact Nat.le_refl 0
  | cons c cs ih =>
    have hone : 1 ≤ (String.utf8EncodeChar c).length := by
      rcases encode_cases c with ⟨b, heq, -⟩ | ⟨b, bs, heq, -⟩
      · rw [heq]
        exact Nat.le_refl 1
      · rw [heq, List.length_cons]
        omega
    rw [List.flatMap_cons, List.length_append, List.length_cons]
    omega

/-- Bytes that are kept are the bytes of their characters. -/
theorem encoded_of_keep {set : EncodeSet} {bs : List UInt8} (h : ∀ b ∈ bs, set.keep b = true) :
    (bs.flatMap (encodeByte set)).flatMap String.utf8EncodeChar = bs := by
  induction bs with
  | nil => rfl
  | cons b bs ih =>
    have hkeep := h b List.mem_cons_self
    have hbyte : encodeByte set b = [Char.ofNat b.toNat] := by simp [encodeByte, hkeep]
    rw [List.flatMap_cons, List.flatMap_append, ih fun b' hb' => h b' (List.mem_cons_of_mem _ hb'),
      hbyte, List.flatMap_singleton, encode_ascii (set.ascii b hkeep), UInt8.ofNat_toNat]
    rfl

/-- Only a text all of whose bytes are kept is its own encoding. -/
theorem percentEncode_eq_self_iff {set : EncodeSet} {s : String} :
    percentEncode set s = s ↔ ∀ b ∈ utf8 s, set.keep b = true := by
  constructor
  · intro h
    refine keep_of_length ?_
    have hlength := congrArg (fun t => t.toList.length) h
    have hbytes := length_toList_le_utf8 s.toList
    unfold percentEncode at hlength
    rw [String.toList_ofList] at hlength
    rw [hlength]
    exact hbytes
  · intro h
    refine utf8_injective ?_
    unfold percentEncode
    rw [utf8_ofList, encoded_of_keep h]

/-! ## Encoded paths -/

theorem slash_mem_of_encoded {set : EncodeSet} {s : String}
    (h : '/' ∈ (percentEncode set s).toList) : '/' ∈ s.toList := by
  refine @mem_of_low_mem_utf8 s 0x2F (by decide) ?_
  unfold percentEncode at h
  rw [String.toList_ofList] at h
  obtain ⟨b, hb, hslash⟩ := List.mem_flatMap.mp h
  have hlt : b.toNat < 256 := b.toNat_lt
  unfold encodeByte at hslash
  split at hslash
  · next hkeep =>
    have hbyte := encode_ascii (set.ascii b hkeep)
    rw [← List.mem_singleton.mp hslash, UInt8.ofNat_toNat] at hbyte
    obtain ⟨rfl, -⟩ := List.cons.inj hbyte
    exact hb
  · have hhigh := (utf8EncodeChar_escapeDigit (b.toNat / 16) (by omega)).2.2
    have hlow := (utf8EncodeChar_escapeDigit (b.toNat % 16) (by omega)).2.2
    simp [Ne.symm hhigh, Ne.symm hlow] at hslash

/-- An encoded name is a name. -/
theorem plain_percentEncode (set : EncodeSet) {name : String} (h : Plain name) :
    Plain (percentEncode set name) := by
  have hdecoded := percentDecode_percentEncode set name
  have hother : ∀ other : String, percentDecode (utf8 other) = utf8 other → name ≠ other →
      percentEncode set name ≠ other := by
    intro other hdecode hne heq
    rw [heq, hdecode] at hdecoded
    exact hne (utf8_injective hdecoded).symm
  exact {
    noSlash := fun hslash => h.noSlash (slash_mem_of_encoded hslash)
    nonempty := hother "" (by decide) h.nonempty
    notDot := hother "." (by decide) h.notDot
    notDotDot := hother ".." (by decide) h.notDotDot }

/-- The names of a path are encoded one by one. -/
theorem percentEncode_pathOfNames (set : EncodeSet) {names : List String}
    (h : ∀ name ∈ names, Plain name) :
    percentEncode set (pathOfNames names) = pathOfNames (names.map (percentEncode set)) := by
  have hencoded : ∀ name ∈ names.map (percentEncode set), Plain name := by
    intro name hname
    obtain ⟨name', hname', rfl⟩ := List.mem_map.mp hname
    exact plain_percentEncode set (h name' hname')
  have hslash : percentEncode set "/" = "/" := by
    rw [percentEncode_eq_self_iff]
    intro b hb
    rw [show utf8 "/" = [0x2F] by decide, List.mem_singleton] at hb
    rw [hb]
    exact set.slash
  rw [pathOfNames_eq_intercalate h, pathOfNames_eq_intercalate hencoded]
  clear h hencoded
  induction names with
  | nil => rfl
  | cons name names ih =>
    cases names with
    | nil => rfl
    | cons name' names =>
      rw [List.map_cons, List.map_cons, String.intercalate_cons_cons,
        String.intercalate_cons_cons, percentEncode_append, percentEncode_append, hslash, ih]
      rfl

end Mik.Lib
