/-
  Header values as text (`HeaderValue::to_str`).

  A value is any bytes but control characters; as text it can be read when all of them are visible
  ASCII, blanks or tabs. Reading loses nothing: the text has the bytes of the value.
-/
import Mik.Lib.Decoding
import Mik.Runtime.Http

namespace Mik.Runtime

open Mik.Lib

/-- A byte that `to_str` accepts. -/
def TextByte (b : UInt8) : Prop := (0x20 ≤ b ∧ b < 0x7F) ∨ b = 0x09

instance (b : UInt8) : Decidable (TextByte b) := inferInstanceAs (Decidable (_ ∨ _))

/-- A value that can be read as text. -/
def Readable (value : Bytes) : Prop := ∀ b ∈ value, TextByte b

instance (value : Bytes) : Decidable (Readable value) :=
  inferInstanceAs (Decidable (∀ b ∈ value, TextByte b))

theorem headerToStr_eq (value : Bytes) :
    headerToStr value =
      if Readable value then some (String.ofList (value.map Char.ofUInt8)) else none := by
  unfold headerToStr
  have hiff : (value.all fun b => (0x20 ≤ b && b < 0x7F) || b == 0x09) = true ↔
      Readable value := by
    simp [Readable, TextByte]
  by_cases h : Readable value
  · rw [if_pos h, if_pos (hiff.mpr h)]
  · rw [if_neg h, if_neg fun hall => h (hiff.mp hall)]

theorem TextByte.lt {b : UInt8} (h : TextByte b) : b.toNat < 0x80 := by
  rcases h with ⟨-, hlt⟩ | rfl
  · have hval : b.toNat < (0x7F : UInt8).toNat := hlt
    have : (0x7F : UInt8).toNat = 0x7F := rfl
    omega
  · decide

theorem ofUInt8_eq (b : UInt8) : Char.ofUInt8 b = Char.ofNat b.toNat := by
  refine Char.ext (UInt32.toNat_inj.mp ?_)
  have hvalid : b.toNat.isValidChar := Or.inl (Nat.lt_of_lt_of_le b.toNat_lt (by decide))
  rw [Char.ofNat, dif_pos hvalid]
  exact rfl

/-- The text has the bytes of the value. -/
theorem utf8_of_readable {value : Bytes} (h : Readable value) :
    utf8 (String.ofList (value.map Char.ofUInt8)) = value := by
  rw [utf8_ofList]
  induction value with
  | nil => rfl
  | cons b value ih =>
    have hb := (h b List.mem_cons_self).lt
    rw [List.map_cons, List.flatMap_cons, ofUInt8_eq, encode_ascii hb,
      ih fun b' hb' => h b' (List.mem_cons_of_mem _ hb')]
    rw [UInt8.ofNat_toNat]
    rfl

theorem utf8_of_headerToStr {value : Bytes} {s : String} (h : headerToStr value = some s) :
    utf8 s = value := by
  rw [headerToStr_eq] at h
  split at h
  · next hreadable =>
    rw [← Option.some.inj h]
    exact utf8_of_readable hreadable
  · cases h

/-- A text of such characters is a value that reads as the text. -/
theorem headerToStr_utf8 {s : String}
    (h : ∀ c ∈ s.toList, c.toNat < 0x80 ∧ TextByte (UInt8.ofNat c.toNat)) :
    headerToStr (utf8 s) = some s := by
  have hreadable : Readable (utf8 s) := by
    intro b hb
    obtain ⟨c, hc, hbyte⟩ := List.mem_flatMap.mp hb
    obtain ⟨hlow, htext⟩ := h c hc
    have hencode := encode_ascii hlow
    rw [Char.ofNat_toNat] at hencode
    rw [hencode] at hbyte
    rw [List.mem_singleton.mp hbyte]
    exact htext
  rw [headerToStr_eq, if_pos hreadable]
  exact congrArg some (utf8_injective (utf8_of_readable hreadable))

/-- Where reading fails, the empty text stands for the value: it is not the value then. -/
theorem utf8_getD_iff (value : Bytes) :
    utf8 ((headerToStr value).getD "") = value ↔ Readable value := by
  rw [headerToStr_eq]
  by_cases h : Readable value
  · rw [if_pos h]
    exact ⟨fun _ => h, fun _ => utf8_of_readable h⟩
  · rw [if_neg h]
    refine ⟨fun heq => ?_, fun hreadable => absurd hreadable h⟩
    have hempty : value = [] := heq.symm
    rw [hempty]
    intro b hb
    cases hb

end Mik.Runtime
