/-
  Hexadecimal digits in texts.

  A text of hexadecimal digits is ASCII, so it has as many bytes as characters
  (`HexOf.utf8ByteSize`), and lowering its case keeps what each digit stands for. `hexText` writes
  bytes in digits, two for each, so the bytes can be read off again (`hexText_injective`).
-/
import Mik.Lib.HostName

namespace Mik.Lib

/-- `char::to_digit(16)`. -/
def toDigit16 (c : Char) : Option Nat :=
  if 0x30 ≤ c.toNat ∧ c.toNat ≤ 0x39 then some (c.toNat - 0x30)
  else if 0x41 ≤ c.toNat ∧ c.toNat ≤ 0x46 then some (c.toNat - 0x37)
  else if 0x61 ≤ c.toNat ∧ c.toNat ≤ 0x66 then some (c.toNat - 0x57)
  else none

/-- `char::is_ascii_hexdigit`. -/
def isAsciiHexdigit (c : Char) : Bool := (toDigit16 c).isSome

/-- The number that digits write, if they are digits. -/
def digitsValue (cs : List Char) : Option Nat :=
  cs.foldlM (fun n c => (toDigit16 c).map fun d => 16 * n + d) 0

/-- A text of `n` hexadecimal digits. -/
structure HexOf (n : Nat) (s : String) : Prop where
  length : s.toList.length = n
  digits : ∀ c ∈ s.toList, isAsciiHexdigit c = true

instance (n : Nat) (s : String) : Decidable (HexOf n s) :=
  decidable_of_iff (s.toList.length = n ∧ s.toList.all isAsciiHexdigit = true)
    ⟨fun h => ⟨h.1, List.all_eq_true.mp h.2⟩, fun h => ⟨h.length, List.all_eq_true.mpr h.digits⟩⟩

theorem isAsciiHexdigit_iff {c : Char} :
    isAsciiHexdigit c = true ↔ (0x30 ≤ c.toNat ∧ c.toNat ≤ 0x39) ∨
      (0x41 ≤ c.toNat ∧ c.toNat ≤ 0x46) ∨ (0x61 ≤ c.toNat ∧ c.toNat ≤ 0x66) := by
  unfold isAsciiHexdigit toDigit16
  split
  · next h => simp [h]
  split
  · next h => simp [h]
  split
  · next h => simp [h]
  · next h h' h'' => simp [h, h', h'']

theorem toDigit16_lt {c : Char} {d : Nat} (h : toDigit16 c = some d) : d < 16 := by
  unfold toDigit16 at h
  split at h
  · cases h
    omega
  split at h
  · cases h
    omega
  split at h
  · cases h
    omega
  · cases h

theorem lt_of_isAsciiHexdigit {c : Char} (h : isAsciiHexdigit c = true) : c.toNat < 0x80 := by
  have := isAsciiHexdigit_iff.mp h
  omega

/-- A text of ASCII characters has as many bytes as characters. -/
theorem utf8ByteSize_of_ascii {cs : List Char} (h : ∀ c ∈ cs, c.toNat < 0x80) :
    (String.ofList cs).utf8ByteSize = cs.length := by
  induction cs with
  | nil => rfl
  | cons c cs ih =>
    have hsize : c.utf8Size = 1 := by
      have hc := h c List.mem_cons_self
      have hle : c.val ≤ 0x7F := UInt32.le_iff_toNat_le.mpr (Nat.lt_succ_iff.mp hc)
      exact Char.utf8Size_eq_one_iff.mpr hle
    rw [← List.singleton_append, String.ofList_append, String.utf8ByteSize_append,
      ih fun c' hc' => h c' (List.mem_cons_of_mem _ hc'), List.length_append,
      List.length_singleton]
    have hone : (String.ofList [c]).utf8ByteSize = c.utf8Size := String.utf8ByteSize_singleton
    rw [hone, hsize]

theorem HexOf.utf8ByteSize {n : Nat} {s : String} (h : HexOf n s) : s.utf8ByteSize = n := by
  have hsize := utf8ByteSize_of_ascii fun c hc => lt_of_isAsciiHexdigit (h.digits c hc)
  rw [String.ofList_toList, h.length] at hsize
  exact hsize

/-- A text of hexadecimal digits is told by its bytes. -/
theorem hexOf_iff {n : Nat} {s : String} :
    HexOf n s ↔ s.utf8ByteSize = n ∧ s.toList.all isAsciiHexdigit = true := by
  rw [List.all_eq_true]
  constructor
  · intro h
    exact ⟨h.utf8ByteSize, h.digits⟩
  · rintro ⟨hsize, hdigits⟩
    have hbytes := utf8ByteSize_of_ascii fun c hc => lt_of_isAsciiHexdigit (hdigits c hc)
    rw [String.ofList_toList, hsize] at hbytes
    exact ⟨hbytes.symm, hdigits⟩

theorem HexOf.notMem {n : Nat} {s : String} (h : HexOf n s) {c : Char}
    (hc : isAsciiHexdigit c = false) : c ∉ s.toList := by
  intro hmem
  rw [h.digits c hmem] at hc
  cases hc

/-! ## Case -/

theorem toNat_toLower_of_upper {c : Char} (h : 0x41 ≤ c.toNat ∧ c.toNat ≤ 0x5A) :
    c.toLower.toNat = c.toNat + 0x20 := by
  unfold Char.toLower
  have h32 : ('a'.val - 'A'.val).toNat = 32 := by decide
  split
  · unfold Char.toNat at h ⊢
    rw [UInt32.toNat_add, h32]
    exact Nat.mod_eq_of_lt (by omega)
  · next hno =>
    exact absurd ⟨UInt32.le_iff_toNat_le.mpr h.1, UInt32.le_iff_toNat_le.mpr h.2⟩ hno

theorem toLower_of_not_upper {c : Char} (h : ¬ (0x41 ≤ c.toNat ∧ c.toNat ≤ 0x5A)) :
    c.toLower = c := by
  unfold Char.toLower
  split
  · next hupper => exact absurd ⟨UInt32.le_iff_toNat_le.mp hupper.1,
      UInt32.le_iff_toNat_le.mp hupper.2⟩ h
  · rfl

/-- Lowering the case keeps the digits. -/
theorem isAsciiHexdigit_toLower {c : Char} (h : isAsciiHexdigit c = true) :
    isAsciiHexdigit c.toLower = true := by
  by_cases hupper : 0x41 ≤ c.toNat ∧ c.toNat ≤ 0x5A
  · have hc := isAsciiHexdigit_iff.mp h
    rw [isAsciiHexdigit_iff, toNat_toLower_of_upper hupper]
    omega
  · rw [toLower_of_not_upper hupper]
    exact h

theorem toLower_toLower (c : Char) : c.toLower.toLower = c.toLower := by
  by_cases hupper : 0x41 ≤ c.toNat ∧ c.toNat ≤ 0x5A
  · refine toLower_of_not_upper ?_
    rw [toNat_toLower_of_upper hupper]
    omega
  · rw [toLower_of_not_upper hupper, toLower_of_not_upper hupper]

theorem toAsciiLowercase_idem (s : String) :
    toAsciiLowercase (toAsciiLowercase s) = toAsciiLowercase s := by
  refine String.toList_inj.mp ?_
  rw [toList_toAsciiLowercase, toList_toAsciiLowercase, List.map_map]
  exact List.map_congr_left fun c _ => toLower_toLower c

theorem HexOf.toAsciiLowercase {n : Nat} {s : String} (h : HexOf n s) :
    HexOf n (toAsciiLowercase s) := by
  constructor
  · rw [toList_toAsciiLowercase, List.length_map]
    exact h.length
  · intro c hc
    rw [toList_toAsciiLowercase] at hc
    obtain ⟨c', hc', rfl⟩ := List.mem_map.mp hc
    exact isAsciiHexdigit_toLower (h.digits c' hc')

/-! ## Bytes in digits -/

/-- The two digits of a byte, in lower case. -/
def hexByte (n : Nat) : List Char :=
  [Nat.digitChar (n / 16 % 16), Nat.digitChar (n % 16)]

/-- Bytes in lower-case digits, `{:02x}` each. -/
def hexText (bytes : List UInt8) : String :=
  String.ofList (bytes.flatMap fun b => hexByte b.toNat)

theorem hexByte_digits (n : Nat) :
    ∀ c ∈ hexByte n, isAsciiHexdigit c = true ∧ c.toLower = c := by
  have hdigit : ∀ d < 16, isAsciiHexdigit (Nat.digitChar d) = true ∧
      (Nat.digitChar d).toLower = Nat.digitChar d := by decide
  intro c hc
  rcases List.mem_cons.mp hc with rfl | hc
  · exact hdigit _ (Nat.mod_lt _ (by decide))
  · rw [List.mem_singleton.mp hc]
    exact hdigit _ (Nat.mod_lt _ (by decide))

theorem toList_hexText (bytes : List UInt8) :
    (hexText bytes).toList = bytes.flatMap fun b => hexByte b.toNat := String.toList_ofList

theorem hexText_injective {bytes bytes' : List UInt8} (h : hexText bytes = hexText bytes') :
    bytes = bytes' := by
  have hdigit : ∀ d < 16, ∀ d' < 16, Nat.digitChar d = Nat.digitChar d' → d = d' := by decide
  have hlist := congrArg String.toList h
  rw [toList_hexText, toList_hexText] at hlist
  clear h
  induction bytes generalizing bytes' with
  | nil =>
    cases bytes' with
    | nil => rfl
    | cons b' bytes' => nomatch hlist
  | cons b bytes ih =>
    cases bytes' with
    | nil => nomatch hlist
    | cons b' bytes' =>
      -- two digits for each byte
      obtain ⟨hhigh, htail⟩ := List.cons.inj hlist
      obtain ⟨hlow, hrest⟩ := List.cons.inj htail
      have hb := b.toNat_lt
      have hb' := b'.toNat_lt
      have hhigh' := hdigit _ (Nat.mod_lt _ (by decide)) _ (Nat.mod_lt _ (by decide)) hhigh
      have hlow' := hdigit _ (Nat.mod_lt _ (by decide)) _ (Nat.mod_lt _ (by decide)) hlow
      have hbyte : b = b' := UInt8.toNat_inj.mp (by omega)
      rw [hbyte, ih hrest]

theorem hexText_digits {bytes : List UInt8} {c : Char} (h : c ∈ (hexText bytes).toList) :
    isAsciiHexdigit c = true ∧ c.toLower = c := by
  rw [toList_hexText] at h
  obtain ⟨b, -, hc⟩ := List.mem_flatMap.mp h
  exact hexByte_digits b.toNat c hc

theorem hexOf_hexText (bytes : List UInt8) : HexOf (2 * bytes.length) (hexText bytes) where
  length := by
    rw [toList_hexText]
    induction bytes with
    | nil => rfl
    | cons b bytes ih =>
      rw [List.flatMap_cons, List.length_append, ih, List.length_cons]
      show 2 + 2 * bytes.length = 2 * (bytes.length + 1)
      omega
  digits c hc := (hexText_digits hc).1

theorem hexText_lower (bytes : List UInt8) : toAsciiLowercase (hexText bytes) = hexText bytes := by
  refine String.toList_inj.mp ?_
  rw [toList_toAsciiLowercase]
  exact (List.map_congr_left fun c hc => (hexText_digits hc).2).trans (List.map_id _)

end Mik.Lib
