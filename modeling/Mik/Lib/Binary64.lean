/-
  Binary floating point numbers of 64 bits, by their bits.

  A finite one is an integer times 2^-1074, the step of the smallest ones: `scaled` is that integer,
  so that two values are compared without fractions, and `Denotes` compares one with an integer.
  `ofNat` is the conversion from an unsigned integer of 64 bits, to the nearest value and to the
  even one of two. It keeps the first 53 bits (`scaled_encode`), so it is exact where the bits
  behind them are zero (`ofNat_denotes_iff`).
-/
import Mathlib.Algebra.Ring.Int.Defs
import Mathlib.Algebra.Ring.Nat

namespace Mik.Lib.Binary64

def sign (bits : UInt64) : Bool := 2 ^ 63 ≤ bits.toNat

def exponent (bits : UInt64) : Nat := bits.toNat / 2 ^ 52 % 2048

def fraction (bits : UInt64) : Nat := bits.toNat % 2 ^ 52

/-- Neither an infinity nor a NaN. -/
def IsFinite (bits : UInt64) : Prop := exponent bits ≠ 2047

instance (bits : UInt64) : Decidable (IsFinite bits) := inferInstanceAs (Decidable (_ ≠ _))

/-- The absolute value, in steps of 2^-1074. -/
def magnitude (bits : UInt64) : Nat :=
  if exponent bits = 0 then fraction bits
  else (2 ^ 52 + fraction bits) * 2 ^ (exponent bits - 1)

def scaled (bits : UInt64) : Int :=
  if sign bits then -(magnitude bits : Int) else (magnitude bits : Int)

/-- The value is the integer `n`. -/
def Denotes (bits : UInt64) (n : Int) : Prop := IsFinite bits ∧ scaled bits = n * 2 ^ 1074

instance (bits : UInt64) (n : Int) : Decidable (Denotes bits n) :=
  inferInstanceAs (Decidable (_ ∧ _))

/-- `n / 2^s`, to the nearest integer and to the even one of two. -/
def roundedShift (n s : Nat) : Nat :=
  if 2 ^ s < 2 * (n % 2 ^ s) ∨ 2 * (n % 2 ^ s) = 2 ^ s ∧ n / 2 ^ s % 2 = 1 then n / 2 ^ s + 1
  else n / 2 ^ s

/-- A significand of 53 bits, doubled so many times from 2^-1074 on. One that has been rounded up to
    2^53 carries over into the exponent. -/
def encode (significand doublings : Nat) : UInt64 := .ofNat (doublings * 2 ^ 52 + significand)

/-- The conversion of an unsigned integer of 64 bits. -/
def ofNat (n : Nat) : UInt64 :=
  if n = 0 then 0
  else if n.log2 ≤ 52 then encode (n * 2 ^ (52 - n.log2)) (1022 + n.log2)
  else encode (roundedShift n (n.log2 - 52)) (1022 + n.log2)

/-- The conversion of a signed one. -/
def ofInt (i : Int) : UInt64 :=
  if i < 0 then ofNat i.natAbs + 0x8000000000000000 else ofNat i.natAbs

/-! ## Encoding -/

section

variable {significand doublings : Nat}

theorem toNat_encode (hle : significand ≤ 2 ^ 53) (hdoublings : doublings ≤ 2044) :
    (encode significand doublings).toNat = doublings * 2 ^ 52 + significand := by
  unfold encode
  rw [UInt64.toNat_ofNat']
  exact Nat.mod_eq_of_lt (by omega)

theorem scaled_encode (hge : 2 ^ 52 ≤ significand) (hle : significand ≤ 2 ^ 53)
    (hdoublings : doublings ≤ 2044) :
    IsFinite (encode significand doublings) ∧
      scaled (encode significand doublings) = (significand * 2 ^ doublings : Nat) := by
  have hbits := toNat_encode hle hdoublings
  have hsign : sign (encode significand doublings) = false := by
    unfold sign
    rw [hbits]
    exact decide_eq_false (by omega)
  unfold scaled
  rw [hsign, if_neg Bool.false_ne_true]
  unfold IsFinite magnitude exponent fraction
  rw [hbits]
  by_cases htop : significand = 2 ^ 53
  · -- the carry
    have hexponent : (doublings * 2 ^ 52 + significand) / 2 ^ 52 % 2048 = doublings + 2 := by omega
    have hfraction : (doublings * 2 ^ 52 + significand) % 2 ^ 52 = 0 := by omega
    rw [hexponent, hfraction, if_neg (by omega), htop]
    refine ⟨by omega, ?_⟩
    have hpow : (2 ^ 52 + 0) * 2 ^ (doublings + 2 - 1) = 2 ^ 53 * 2 ^ doublings := by
      rw [Nat.add_sub_assoc (by omega), Nat.pow_add]
      omega
    rw [hpow]
  · have hexponent : (doublings * 2 ^ 52 + significand) / 2 ^ 52 % 2048 = doublings + 1 := by omega
    have hfraction : (doublings * 2 ^ 52 + significand) % 2 ^ 52 = significand - 2 ^ 52 := by omega
    have hwhole : 2 ^ 52 + (significand - 2 ^ 52) = significand := by omega
    rw [hexponent, hfraction, if_neg (by omega), hwhole, Nat.add_sub_cancel]
    exact ⟨by omega, rfl⟩

end

/-! ## Rounding -/

theorem roundedShift_exact_iff (n s : Nat) : roundedShift n s * 2 ^ s = n ↔ 2 ^ s ∣ n := by
  have hpos : 0 < 2 ^ s := Nat.two_pow_pos s
  have hsplit := Nat.div_add_mod n (2 ^ s)
  constructor
  · intro h
    exact ⟨roundedShift n s, by rw [Nat.mul_comm, h]⟩
  · intro hdvd
    have hrest : n % 2 ^ s = 0 := Nat.mod_eq_zero_of_dvd hdvd
    unfold roundedShift
    rw [hrest, if_neg (by omega), Nat.mul_comm]
    rw [hrest] at hsplit
    exact hsplit

theorem roundedShift_bounds {n s low : Nat} (hge : low * 2 ^ s ≤ n) (hlt : n < 2 * low * 2 ^ s) :
    low ≤ roundedShift n s ∧ roundedShift n s ≤ 2 * low := by
  have hpos : 0 < 2 ^ s := Nat.two_pow_pos s
  have hlow : low ≤ n / 2 ^ s := (Nat.le_div_iff_mul_le hpos).mpr hge
  have hhigh : n / 2 ^ s < 2 * low := (Nat.div_lt_iff_lt_mul hpos).mpr hlt
  unfold roundedShift
  split
  · omega
  · omega

/-! ## Integers -/

theorem cast_mul_pow_inj (m n k : Nat) :
    ((m * 2 ^ k : Nat) : Int) = (n : Int) * 2 ^ k ↔ m = n := by
  have hcast : (n : Int) * 2 ^ k = ((n * 2 ^ k : Nat) : Int) := by
    rw [Int.natCast_mul, Int.natCast_pow]
    rfl
  rw [hcast, Int.natCast_inj]
  exact ⟨Nat.mul_right_cancel (Nat.two_pow_pos k), fun h => h ▸ rfl⟩

theorem two_pow_mul {a b c : Nat} (h : a + b = c) : 2 ^ a * 2 ^ b = 2 ^ c := by
  rw [← pow_add, h]

section

variable {n : Nat} (hne : n ≠ 0)

include hne

/-- The conversion of an integer of up to 53 bits. -/
theorem scaled_ofNat_small (hsmall : n.log2 ≤ 52) :
    IsFinite (ofNat n) ∧ scaled (ofNat n) = (n * 2 ^ 1074 : Nat) := by
  have hge : 2 ^ 52 ≤ n * 2 ^ (52 - n.log2) := by
    rw [← two_pow_mul (Nat.add_sub_cancel' hsmall)]
    exact Nat.mul_le_mul_right _ (Nat.log2_self_le hne)
  have hle : n * 2 ^ (52 - n.log2) ≤ 2 ^ 53 := by
    have hdouble : 2 ^ (n.log2 + 1) * 2 ^ (52 - n.log2) = 2 ^ 53 := two_pow_mul (by omega)
    rw [← hdouble]
    exact Nat.mul_le_mul_right _ (Nat.le_of_lt Nat.lt_log2_self)
  have hencode := @scaled_encode _ (1022 + n.log2) hge hle (by omega)
  have hsteps : 2 ^ (52 - n.log2) * 2 ^ (1022 + n.log2) = 2 ^ 1074 := two_pow_mul (by omega)
  rw [Nat.mul_assoc, hsteps] at hencode
  unfold ofNat
  rw [if_neg hne, if_pos hsmall]
  exact hencode

/-- The conversion of a longer one. -/
theorem scaled_ofNat_large (hlarge : 52 < n.log2) (hn : n < 2 ^ 64) :
    IsFinite (ofNat n) ∧ scaled (ofNat n) =
      (roundedShift n (n.log2 - 52) * 2 ^ (n.log2 - 52) * 2 ^ 1074 : Nat) := by
  have hlog : n.log2 < 64 := (Nat.log2_lt hne).mpr hn
  have hshift : 2 ^ 52 * 2 ^ (n.log2 - 52) = 2 ^ n.log2 := two_pow_mul (by omega)
  have hge : 2 ^ 52 * 2 ^ (n.log2 - 52) ≤ n := by
    rw [hshift]
    exact Nat.log2_self_le hne
  have hlt : n < 2 * 2 ^ 52 * 2 ^ (n.log2 - 52) := by
    rw [Nat.mul_assoc, hshift, Nat.mul_comm, ← Nat.pow_succ]
    exact Nat.lt_log2_self
  obtain ⟨hlow, hhigh⟩ := roundedShift_bounds hge hlt
  have hencode := @scaled_encode _ (1022 + n.log2) hlow (by omega) (by omega)
  have hsteps : 2 ^ (n.log2 - 52) * 2 ^ 1074 = 2 ^ (1022 + n.log2) := two_pow_mul (by omega)
  rw [Nat.mul_assoc, hsteps]
  unfold ofNat
  rw [if_neg hne, if_neg (Nat.not_le.mpr hlarge)]
  exact hencode

end

/-- An integer is a value exactly when its bits behind the first 53 are zero. -/
theorem ofNat_denotes_iff {n : Nat} (hn : n < 2 ^ 64) :
    Denotes (ofNat n) n ↔ 2 ^ (n.log2 - 52) ∣ n := by
  by_cases hzero : n = 0
  · subst hzero
    have hscaled : scaled (ofNat 0) = 0 := by decide
    refine ⟨fun _ => Nat.dvd_zero _, fun _ => ⟨by decide, ?_⟩⟩
    rw [hscaled, Int.natCast_zero, Int.zero_mul]
  unfold Denotes
  by_cases hsmall : n.log2 ≤ 52
  · obtain ⟨hfinite, hscaled⟩ := scaled_ofNat_small hzero hsmall
    have hone : n.log2 - 52 = 0 := by omega
    rw [hscaled, hone, Nat.pow_zero]
    exact ⟨fun _ => Nat.one_dvd n, fun _ => ⟨hfinite, (cast_mul_pow_inj n n 1074).mpr rfl⟩⟩
  · obtain ⟨hfinite, hscaled⟩ := scaled_ofNat_large hzero (Nat.lt_of_not_le hsmall) hn
    have hinj := cast_mul_pow_inj (roundedShift n (n.log2 - 52) * 2 ^ (n.log2 - 52)) n 1074
    rw [hscaled, ← roundedShift_exact_iff]
    exact (and_iff_right hfinite).trans hinj

end Mik.Lib.Binary64
