import VrxServer.Dsp.VirtualReceiver
import Mathlib.Algebra.Order.Archimedean.Basic

/-! The conversion to 8-bit samples.

A clamped value is scaled to at most 127 on either side of 128 and rounded, so the byte never
wraps and is never 0 (`toUint8_toNat`), and is within half a step of the value
(`toUint8_error`). -/
namespace VrxServer.Dsp.VirtualReceiver
open Base Config

variable {K : Type} [Field K] [LinearOrder K] [IsStrictOrderedRing K] [FloorRing K]

/-- `lround` is within a half. -/
theorem lround_error (x : K) : |(lround x : K) - x| ≤ 1 / 2 := by
  rw [abs_le, lround]
  split
  · have hlo := Int.lt_floor_add_one (x + 1 / 2)
    have hhi := Int.floor_le (x + 1 / 2)
    constructor <;> linarith
  · have hlo := Int.le_ceil (x - 1 / 2)
    have hhi := Int.ceil_lt_add_one (x - 1 / 2)
    constructor <;> linarith

/-- A value as the conversion clamps it. -/
def clamped (x : K) : K := max (-1) (min 1 x)

omit [FloorRing K] in
theorem abs_clamped_le (x : K) : |clamped x| ≤ 1 := by
  rw [abs_le]
  exact ⟨le_max_left _ _, max_le (by linarith) (min_le_left _ _)⟩

/-- The sample before its cast stays clear of both ends of a byte. -/
theorem lround_clamped (x : K) : |lround (clamped x * 127)| ≤ 127 := by
  have herror := abs_le.mp (lround_error (clamped x * 127))
  have hclamped := abs_le.mp (abs_clamped_le x)
  have hlo : (-128 : K) < lround (clamped x * 127) := by linarith
  have hhi : (lround (clamped x * 127) : K) < 128 := by linarith
  have hlo' : (-128 : ℤ) < lround (clamped x * 127) := by exact_mod_cast hlo
  have hhi' : lround (clamped x * 127) < (128 : ℤ) := by exact_mod_cast hhi
  rw [abs_le]
  omega

/-- **The conversion never wraps.** -/
theorem toUint8_toNat (x : K) : ((toUint8 x).toNat : ℤ) = lround (clamped x * 127) + 128 := by
  have hrange := abs_le.mp (lround_clamped x)
  show ((UInt8.ofNat (lround (clamped x * 127) + 128).toNat).toNat : ℤ) = _
  rw [UInt8.toNat_ofNat', Nat.mod_eq_of_lt (by omega), Int.toNat_of_nonneg (by omega)]

/-- The byte of a sample that is 0. -/
def zeroLevel : ℕ := 128

/-- The bytes from there to the byte of 1. -/
def fullScale : ℕ := 127

/-- **A sample's byte is within half a step of the clamped sample.** -/
theorem toUint8_error (x : K) : |((toUint8 x).toNat : K) - zeroLevel - fullScale * clamped x| ≤ 1 / 2 := by
  have hbyte : ((toUint8 x).toNat : K) = lround (clamped x * 127) + 128 := by
    exact_mod_cast congrArg (Int.cast (R := K)) (toUint8_toNat x)
  rw [hbyte, zeroLevel, fullScale, Nat.cast_ofNat, Nat.cast_ofNat, add_sub_cancel_right, mul_comm]
  exact lround_error _

end VrxServer.Dsp.VirtualReceiver
