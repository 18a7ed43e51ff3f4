import Mathlib.Analysis.SpecialFunctions.Complex.Arg
import Mathlib.Analysis.SpecialFunctions.Trigonometric.Complex

/-! Points of the unit circle put together from two angles.

A cosine of one angle and a sine of another are the coordinates of a point of the unit
circle exactly when the two angles agree up to sign and half turns (`unit_iff`). -/
namespace VrxServer.Base.Angle
open Real

theorem norm_of_unit {a b : ℝ} (h : a ^ 2 + b ^ 2 = 1) : ‖(⟨a, b⟩ : ℂ)‖ = 1 := by
  rw [Complex.norm_def, Complex.normSq_mk, ← pow_two, ← pow_two, h, sqrt_one]

/-- Every point of the unit circle has an angle within half a turn. -/
theorem exists_of_unit {a b : ℝ} (h : a ^ 2 + b ^ 2 = 1) : ∃ θ, |θ| ≤ π ∧ cos θ = a ∧ sin θ = b := by
  have hnorm := norm_of_unit h
  have hne : (⟨a, b⟩ : ℂ) ≠ 0 := by
    rw [← norm_ne_zero_iff, hnorm]
    exact one_ne_zero
  refine ⟨Complex.arg ⟨a, b⟩, Complex.abs_arg_le_pi _, ?_, ?_⟩
  · rw [Complex.cos_arg hne, hnorm, div_one]
  · rw [Complex.sin_arg, hnorm, div_one]

theorem sin_sub_mul_sin_add (x y : ℝ) : sin (x - y) * sin (x + y) = sin x ^ 2 - sin y ^ 2 := by
  have hx := sin_sq_add_cos_sq x
  have hy := sin_sq_add_cos_sq y
  rw [sin_sub, sin_add]
  linear_combination (sin x ^ 2) * hy - (sin y ^ 2) * hx

/-- The cosine of one angle and the sine of another make a point of the unit circle exactly
when the angles agree up to sign and half turns. -/
theorem unit_iff (x y : ℝ) :
    cos x ^ 2 + sin y ^ 2 = 1 ↔ ∃ k : ℤ, x - y = k * π ∨ x + y = k * π := by
  have hx := sin_sq_add_cos_sq x
  have hprod := sin_sub_mul_sin_add x y
  calc cos x ^ 2 + sin y ^ 2 = 1 ↔ sin (x - y) * sin (x + y) = 0 := by
        constructor <;> intro h <;> linarith
    _ ↔ ∃ k : ℤ, x - y = k * π ∨ x + y = k * π := by
        rw [mul_eq_zero, sin_eq_zero_iff, sin_eq_zero_iff, ← exists_or]
        simp only [eq_comm]

end VrxServer.Base.Angle
