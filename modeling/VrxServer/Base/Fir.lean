import Mathlib.Algebra.Order.BigOperators.Group.Finset
import Mathlib.Analysis.SpecialFunctions.Complex.Circle

/-! Filters with finitely many real taps.

On a signal that turns by the same angle `ν` every sample a filter is one complex factor
(`correlate_exp`). If its taps read the same from both ends, that factor is a real gain and
the turn from the first tap to the middle of them (`response_symmetric`): every frequency
is delayed by the same number of samples. -/
namespace VrxServer.Base.Fir

/-- The taps against a signal from sample `n` on. -/
noncomputable def correlate (taps : List ℝ) (x : ℕ → ℂ) (n : ℕ) : ℂ :=
  ∑ t ∈ Finset.range taps.length, (taps.getD t 0 : ℂ) * x (n + t)

/-- What the taps make of a signal that turns by `ν` every sample. -/
noncomputable def response (taps : List ℝ) (ν : ℝ) : ℂ :=
  ∑ t ∈ Finset.range taps.length, (taps.getD t 0 : ℂ) * Complex.exp ((ν * t : ℝ) * Complex.I)

/-- The position of the middle of the taps; between two of them where their number is even. -/
noncomputable def middle (taps : List ℝ) : ℝ := ((taps.length : ℝ) - 1) / (2 : ℕ)

/-- The response seen from the middle of the taps, as far as it is real. -/
noncomputable def gain (taps : List ℝ) (ν : ℝ) : ℝ :=
  ∑ t ∈ Finset.range taps.length, taps.getD t 0 * Real.cos (ν * (t - middle taps))

/-! ### Signals -/

theorem correlate_mul (taps : List ℝ) (a : ℂ) (x : ℕ → ℂ) (n : ℕ) :
    correlate taps (fun k => a * x k) n = a * correlate taps x n := by
  simp only [correlate, Finset.mul_sum, mul_left_comm]

/-- **A signal that turns steadily comes out as it is, times the response.** -/
theorem correlate_exp (taps : List ℝ) (a : ℂ) (ν : ℝ) (n : ℕ) :
    correlate taps (fun k => a * Complex.exp ((ν * k : ℝ) * Complex.I)) n =
      a * Complex.exp ((ν * n : ℝ) * Complex.I) * response taps ν := by
  have hturn : ∀ t : ℕ, Complex.exp ((ν * (n + t : ℕ) : ℝ) * Complex.I) =
      Complex.exp ((ν * n : ℝ) * Complex.I) * Complex.exp ((ν * t : ℝ) * Complex.I) := by
    intro t
    rw [← Complex.exp_add]
    congr 1
    push_cast
    ring
  rw [correlate, response, Finset.mul_sum]
  apply Finset.sum_congr rfl
  intro t _
  rw [hturn]
  ring

/-! ### Symmetric taps -/

/-- Taps that read the same from both ends. -/
theorem getD_symmetric {taps : List ℝ} (h : taps.reverse = taps) {t : ℕ} (ht : t < taps.length) :
    taps.getD (taps.length - 1 - t) 0 = taps.getD t 0 := by
  have hread : taps.reverse[t]? = taps[taps.length - 1 - t]? := List.getElem?_reverse ht
  rw [h] at hread
  rw [List.getD_eq_getElem?_getD, List.getD_eq_getElem?_getD, hread]

/-- From the middle of the taps, the turn to a tap and the turn to its mirror image are opposite. -/
theorem middle_reflect (taps : List ℝ) (ν : ℝ) {t : ℕ} (ht : t < taps.length) :
    ν * ((taps.length - 1 - t : ℕ) - middle taps) = -(ν * (t - middle taps)) := by
  have hcast : ((taps.length - 1 - t : ℕ) : ℝ) = taps.length - 1 - t := by
    rw [Nat.sub_sub, Nat.cast_sub (by omega)]
    push_cast
    ring
  rw [hcast, middle]
  ring

/-- Symmetric taps cancel the sine. -/
theorem sum_sin_symmetric {taps : List ℝ} (h : taps.reverse = taps) (ν : ℝ) :
    ∑ t ∈ Finset.range taps.length, taps.getD t 0 * Real.sin (ν * (t - middle taps)) = 0 := by
  have hodd : ∑ t ∈ Finset.range taps.length, taps.getD t 0 * Real.sin (ν * (t - middle taps)) =
      ∑ t ∈ Finset.range taps.length, -(taps.getD t 0 * Real.sin (ν * (t - middle taps))) := by
    rw [← Finset.sum_range_reflect]
    apply Finset.sum_congr rfl
    intro t ht
    have hlt := Finset.mem_range.mp ht
    rw [getD_symmetric h hlt, middle_reflect taps ν hlt, Real.sin_neg, mul_neg]
  rw [Finset.sum_neg_distrib] at hodd
  linarith

/-- **Symmetric taps delay every frequency alike**: by their middle, with a real gain. -/
theorem response_symmetric {taps : List ℝ} (h : taps.reverse = taps) (ν : ℝ) :
    response taps ν = Complex.exp ((ν * middle taps : ℝ) * Complex.I) * gain taps ν := by
  have hterm : ∀ t : ℕ, (taps.getD t 0 : ℂ) * Complex.exp ((ν * t : ℝ) * Complex.I) =
      Complex.exp ((ν * middle taps : ℝ) * Complex.I) * ((taps.getD t 0 * Real.cos (ν * (t - middle taps)) : ℝ) +
        (taps.getD t 0 * Real.sin (ν * (t - middle taps)) : ℝ) * Complex.I) := by
    intro t
    have hsplit : Complex.exp ((ν * t : ℝ) * Complex.I) = Complex.exp ((ν * middle taps : ℝ) * Complex.I) *
        Complex.exp ((ν * (t - middle taps) : ℝ) * Complex.I) := by
      rw [← Complex.exp_add]
      congr 1
      push_cast
      ring
    have hpoint : Complex.exp ((ν * (t - middle taps) : ℝ) * Complex.I) =
        (Real.cos (ν * (t - middle taps)) : ℝ) + (Real.sin (ν * (t - middle taps)) : ℝ) * Complex.I := by
      rw [Complex.exp_mul_I, Complex.ofReal_cos, Complex.ofReal_sin]
    rw [hsplit, hpoint, Complex.ofReal_mul (taps.getD t 0), Complex.ofReal_mul (taps.getD t 0)]
    ring
  simp only [response, hterm, ← Finset.mul_sum, Finset.sum_add_distrib, ← Finset.sum_mul]
  rw [← Complex.ofReal_sum, ← Complex.ofReal_sum, sum_sin_symmetric h, Complex.ofReal_zero, zero_mul, add_zero, gain]

/-! ### The gain -/

theorem gain_neg (taps : List ℝ) (ν : ℝ) : gain taps (-ν) = gain taps ν := by
  simp only [gain, neg_mul, Real.cos_neg]

theorem sum_getD (taps : List ℝ) : ∑ t ∈ Finset.range taps.length, taps.getD t 0 = taps.sum := by
  induction taps with
  | nil => rfl
  | cons tap taps ih =>
    rw [List.length_cons, Finset.sum_range_succ', List.sum_cons, add_comm]
    simp only [List.getD_cons_succ, List.getD_cons_zero, ih]

theorem gain_zero (taps : List ℝ) : gain taps 0 = taps.sum := by
  simp only [gain, zero_mul, Real.cos_zero, mul_one, sum_getD]

/-- No frequency is amplified by more than the taps' magnitudes together. -/
theorem abs_gain_le (taps : List ℝ) (ν : ℝ) : |gain taps ν| ≤ (taps.map fun tap => |tap|).sum := by
  have hterm : ∀ t, |taps.getD t 0 * Real.cos (ν * (t - middle taps))| ≤ (taps.map fun tap => |tap|).getD t 0 := by
    intro t
    have hmap : (taps.map fun tap => |tap|).getD t 0 = |taps.getD t 0| := by
      rw [List.getD_eq_getElem?_getD, List.getD_eq_getElem?_getD, List.getElem?_map]
      cases taps[t]? with
      | none => exact abs_zero.symm
      | some tap => rfl
    rw [abs_mul, hmap]
    exact mul_le_of_le_one_right (abs_nonneg _) (Real.abs_cos_le_one _)
  calc |gain taps ν| ≤ ∑ t ∈ Finset.range taps.length, |taps.getD t 0 * Real.cos (ν * (t - middle taps))| :=
        Finset.abs_sum_le_sum_abs _ _
    _ ≤ ∑ t ∈ Finset.range taps.length, (taps.map fun tap => |tap|).getD t 0 := Finset.sum_le_sum fun t _ => hterm t
    _ = (taps.map fun tap => |tap|).sum := by
        rw [← sum_getD, List.length_map]

end VrxServer.Base.Fir
