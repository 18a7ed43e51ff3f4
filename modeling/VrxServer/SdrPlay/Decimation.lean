import VrxServer.SdrPlay.Bandwidth
import Mathlib.Order.Bounds.Basic

/-! The hardware decimation: how often the output rate is doubled.

The tuner decimates by a power of two, so the ADC rate and the factor are doubled together.
What the loop leaves behind is the first power of two that brings the ADC to its floor
(`decimation_least`). The loop ends because the rate is positive, which is checked when
the configuration is read; the factor is an `int`, and fits one for every rate that is not
tiny (`decimationLoopInt_fits`). -/
namespace VrxServer.SdrPlay
open Base Config

/-! ### What is tried and what is taken -/

/-- The factors the tuner has that bring the ADC to its floor at this output rate. -/
def sufficientFactors (sr : ℚ) : Set ℤ := {k | (∃ n : ℕ, k = 2 ^ n) ∧ 2000000 ≤ sr * k}

/-- The loop leaves the rate times the factor, and the least factor that is enough. -/
theorem decimationLoop_least {sr : ℚ} (h : 0 < sr) :
    IsLeast (sufficientFactors sr) (decimationLoop sr 1 h).decimationFactor ∧
      (decimationLoop sr 1 h).adcSampleRateHz = sr * (decimationLoop sr 1 h).decimationFactor := by
  obtain ⟨n, hloop, hge, hbelow⟩ := decimationLoop_spec sr 1 h
  rw [hloop, one_mul]
  have hcast : sr * 2 ^ n = sr * ((2 ^ n : ℤ) : ℚ) := by push_cast; rfl
  refine ⟨⟨⟨⟨n, rfl⟩, ?_⟩, ?_⟩, hcast⟩
  · rwa [← hcast]
  · intro k hk
    obtain ⟨⟨m, rfl⟩, hsufficient⟩ := hk
    push_cast at hsufficient
    -- a smaller power of two was tried and found too slow
    have hnm : n ≤ m := not_lt.mp fun hlt => absurd hsufficient (not_le.mpr (hbelow m hlt))
    exact pow_le_pow_right₀ (by norm_num) hnm

/-- At the floor or above nothing is doubled, and only there. -/
theorem least_one_iff {sr : ℚ} {k : ℤ} (h : IsLeast (sufficientFactors sr) k) : k = 1 ↔ 2000000 ≤ sr := by
  obtain ⟨⟨⟨n, hn⟩, hsufficient⟩, hleast⟩ := h
  constructor
  · intro hone
    rwa [hone, Int.cast_one, mul_one] at hsufficient
  · intro hfast
    have hle : k ≤ 1 := hleast ⟨⟨0, rfl⟩, by rwa [Int.cast_one, mul_one]⟩
    have hpos : 0 < k := hn ▸ pow_pos (by norm_num) n
    omega

/-- A doubled rate is under twice the floor. -/
theorem least_below {sr : ℚ} {k : ℤ} (h : IsLeast (sufficientFactors sr) k) (hk : 1 < k) : sr * k < 4000000 := by
  obtain ⟨⟨⟨n, rfl⟩, -⟩, hleast⟩ := h
  cases n with
  | zero => exact absurd hk (by norm_num)
  | succ n =>
    have hhalf : ¬ 2000000 ≤ sr * ((2 ^ n : ℤ) : ℚ) := by
      intro hsufficient
      have hle : (2 : ℤ) ^ (n + 1) ≤ 2 ^ n := hleast ⟨⟨n, rfl⟩, hsufficient⟩
      exact absurd hle (not_le.mpr (pow_lt_pow_right₀ (by norm_num) (Nat.lt_succ_self n)))
    push_cast at hhalf ⊢
    rw [pow_succ]
    linarith [not_le.mp hhalf]

/-! ### The factor as an `int` -/

/-- The largest `int`. -/
def intMax : ℤ := 2147483647

/-- The doubling loop on an `int`: `none` where a doubling leaves its range. -/
def decimationLoopInt (adcSampleRateHz : ℚ) (decimationFactor : ℤ) (h : 0 < adcSampleRateHz) :
    Option DecimationResult :=
  if hlt : adcSampleRateHz < 2000000 then
    if decimationFactor * 2 ≤ intMax then
      decimationLoopInt (adcSampleRateHz * 2) (decimationFactor * 2) (by positivity)
    else none
  else some ⟨adcSampleRateHz, decimationFactor⟩
termination_by ⌊2000000 / adcSampleRateHz⌋₊
decreasing_by
  have hge : (1 : ℚ) ≤ 2000000 / adcSampleRateHz := (one_le_div₀ h).mpr hlt.le
  have hhalf : 2000000 / (adcSampleRateHz * 2) = 2000000 / adcSampleRateHz / 2 := (div_div _ _ _).symm
  rw [hhalf, Nat.floor_div_ofNat]
  exact Nat.div_lt_self (Nat.floor_pos.mpr hge) (by omega)

/-- No doubling overflows exactly where the factor it ends with fits. -/
theorem decimationLoopInt_eq (adcSampleRateHz : ℚ) (decimationFactor : ℤ) (h : 0 < adcSampleRateHz)
    (hpos : 0 < decimationFactor) (hint : decimationFactor ≤ intMax) :
    decimationLoopInt adcSampleRateHz decimationFactor h =
      if (decimationLoop adcSampleRateHz decimationFactor h).decimationFactor ≤ intMax then
        some (decimationLoop adcSampleRateHz decimationFactor h)
      else none := by
  induction adcSampleRateHz, decimationFactor, h using decimationLoop.induct with
  | case1 adc factor h hlt ih =>
    rw [decimationLoopInt, dif_pos hlt, decimationLoop, dif_pos hlt]
    by_cases hdouble : factor * 2 ≤ intMax
    · rw [if_pos hdouble, ih (by omega) hdouble]
    · -- what overflows here is only doubled further
      obtain ⟨n, hloop, -, -⟩ := decimationLoop_spec (adc * 2) (factor * 2) (by positivity)
      have hgrows : factor * 2 ≤ factor * 2 * 2 ^ n :=
        le_mul_of_one_le_right (by omega) (one_le_pow₀ (by norm_num))
      rw [if_neg hdouble, hloop, if_neg (fun hle => hdouble (hgrows.trans hle))]
  | case2 adc factor h hlt =>
    rw [decimationLoopInt, dif_neg hlt, decimationLoop, dif_neg hlt, if_pos hint]

/-- **No doubling overflows exactly from the rate on that thirty doublings bring to the floor.** -/
theorem decimationLoopInt_fits {sr : ℚ} (h : 0 < sr) :
    decimationLoopInt sr 1 h = some (decimationLoop sr 1 h) ↔ 2000000 ≤ sr * 2 ^ 30 := by
  obtain ⟨⟨⟨⟨n, hn⟩, hsufficient⟩, hleast⟩, -⟩ := decimationLoop_least h
  rw [decimationLoopInt_eq sr 1 h one_pos (by decide)]
  have hfits : (decimationLoop sr 1 h).decimationFactor ≤ intMax ↔ n ≤ 30 := by
    rw [hn]
    constructor
    · intro hle
      refine not_lt.mp fun hlt => absurd hle (not_le.mpr ?_)
      calc intMax < 2 ^ 31 := by decide
        _ ≤ 2 ^ n := pow_le_pow_right₀ (by norm_num) hlt
    · intro hle
      calc (2 : ℤ) ^ n ≤ 2 ^ 30 := pow_le_pow_right₀ (by norm_num) hle
        _ ≤ intMax := by decide
  rw [ite_eq_left_iff, imp_iff_not (Option.some_ne_none _).symm, not_not, hfits]
  constructor
  · intro hle
    rw [hn] at hsufficient
    push_cast at hsufficient
    calc (2000000 : ℚ) ≤ sr * 2 ^ n := hsufficient
      _ ≤ sr * 2 ^ 30 := mul_le_mul_of_nonneg_left (pow_le_pow_right₀ (by norm_num) hle) h.le
  · intro henough
    have hle := hleast ⟨⟨30, rfl⟩, by push_cast; exact henough⟩
    rw [hn] at hle
    exact (pow_le_pow_iff_right₀ (by norm_num)).mp hle

/-- On an accepted configuration the device's parameters are written: the loop ends. -/
theorem configureInitialParams_accepted {lib : YamlLib} {path : String} {file : Except String Yaml} {cfg : AppConfig}
    (h : loadConfig lib path file = .ok cfg) (V : Vendor) (p : DeviceParams) :
    configureInitialParams V (selectedSession cfg p) =
      .ok () {selectedSession cfg p with client := {(selectedSession cfg p).client with
        deviceParams := some (initialParams V (selectedSession cfg p).client
          (decimationLoop cfg.sampleRateHz 1 (loadConfig_rate_pos lib h)) p)}} :=
  configureInitialParams_ok rfl (dif_pos (loadConfig_rate_pos lib h))

/-- **For every positive rate the loop ends with the least power of two that brings the ADC
to its floor, and with the rate times that; from 1 Hz on no doubling overflows.** -/
theorem decimation_least (sr : ℚ) (h : 0 < sr) :
    ∃ dec, decimationForSampleRate sr = some dec ∧
      IsLeast (sufficientFactors sr) dec.decimationFactor ∧
      dec.adcSampleRateHz = sr * dec.decimationFactor ∧
      dec.adcSampleRateHz / dec.decimationFactor = sr ∧
      (dec.decimationFactor = 1 ↔ 2000000 ≤ sr) ∧
      (1 < dec.decimationFactor → dec.adcSampleRateHz < 4000000) ∧
      (1 ≤ sr → decimationLoopInt sr 1 h = some dec) := by
  obtain ⟨hleast, hadc⟩ := decimationLoop_least h
  refine ⟨decimationLoop sr 1 h, dif_pos h, hleast, hadc, ?_, least_one_iff hleast, ?_, ?_⟩
  · obtain ⟨⟨⟨n, hn⟩, -⟩, -⟩ := hleast
    have hne : ((decimationLoop sr 1 h).decimationFactor : ℚ) ≠ 0 := by
      rw [hn]
      push_cast
      exact pow_ne_zero n (by norm_num)
    rw [hadc, mul_div_assoc, div_self hne, mul_one]
  · intro hk
    rw [hadc]
    exact least_below hleast hk
  · intro hone
    rw [decimationLoopInt_fits h]
    linarith

theorem quarter_pos : 0 < (250000 : ℚ) := by norm_num

/-- A quarter of a megahertz is decimated by eight. -/
theorem decimation_least_quarter : 0 < (250000 : ℚ) ∧
    ∃ dec, decimationForSampleRate 250000 = some dec ∧
      IsLeast (sufficientFactors 250000) dec.decimationFactor ∧
      dec.adcSampleRateHz = 250000 * dec.decimationFactor ∧
      dec.adcSampleRateHz / dec.decimationFactor = 250000 ∧
      (dec.decimationFactor = 1 ↔ (2000000 : ℚ) ≤ 250000) ∧
      (1 < dec.decimationFactor → dec.adcSampleRateHz < 4000000) ∧
      (1 ≤ (250000 : ℚ) → decimationLoopInt 250000 1 quarter_pos = some dec) :=
  ⟨quarter_pos, decimation_least 250000 quarter_pos⟩

end VrxServer.SdrPlay
