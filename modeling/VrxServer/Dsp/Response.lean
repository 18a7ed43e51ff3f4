import VrxServer.Base.Fir
import VrxServer.Dsp.Calls
import VrxServer.Dsp.Tone

/-! What a receiver makes of any signal.

Whatever it has been through, a receiver turns every sample by the phase its oscillator
has reached and runs the taps over the result (`downconverts`): it is linear in the signal.
The designed taps are symmetric (`buildTaps_symmetric`), so a tone at any frequency comes
out as that tone seen from the tuned frequency, 64 samples late, times a real gain that
depends only on how far off it is (`tone_response`). -/
namespace VrxServer.Dsp
open Base Config

/-! ### The oscillator and the filter on a signal -/

theorem mixLoop_signal (ρ φ : ℂ) (x : ℕ → ℂ) (P n : ℕ) :
    Nco.mixLoop ρ.re ρ.im (iqOf (φ * ρ ^ P)) ((List.range' P n).map fun k => iqOf (x k)) =
      ((List.range' P n).map fun k => iqOf (x k * (φ * ρ ^ k)), iqOf (φ * ρ ^ (P + n))) := by
  induction n generalizing P with
  | zero => rfl
  | succ n ih =>
    have hphase : φ * ρ ^ P * ρ = φ * ρ ^ (P + 1) := by rw [pow_succ, mul_assoc]
    rw [List.range'_succ, List.map_cons, mixLoop_cons, hphase, ih (P + 1), List.map_cons, Nat.add_right_comm]
    rfl

theorem mixInPlace_signal (nco : Nco ℝ) {ρ φ : ℂ} (x : ℕ → ℂ) (hφ₁ : ‖φ‖ = 1) (hρ₁ : ‖ρ‖ = 1) (P n : ℕ)
    (hrot : (nco.rotationRe, nco.rotationIm) = iqOf ρ) (hphase : (nco.phaseRe, nco.phaseIm) = iqOf (φ * ρ ^ P)) :
    nco.mixInPlace Trig.real ((List.range' P n).map fun k => iqOf (x k)) =
      ((List.range' P n).map fun k => iqOf (x k * (φ * ρ ^ k)),
        {nco with phaseRe := (φ * ρ ^ (P + n)).re, phaseIm := (φ * ρ ^ (P + n)).im}) := by
  obtain ⟨hre, him⟩ := Prod.mk.inj hrot
  have hmag : ‖φ * ρ ^ (P + n)‖ = 1 := by rw [norm_mul, norm_pow, hφ₁, hρ₁, one_pow, one_mul]
  simp only [Nco.mixInPlace, hre, him, hphase, mixLoop_signal ρ φ x P n, hypot_iqOf, hmag, div_one]
  rfl

/-- The filter over a signal, behind whatever was there before. -/
theorem firAt_signal (taps : List ℝ) (H : List (ℝ × ℝ)) (y : ℕ → ℂ) (m : ℕ) {p : ℕ} (hp : H.length ≤ p)
    (hm : p + taps.length ≤ H.length + m) :
    Decimator.firAt (Arith.exact ℝ) taps (H ++ (List.range m).map fun k => iqOf (y k)) p =
      iqOf (Fir.correlate taps y (p - H.length)) := by
  have hread : ∀ t, t < taps.length →
      (H ++ (List.range m).map fun k => iqOf (y k))[p + t]? = some (iqOf (y (p - H.length + t))) := by
    intro t ht
    have hlt : p + t - H.length < m := by omega
    rw [List.getElem?_append_right (by omega), List.getElem?_map, List.getElem?_range hlt, Option.map_some,
      Nat.sub_add_comm hp]
  have hfir := Decimator.firAt_eq (Arith.exact ℝ) taps (H ++ (List.range m).map fun k => iqOf (y k)) p
    (by rwa [List.length_append, List.length_map, List.length_range])
  rw [hfir, Decimator.sum_products, Decimator.sum_products, Fir.correlate]
  apply Prod.ext
  · simp only [Arith.exact, id_eq]
    apply Eq.trans _ (Complex.re_sum _ _).symm
    apply Finset.sum_congr rfl
    intro t ht
    have hi := (getElem?_interleave (H ++ (List.range m).map fun k => iqOf (y k)) (p + t)).1
    rw [hread t (Finset.mem_range.mp ht)] at hi
    rw [Complex.re_ofReal_mul, Nat.add_zero]
    congr 1
    rw [List.getD_eq_getElem?_getD, hi]
    rfl
  · simp only [Arith.exact, id_eq]
    apply Eq.trans _ (Complex.im_sum _ _).symm
    apply Finset.sum_congr rfl
    intro t ht
    have hq := (getElem?_interleave (H ++ (List.range m).map fun k => iqOf (y k)) (p + t)).2
    rw [hread t (Finset.mem_range.mp ht)] at hq
    rw [Complex.im_ofReal_mul]
    congr 1
    rw [List.getD_eq_getElem?_getD, hq]
    rfl

/-! ### A receiver on a signal -/

namespace VirtualReceiver
open Trig

/-- A receiver that has been fed `P` samples of a signal its oscillator makes `y` of. -/
structure Follows (taps : List ℝ) (factor : ℕ) (ρ φ : ℂ) (H : List (ℝ × ℝ)) (y : ℕ → ℂ) (P : ℕ)
    (w : VirtualReceiver ℝ) : Prop where
  rotation_eq : (w.nco.rotationRe, w.nco.rotationIm) = iqOf ρ
  phase_eq : (w.nco.phaseRe, w.nco.phaseIm) = iqOf (φ * ρ ^ P)
  taps_eq : w.decimator.taps = taps
  factor_eq : w.decimator.factor = factor
  history_eq : w.decimator.history = interleave ((H ++ (List.range P).map fun k => iqOf (y k)).drop P)

/-- What the decimator makes of a signal, however its samples are cut into chunks: where a
window holds nothing else, `y` at the window's first sample. -/
def Yields (v : VirtualReceiver ℝ) (x y : ℕ → ℂ) : Prop :=
  ∀ (done : List (List (ℝ × ℝ))) (iq : List (ℝ × ℝ)),
    done.flatten ++ iq = (List.range (done.flatten.length + iq.length)).map (fun n => iqOf (x n)) →
    ∃ w out, (receiver real).run v (done.map .chunk) = some w ∧ w.decimated real iq = some out ∧
      out.length = iq.length / v.decimator.factor * 2 ∧
      ∀ o, o < iq.length / v.decimator.factor →
        v.decimator.taps.length - 1 ≤ done.flatten.length + o * v.decimator.factor →
          let n := done.flatten.length + o * v.decimator.factor - (v.decimator.taps.length - 1)
          out[o * 2]? = some (y n).re ∧ out[o * 2 + 1]? = some (y n).im

variable {taps : List ℝ} {factor : ℕ} {center rate : ℝ} {v : VirtualReceiver ℝ}

section Follows
variable {ρ φ : ℂ} {H : List (ℝ × ℝ)} {x : ℕ → ℂ} {P : ℕ} {w : VirtualReceiver ℝ}
variable (hφ₁ : ‖φ‖ = 1) (hρ₁ : ‖ρ‖ = 1)
include hφ₁ hρ₁

theorem Follows.chunk (h : Follows taps factor ρ φ H (fun k => x k * (φ * ρ ^ k)) P w) (n : ℕ) :
    let iq := (List.range' P n).map fun k => iqOf (x k)
    (∃ w', VirtualReceiver.handle real w (.chunk iq) = some w' ∧
        Follows taps factor ρ φ H (fun k => x k * (φ * ρ ^ k)) (P + n) w') ∧
      w.decimated real iq = some (interleave ((Decimator.positions factor n).map
        (Decimator.firAt (Arith.exact ℝ) taps
          ((H ++ (List.range (P + n)).map fun k => iqOf (x k * (φ * ρ ^ k))).drop P)))) := by
  intro iq
  have hmix := mixInPlace_signal w.nco x hφ₁ hρ₁ P n h.rotation_eq h.phase_eq
  obtain ⟨d, hw, hout, ht, hf, hhist⟩ := handle_chunk real w _ iq h.history_eq
  have hlen : iq.length = n := by rw [List.length_map, List.length_range']
  have hgrow : (H ++ (List.range P).map fun k => iqOf (x k * (φ * ρ ^ k))).drop P ++
      (List.range' P n).map (fun k => iqOf (x k * (φ * ρ ^ k))) =
      (H ++ (List.range (P + n)).map fun k => iqOf (x k * (φ * ρ ^ k))).drop P := by
    have hrange : List.range (P + n) = List.range P ++ List.range' P n := by
      rw [List.range_eq_range', List.range_eq_range', ← List.range'_append_1, Nat.zero_add]
    rw [hrange, List.map_append, ← List.append_assoc]
    apply (List.drop_append_of_le_length _).symm
    rw [List.length_append, List.length_map, List.length_range]
    omega
  rw [hlen, h.taps_eq, h.factor_eq, hmix, hgrow] at hout
  rw [hlen, hmix, hgrow, List.drop_drop] at hhist
  rw [hmix] at hw
  exact ⟨⟨_, hw, h.rotation_eq, rfl, ht.trans h.taps_eq, hf.trans h.factor_eq, hhist⟩, hout⟩

theorem Follows.run (h : Follows taps factor ρ φ H (fun k => x k * (φ * ρ ^ k)) P w) (done : List (List (ℝ × ℝ)))
    {m : ℕ} (hdone : done.flatten = (List.range' P m).map fun k => iqOf (x k)) :
    ∃ w', (receiver real).run w (done.map .chunk) = some w' ∧
      Follows taps factor ρ φ H (fun k => x k * (φ * ρ ^ k)) (P + m) w' := by
  induction done generalizing P w m with
  | nil =>
    have : m = 0 := by simpa using (congrArg List.length hdone).symm
    exact ⟨w, rfl, this ▸ h⟩
  | cons iq done ih =>
    obtain ⟨hiq, hrest, rfl⟩ := split_range' _ hdone
    obtain ⟨⟨u, hu, hut⟩, -⟩ := h.chunk hφ₁ hρ₁ iq.length
    rw [← hiq] at hu
    obtain ⟨w', hw, hwt⟩ := ih hut hrest
    rw [Nat.add_assoc] at hwt
    exact ⟨w', by rw [List.map_cons, Machine.run_cons]; exact Option.bind_eq_some_iff.mpr ⟨u, hu, hw⟩, hwt⟩

end Follows

/-- A tuned receiver before the first sample of a signal. -/
theorem Tuned.follows (h : Tuned taps factor center rate v) (y : ℕ → ℂ) :
    ∃ H, H.length = taps.length - 1 ∧
      Follows taps factor (Complex.exp (Nco.phaseIncrement real rate (v.centerFrequencyHz - center) * Complex.I))
        ⟨v.nco.phaseRe, v.nco.phaseIm⟩ H y 0 v := by
  obtain ⟨H, hHlen, hstart⟩ := h.hears 0
  exact ⟨H, hHlen, hstart.rotation_eq, hstart.phase_eq, hstart.taps_eq, hstart.factor_eq, hstart.history_eq⟩

/-- A tuned receiver turns a signal by the phase its oscillator has reached and runs its
taps over it. -/
theorem Tuned.yields (h : Tuned taps factor center rate v) (x : ℕ → ℂ) :
    Yields v x fun n => ⟨v.nco.phaseRe, v.nco.phaseIm⟩ * Fir.correlate taps (fun k => x k *
      Complex.exp ((Nco.phaseIncrement real rate (v.centerFrequencyHz - center) * k : ℝ) * Complex.I)) n := by
  intro done iq hx
  have hφ₁ : ‖(⟨v.nco.phaseRe, v.nco.phaseIm⟩ : ℂ)‖ = 1 := Angle.norm_of_unit h.phase_unit
  have hρ₁ := Complex.norm_exp_ofReal_mul_I (Nco.phaseIncrement real rate (v.centerFrequencyHz - center))
  -- what the oscillator makes of the signal, turn by turn and in one
  have hturned : (fun k => x k * ((⟨v.nco.phaseRe, v.nco.phaseIm⟩ : ℂ) *
      Complex.exp (Nco.phaseIncrement real rate (v.centerFrequencyHz - center) * Complex.I) ^ k)) =
      fun k => (⟨v.nco.phaseRe, v.nco.phaseIm⟩ : ℂ) * (x k *
        Complex.exp ((Nco.phaseIncrement real rate (v.centerFrequencyHz - center) * k : ℝ) * Complex.I)) := by
    funext k
    have hpow : ((Nco.phaseIncrement real rate (v.centerFrequencyHz - center) * k : ℝ) : ℂ) * Complex.I =
        k * (Nco.phaseIncrement real rate (v.centerFrequencyHz - center) * Complex.I) := by
      push_cast
      ring
    rw [← Complex.exp_nat_mul, hpow]
    ring
  obtain ⟨H, hHlen, hstart⟩ := h.follows fun k => x k * ((⟨v.nco.phaseRe, v.nco.phaseIm⟩ : ℂ) *
      Complex.exp (Nco.phaseIncrement real rate (v.centerFrequencyHz - center) * Complex.I) ^ k)
  rw [List.range_eq_range'] at hx
  obtain ⟨hdone, hiq, -⟩ := split_range' _ hx
  obtain ⟨w, hrun, hw⟩ := hstart.run hφ₁ hρ₁ done hdone
  obtain ⟨-, hout⟩ := hw.chunk hφ₁ hρ₁ iq.length
  rw [← hiq, Nat.zero_add] at hout
  rw [h.factor_eq, h.taps_eq]
  refine ⟨w, _, hrun, hout, ?_, ?_⟩
  · rw [length_interleave, List.length_map, Decimator.positions, List.length_map, List.length_range]
  · intro o ho hwin n
    have hle := Decimator.position_lt (List.mem_map.mpr ⟨o, List.mem_range.mpr ho, rfl⟩)
    have hf : 0 < factor := h.factor_eq ▸ v.decimator.factor_pos
    have hfir := firAt_signal taps H (fun k => x k * ((⟨v.nco.phaseRe, v.nco.phaseIm⟩ : ℂ) *
      Complex.exp (Nco.phaseIncrement real rate (v.centerFrequencyHz - center) * Complex.I) ^ k))
      (done.flatten.length + iq.length) (p := done.flatten.length + o * factor) (by omega) (by omega)
    obtain ⟨hi, hq⟩ := Decimator.getElem?_positions (Decimator.firAt (Arith.exact ℝ) taps
      ((H ++ (List.range (done.flatten.length + iq.length)).map fun k => iqOf (x k *
        ((⟨v.nco.phaseRe, v.nco.phaseIm⟩ : ℂ) *
          Complex.exp (Nco.phaseIncrement real rate (v.centerFrequencyHz - center) * Complex.I) ^ k))).drop
        done.flatten.length)) ho
    rw [Decimator.firAt_drop, hfir, hturned, Fir.correlate_mul, hHlen] at hi hq
    exact ⟨hi, hq⟩

/-- **A receiver is its oscillator and its taps**: after whatever chunks and retunes, it
turns every signal by one phase and the tuned frequency, and runs the taps over it. -/
theorem downconverts (cfg : VirtualReceiverConfig ℝ) (center rate : ℝ) (v₀ : VirtualReceiver ℝ)
    (h : construct real cfg center rate = .ok v₀) (events : List (VrxEvent ℝ)) :
    ∃ v, (receiver real).run v₀ events = some v ∧ ∃ φ : ℂ, ‖φ‖ = 1 ∧ ∀ x, Yields v x fun n =>
      φ * Fir.correlate (buildTaps real cfg.sampleRateHz rate) (fun k => x k *
        Complex.exp ((Nco.phaseIncrement real rate (v.centerFrequencyHz - center) * k : ℝ) * Complex.I)) n := by
  obtain ⟨v, hrun, hv⟩ := (construct_tuned h).run events
  exact ⟨v, hrun, _, Angle.norm_of_unit hv.phase_unit, hv.yields⟩

theorem downconverts_narrow : ∃ v₀, construct real narrowConfig 0 64 = .ok v₀ ∧
    ∃ v, (receiver real).run v₀ [.chunk [(1, 0)], .retune 3] = some v ∧ ∃ φ : ℂ, ‖φ‖ = 1 ∧ ∀ x, Yields v x fun n =>
      φ * Fir.correlate (buildTaps real narrowConfig.sampleRateHz 64) (fun k => x k *
        Complex.exp ((Nco.phaseIncrement real 64 (v.centerFrequencyHz - 0) * k : ℝ) * Complex.I)) n := by
  obtain ⟨v₀, h⟩ := construct_narrow
  exact ⟨v₀, h, downconverts narrowConfig 0 64 v₀ h [.chunk [(1, 0)], .retune 3]⟩

/-! ### The taps -/

/-- A raw tap and its mirror image are the same. -/
theorem rawTap_symmetric {numTaps n : ℕ} (fc : ℝ) (hn : n < numTaps) :
    rawTap real numTaps fc (numTaps - 1 - n) = rawTap real numTaps fc n := by
  have hcast : ((numTaps - 1 - n : ℕ) : ℝ) = numTaps - 1 - n := by
    rw [Nat.sub_sub, Nat.cast_sub (by omega)]
    push_cast
    ring
  have hmirror : (numTaps : ℝ) - 1 - n - (numTaps - 1) / 2 = -(n - (numTaps - 1) / 2) := by ring
  have hwindow : Real.cos (2 * Real.pi * (numTaps - 1 - n) / ((numTaps : ℝ) - 1)) =
      Real.cos (2 * Real.pi * n / ((numTaps : ℝ) - 1)) := by
    by_cases hone : (numTaps : ℝ) - 1 = 0
    · rw [hone, div_zero, div_zero]
    · rw [← Real.cos_two_pi_sub]
      congr 1
      field_simp
      ring
  simp only [rawTap, hcast, hmirror, neg_eq_zero]
  show (if _ then _ else Real.sin _ / _) * (_ - _ * Real.cos _) = (if _ then _ else Real.sin _ / _) * (_ - _ * Real.cos _)
  rw [show (real.pi : ℝ) = Real.pi from rfl, hwindow, mul_neg, mul_neg, Real.sin_neg, neg_div_neg_eq]

theorem designLowPassFir_symmetric (numTaps : ℕ) (cutoffHz sampleRateHz : ℝ) :
    (designLowPassFir real numTaps cutoffHz sampleRateHz).reverse = designLowPassFir real numTaps cutoffHz sampleRateHz := by
  have hraw : ((List.range numTaps).map (rawTap real numTaps (cutoffHz / sampleRateHz))).reverse =
      (List.range numTaps).map (rawTap real numTaps (cutoffHz / sampleRateHz)) := by
    apply List.ext_getElem
    · rw [List.length_reverse]
    · intro n hn hn'
      rw [List.length_map, List.length_range] at hn'
      rw [List.getElem_reverse, List.getElem_map, List.getElem_map, List.getElem_range, List.getElem_range,
        List.length_map, List.length_range]
      exact rawTap_symmetric _ hn'
  simp only [designLowPassFir, ← List.map_reverse, hraw]

theorem buildTaps_symmetric (vrxSampleRateHz widebandSampleRateHz : ℝ) :
    (buildTaps real vrxSampleRateHz widebandSampleRateHz).reverse = buildTaps real vrxSampleRateHz widebandSampleRateHz :=
  designLowPassFir_symmetric 129 _ _

theorem middle_buildTaps (vrxSampleRateHz widebandSampleRateHz : ℝ) :
    Fir.middle (buildTaps real vrxSampleRateHz widebandSampleRateHz) = 64 := by
  rw [Fir.middle, buildTaps, designLowPassFir, List.length_map, List.length_map, List.length_range]
  norm_num

/-- The angle a frequency `d` Hz from the tuned one turns by every sample. -/
noncomputable def turnPerSample (rate d : ℝ) : ℝ := 2 * Real.pi * d / rate

/-- **A tone at any frequency comes out as itself, seen from the tuned frequency**: 64 samples
late, times a real gain that depends only on how far from the tuned frequency it is, and is
1 there. -/
theorem tone_response (cfg : VirtualReceiverConfig ℝ) (center rate : ℝ) (v₀ : VirtualReceiver ℝ)
    (h : construct real cfg center rate = .ok v₀)
    (hsum : ((List.range 129).map (rawTap real 129 (cfg.sampleRateHz * (45 / 100) / rate))).sum ≠ 0)
    (events : List (VrxEvent ℝ)) :
    ∃ v, (receiver real).run v₀ events = some v ∧ ∃ φ : ℂ, ‖φ‖ = 1 ∧
      let gain := Fir.gain (buildTaps real cfg.sampleRateHz rate)
      gain 0 = 1 ∧ ∀ (A : ℂ) (f : ℝ),
        let ν := turnPerSample rate (f - v.centerFrequencyHz)
        Yields v (fun n => A * Complex.exp ((turnPerSample rate (f - center) * n : ℝ) * Complex.I))
            (fun n => φ * A * gain ν * Complex.exp ((ν * (n + 64) : ℝ) * Complex.I)) ∧
          gain (-ν) = gain ν ∧ |gain ν| ≤ ((buildTaps real cfg.sampleRateHz rate).map fun tap => |tap|).sum := by
  obtain ⟨v, hrun, hv⟩ := (construct_tuned h).run events
  refine ⟨v, hrun, _, Angle.norm_of_unit hv.phase_unit, ?_⟩
  intro gain
  refine ⟨(Fir.gain_zero _).trans (designLowPassFir_sum real hsum), fun A f => ?_⟩
  intro ν
  refine ⟨?_, Fir.gain_neg _ ν, Fir.abs_gain_le _ ν⟩
  have hshift : (fun k : ℕ => A * Complex.exp ((turnPerSample rate (f - center) * k : ℝ) * Complex.I) *
      Complex.exp ((Nco.phaseIncrement real rate (v.centerFrequencyHz - center) * k : ℝ) * Complex.I)) =
      fun k : ℕ => A * Complex.exp ((ν * k : ℝ) * Complex.I) := by
    funext k
    have hturn : turnPerSample rate (f - center) * k +
        Nco.phaseIncrement real rate (v.centerFrequencyHz - center) * k = ν * k := by
      show 2 * Real.pi * (f - center) / rate * k + -2 * Real.pi * (v.centerFrequencyHz - center) / rate * k =
        2 * Real.pi * (f - v.centerFrequencyHz) / rate * k
      ring
    rw [mul_assoc, ← Complex.exp_add, ← add_mul, ← Complex.ofReal_add, hturn]
  have hmiddle : (fun n : ℕ => (⟨v.nco.phaseRe, v.nco.phaseIm⟩ : ℂ) * (A * Complex.exp ((ν * n : ℝ) * Complex.I) *
      Fir.response (buildTaps real cfg.sampleRateHz rate) ν)) =
      fun n : ℕ => ⟨v.nco.phaseRe, v.nco.phaseIm⟩ * A * gain ν * Complex.exp ((ν * (n + 64) : ℝ) * Complex.I) := by
    funext n
    have hsplit : Complex.exp ((ν * (n + 64) : ℝ) * Complex.I) =
        Complex.exp ((ν * n : ℝ) * Complex.I) * Complex.exp ((ν * 64 : ℝ) * Complex.I) := by
      rw [← Complex.exp_add, ← add_mul, ← Complex.ofReal_add, mul_add]
    rw [Fir.response_symmetric (buildTaps_symmetric _ _), middle_buildTaps, hsplit]
    ring
  have hout := hv.yields fun n => A * Complex.exp ((turnPerSample rate (f - center) * n : ℝ) * Complex.I)
  simp only [hshift, Fir.correlate_exp] at hout
  rwa [hmiddle] at hout

theorem sum_rawTap_narrow :
    ((List.range 129).map (rawTap real 129 (narrowConfig.sampleRateHz * (45 / 100) / 64))).sum ≠ 0 := by
  apply ne_of_gt
  apply List.sum_pos _ _ (by simp)
  intro tap htap
  obtain ⟨n, hn, rfl⟩ := List.mem_map.mp htap
  exact rawTap_pos (by norm_num [narrowConfig]) (by norm_num [narrowConfig]) (List.mem_range.mp hn)

/-- After a chunk and a retune, every tone is seen from the frequency tuned last. -/
theorem tone_response_narrow : ∃ v₀, construct real narrowConfig 0 64 = .ok v₀ ∧
    ∃ v, (receiver real).run v₀ [.chunk [(1, 0)], .retune 3] = some v ∧ ∃ φ : ℂ, ‖φ‖ = 1 ∧
      let gain := Fir.gain (buildTaps real narrowConfig.sampleRateHz 64)
      gain 0 = 1 ∧ ∀ (A : ℂ) (f : ℝ),
        let ν := turnPerSample 64 (f - v.centerFrequencyHz)
        Yields v (fun n => A * Complex.exp ((turnPerSample 64 (f - 0) * n : ℝ) * Complex.I))
            (fun n => φ * A * gain ν * Complex.exp ((ν * (n + 64) : ℝ) * Complex.I)) ∧
          gain (-ν) = gain ν ∧ |gain ν| ≤ ((buildTaps real narrowConfig.sampleRateHz 64).map fun tap => |tap|).sum := by
  obtain ⟨v₀, h⟩ := construct_narrow
  exact ⟨v₀, h, tone_response narrowConfig 0 64 v₀ h sum_rawTap_narrow [.chunk [(1, 0)], .retune 3]⟩

end VirtualReceiver

end VrxServer.Dsp
