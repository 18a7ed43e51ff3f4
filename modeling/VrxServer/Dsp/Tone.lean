import VrxServer.Dsp.Chunking
import VrxServer.Dsp.RetuneRace
import Mathlib.Analysis.SpecialFunctions.Complex.Circle

/-! A tone at the frequency a receiver is tuned to.

The oscillator turns the tone's every sample back by the angle the tone has advanced, so
that what it hands the decimator is one and the same complex number (`mixLoop_tone`), and
the filter's taps, which add up to 1, leave it as it is (`firAt_constant`). What happened
before, chunks or retunes, is only in the phase the oscillator has reached, which is a
point of the unit circle, and in the filter's history. -/
namespace VrxServer.Dsp
open Base Config

/-- What reaches a receiver: chunks, and the frequencies clients ask for. -/
inductive VrxEvent (K : Type) where
  | chunk (widebandIq : List (K × K))
  | retune (newCenterFrequencyHz : K)

namespace VirtualReceiver

section Receiver
variable {K : Type} [Field K] [LinearOrder K] [FloorRing K] (T : Trig K)

/-- A refused retune leaves the receiver as it was. -/
def handle (v : VirtualReceiver K) : VrxEvent K → Option (VirtualReceiver K)
  | .chunk widebandIq => (v.processWidebandChunk T widebandIq).map Prod.snd
  | .retune newCenterFrequencyHz =>
    match v.retune T newCenterFrequencyHz with
    | .ok v' => some v'
    | .error _ => some v

def receiver : Machine (VirtualReceiver K) (VrxEvent K) := ⟨handle T⟩

/-- The decimator's output for a chunk, before its conversion to bytes. -/
def decimated (v : VirtualReceiver K) (widebandIq : List (K × K)) : Option (List K) :=
  (Decimator.process (Arith.exact K) v.decimator (interleave (v.nco.mixInPlace T widebandIq).1)).map Prod.fst

/-- What a chunk does, by the whole samples of the decimator's history. -/
theorem handle_chunk (v : VirtualReceiver K) (H iq : List (K × K)) (hH : v.decimator.history = interleave H) :
    ∃ d, handle T v (.chunk iq) = some {v with nco := (v.nco.mixInPlace T iq).2, decimator := d} ∧
      v.decimated T iq = some (interleave ((Decimator.positions v.decimator.factor iq.length).map
        (Decimator.firAt (Arith.exact K) v.decimator.taps (H ++ (v.nco.mixInPlace T iq).1)))) ∧
      d.taps = v.decimator.taps ∧ d.factor = v.decimator.factor ∧
      d.history = interleave ((H ++ (v.nco.mixInPlace T iq).1).drop iq.length) := by
  have hlen : (v.nco.mixInPlace T iq).1.length = iq.length := Nco.length_mixLoop _ _ _ _
  obtain ⟨d, hcall, ht, hf, hhist⟩ :=
    Decimator.process_interleave (Arith.exact K) v.decimator H (v.nco.mixInPlace T iq).1 hH
  rw [hlen] at hcall hhist
  refine ⟨d, ?_, ?_, ht, hf, hhist⟩
  · simp only [handle, processWidebandChunk, hcall, Option.bind_eq_bind, Option.bind_some]
    split <;> rfl
  · rw [decimated, hcall]
    rfl

end Receiver

end VirtualReceiver

/-! ### The mixer on complex samples -/

/-- A complex number as a sample. -/
def iqOf (z : ℂ) : ℝ × ℝ := (z.re, z.im)

theorem mixLoop_cons (ρ φ z : ℂ) (iq : List (ℝ × ℝ)) :
    Nco.mixLoop ρ.re ρ.im (iqOf φ) (iqOf z :: iq) =
      (iqOf (z * φ) :: (Nco.mixLoop ρ.re ρ.im (iqOf (φ * ρ)) iq).1,
        (Nco.mixLoop ρ.re ρ.im (iqOf (φ * ρ)) iq).2) := rfl

/-- Samples that turn one way under an oscillator that turns the other stand still. -/
theorem mixLoop_tone (ρ e A φ : ℂ) (hρ : e * ρ = 1) (P n : ℕ) :
    Nco.mixLoop ρ.re ρ.im (iqOf (φ * ρ ^ P)) ((List.range' P n).map fun k => iqOf (A * e ^ k)) =
      (List.replicate n (iqOf (A * φ)), iqOf (φ * ρ ^ (P + n))) := by
  have hstill : ∀ k, A * e ^ k * (φ * ρ ^ k) = A * φ := by
    intro k
    calc A * e ^ k * (φ * ρ ^ k) = A * φ * (e * ρ) ^ k := by rw [mul_pow]; ring
      _ = A * φ := by rw [hρ, one_pow, mul_one]
  induction n generalizing P with
  | zero => rfl
  | succ n ih =>
    have hphase : φ * ρ ^ P * ρ = φ * ρ ^ (P + 1) := by rw [pow_succ, mul_assoc]
    rw [List.range'_succ, List.map_cons, mixLoop_cons, hphase, ih (P + 1), hstill, List.replicate_succ,
      Nat.add_right_comm]
    rfl

theorem hypot_iqOf (z : ℂ) : Trig.real.hypot (iqOf z).1 (iqOf z).2 = ‖z‖ := by
  rw [Complex.norm_def, Complex.normSq_apply, ← pow_two, ← pow_two]
  rfl

theorem mixInPlace_tone (nco : Nco ℝ) {ρ e φ : ℂ} (A : ℂ) (hρ : e * ρ = 1) (hφ₁ : ‖φ‖ = 1) (hρ₁ : ‖ρ‖ = 1)
    (P n : ℕ) (hrot : (nco.rotationRe, nco.rotationIm) = iqOf ρ)
    (hphase : (nco.phaseRe, nco.phaseIm) = iqOf (φ * ρ ^ P)) :
    nco.mixInPlace Trig.real ((List.range' P n).map fun k => iqOf (A * e ^ k)) =
      (List.replicate n (iqOf (A * φ)),
        {nco with phaseRe := (φ * ρ ^ (P + n)).re, phaseIm := (φ * ρ ^ (P + n)).im}) := by
  obtain ⟨hre, him⟩ := Prod.mk.inj hrot
  have hmag : ‖φ * ρ ^ (P + n)‖ = 1 := by rw [norm_mul, norm_pow, hφ₁, hρ₁, one_pow, one_mul]
  simp only [Nco.mixInPlace, hre, him, hphase, mixLoop_tone ρ e A φ hρ P n, hypot_iqOf, hmag, div_one]
  rfl

/-! ### The filter on a constant -/

theorem window_replicate {K : Type} [CommRing K] (taps : List K) (n : ℕ) (c acc : K × K) (h : taps.length ≤ n) :
    (taps.zip (List.replicate n c)).foldl
        (fun acc p => ((Arith.exact K).mac acc.1 p.2.1 p.1, (Arith.exact K).mac acc.2 p.2.2 p.1)) acc =
      (acc.1 + c.1 * taps.sum, acc.2 + c.2 * taps.sum) := by
  induction taps generalizing n acc with
  | nil => simp
  | cons tap taps ih =>
    obtain ⟨m, rfl⟩ : ∃ m, n = m + 1 := ⟨n - 1, by rw [List.length_cons] at h; omega⟩
    rw [List.replicate_succ, List.zip_cons_cons, List.foldl_cons, ih m _ (Nat.le_of_succ_le_succ h),
      List.sum_cons]
    apply Prod.ext
    · show acc.1 + c.1 * tap + c.1 * taps.sum = acc.1 + c.1 * (tap + taps.sum)
      ring
    · show acc.2 + c.2 * tap + c.2 * taps.sum = acc.2 + c.2 * (tap + taps.sum)
      ring

/-- Taps that add up to 1 leave a constant as it is. -/
theorem firAt_constant {K : Type} [CommRing K] {taps : List K} (hsum : taps.sum = 1) (H : List (K × K)) (n : ℕ)
    (c : K × K) {p : ℕ} (hp : H.length ≤ p) (hn : p + taps.length ≤ H.length + n) :
    Decimator.firAt (Arith.exact K) taps (H ++ List.replicate n c) p = c := by
  have hdrop : (H ++ List.replicate n c).drop p = List.replicate (n - (p - H.length)) c := by
    rw [List.drop_append, List.drop_eq_nil_of_le hp, List.nil_append, List.drop_replicate]
  rw [Decimator.firAt, hdrop, Decimator.window, window_replicate taps _ c _ (by omega), hsum, mul_one, mul_one]
  exact Prod.ext (zero_add c.1) (zero_add c.2)

theorem designLowPassFir_sum {K : Type} [Field K] [LinearOrder K] (T : Trig K) {numTaps : ℕ}
    {cutoffHz sampleRateHz : K}
    (h : ((List.range numTaps).map (rawTap T numTaps (cutoffHz / sampleRateHz))).sum ≠ 0) :
    (designLowPassFir T numTaps cutoffHz sampleRateHz).sum = 1 := by
  simp only [designLowPassFir, div_eq_mul_inv] at h ⊢
  rw [List.sum_map_mul_right, List.map_id', mul_inv_cancel₀ h]

/-! ### A receiver that hears the tone -/

namespace VirtualReceiver
open Trig

/-- What chunks and retunes leave true of a receiver: it turns at the frequency it is tuned
to, with a phase of modulus 1. -/
structure Tuned (taps : List ℝ) (factor : ℕ) (center rate : ℝ) (v : VirtualReceiver ℝ) : Prop where
  center_eq : v.widebandCenterHz = center
  rate_eq : v.nco.sampleRateHz = rate
  taps_eq : v.decimator.taps = taps
  factor_eq : v.decimator.factor = factor
  phase_unit : v.nco.phaseRe ^ 2 + v.nco.phaseIm ^ 2 = 1
  rotationRe_eq : v.nco.rotationRe = Real.cos (Nco.phaseIncrement real rate (v.centerFrequencyHz - center))
  rotationIm_eq : v.nco.rotationIm = Real.sin (Nco.phaseIncrement real rate (v.centerFrequencyHz - center))

/-- The decimator's history is whole samples. -/
theorem exists_history {K : Type} [Zero K] (v : VirtualReceiver K) : ∃ H, v.decimator.history = interleave H ∧
    H.length = v.decimator.taps.length - 1 := by
  have hlen := v.decimator.history_length
  have heven : Even v.decimator.history.length := by
    rw [hlen]
    exact Even.mul_left even_two _
  obtain ⟨H, hH⟩ := exists_interleave heven
  refine ⟨H, hH.symm, ?_⟩
  rw [← hH, length_interleave] at hlen
  omega

theorem phase_mixInPlace (nco : Nco ℝ) (iq : List (ℝ × ℝ)) (hphase : nco.phaseRe ^ 2 + nco.phaseIm ^ 2 = 1)
    (hrot : nco.rotationRe ^ 2 + nco.rotationIm ^ 2 = 1) :
    (nco.mixInPlace real iq).2.phaseRe ^ 2 + (nco.mixInPlace real iq).2.phaseIm ^ 2 = 1 := by
  have h := Nco.mixLoop_normSq nco.rotationRe nco.rotationIm (nco.phaseRe, nco.phaseIm) iq
  simp only [hphase, hrot, one_pow, mul_one] at h
  simp only [Nco.mixInPlace, real, h, Real.sqrt_one, div_one]

variable {taps : List ℝ} {factor : ℕ} {center rate : ℝ} {v : VirtualReceiver ℝ}

theorem Tuned.rotation (h : Tuned taps factor center rate v) :
    v.nco.rotationRe ^ 2 + v.nco.rotationIm ^ 2 = 1 := by
  rw [h.rotationRe_eq, h.rotationIm_eq, Real.cos_sq_add_sin_sq]

/-- Neither a chunk nor a retune fails, and what is true of the receiver stays true. -/
theorem Tuned.handle (h : Tuned taps factor center rate v) (event : VrxEvent ℝ) :
    ∃ w, handle real v event = some w ∧ Tuned taps factor center rate w := by
  cases event with
  | chunk iq =>
    obtain ⟨H, hH, -⟩ := exists_history v
    obtain ⟨d, hw, -, ht, hf, -⟩ := handle_chunk real v H iq hH
    exact ⟨_, hw, h.center_eq, h.rate_eq, ht.trans h.taps_eq, hf.trans h.factor_eq,
      phase_mixInPlace v.nco iq h.phase_unit h.rotation, h.rotationRe_eq, h.rotationIm_eq⟩
  | retune f =>
    simp only [VirtualReceiver.handle, retune]
    cases assertWithinSpan v.widebandCenterHz v.widebandSampleRateHz f with
    | error e => exact ⟨v, rfl, h⟩
    | ok _ =>
      refine ⟨_, rfl, h.center_eq, h.rate_eq, h.taps_eq, h.factor_eq, h.phase_unit, ?_, ?_⟩
      · show Real.cos _ = _
        rw [h.rate_eq, h.center_eq]
      · show Real.sin _ = _
        rw [h.rate_eq, h.center_eq]

theorem Tuned.run (h : Tuned taps factor center rate v) (events : List (VrxEvent ℝ)) :
    ∃ w, (receiver real).run v events = some w ∧ Tuned taps factor center rate w := by
  induction events generalizing v with
  | nil => exact ⟨v, rfl, h⟩
  | cons event events ih =>
    obtain ⟨u, hu, hut⟩ := h.handle event
    obtain ⟨w, hw, hwt⟩ := ih hut
    exact ⟨w, by rw [Machine.run_cons]; exact Option.bind_eq_some_iff.mpr ⟨u, hu, hw⟩, hwt⟩

/-- A receiver that has heard `P` samples of the tone: its oscillator has turned with it, and
its filter has seen the constant `c` behind what was there before, `H`. -/
structure Hears (taps : List ℝ) (factor : ℕ) (ρ φ : ℂ) (H : List (ℝ × ℝ)) (c : ℂ) (P : ℕ)
    (w : VirtualReceiver ℝ) : Prop where
  rotation_eq : (w.nco.rotationRe, w.nco.rotationIm) = iqOf ρ
  phase_eq : (w.nco.phaseRe, w.nco.phaseIm) = iqOf (φ * ρ ^ P)
  taps_eq : w.decimator.taps = taps
  factor_eq : w.decimator.factor = factor
  history_eq : w.decimator.history = interleave ((H ++ List.replicate P (iqOf c)).drop P)

theorem split_range' {α : Type} (f : ℕ → α) {as bs : List α} {P m : ℕ} (h : as ++ bs = (List.range' P m).map f) :
    as = (List.range' P as.length).map f ∧ bs = (List.range' (P + as.length) bs.length).map f ∧
      m = as.length + bs.length := by
  have hm : m = as.length + bs.length := by
    rw [← List.length_append, h, List.length_map, List.length_range']
  rw [hm, ← List.range'_append_1, List.map_append] at h
  obtain ⟨h₁, h₂⟩ := List.append_inj h (by rw [List.length_map, List.length_range'])
  exact ⟨h₁, h₂, hm⟩

section Hears
variable {ρ e φ A : ℂ} {H : List (ℝ × ℝ)} {P : ℕ} {w : VirtualReceiver ℝ}
variable (hρ : e * ρ = 1) (hφ₁ : ‖φ‖ = 1) (hρ₁ : ‖ρ‖ = 1)
include hρ hφ₁ hρ₁

theorem Hears.chunk (h : Hears taps factor ρ φ H (A * φ) P w) (n : ℕ) :
    let iq := (List.range' P n).map fun k => iqOf (A * e ^ k)
    (∃ w', VirtualReceiver.handle real w (.chunk iq) = some w' ∧ Hears taps factor ρ φ H (A * φ) (P + n) w') ∧
      w.decimated real iq = some (interleave ((Decimator.positions factor n).map
        (Decimator.firAt (Arith.exact ℝ) taps
          ((H ++ List.replicate (P + n) (iqOf (A * φ))).drop P)))) := by
  intro iq
  have hmix := mixInPlace_tone w.nco A hρ hφ₁ hρ₁ P n h.rotation_eq h.phase_eq
  obtain ⟨d, hw, hout, ht, hf, hhist⟩ := handle_chunk real w _ iq h.history_eq
  have hlen : iq.length = n := by rw [List.length_map, List.length_range']
  have hgrow : (H ++ List.replicate P (iqOf (A * φ))).drop P ++ List.replicate n (iqOf (A * φ)) =
      (H ++ List.replicate (P + n) (iqOf (A * φ))).drop P := by
    rw [List.replicate_add, ← List.append_assoc]
    refine (List.drop_append_of_le_length ?_).symm
    rw [List.length_append, List.length_replicate]
    omega
  rw [hlen, h.taps_eq, h.factor_eq, hmix, hgrow] at hout
  rw [hlen, hmix, hgrow, List.drop_drop] at hhist
  rw [hmix] at hw
  exact ⟨⟨_, hw, h.rotation_eq, rfl, ht.trans h.taps_eq, hf.trans h.factor_eq, hhist⟩, hout⟩

theorem Hears.run (h : Hears taps factor ρ φ H (A * φ) P w) (done : List (List (ℝ × ℝ))) {m : ℕ}
    (hdone : done.flatten = (List.range' P m).map fun k => iqOf (A * e ^ k)) :
    ∃ w', (receiver real).run w (done.map .chunk) = some w' ∧ Hears taps factor ρ φ H (A * φ) (P + m) w' := by
  induction done generalizing P w m with
  | nil =>
    have : m = 0 := by simpa using (congrArg List.length hdone).symm
    exact ⟨w, rfl, this ▸ h⟩
  | cons iq done ih =>
    obtain ⟨hiq, hrest, rfl⟩ := split_range' _ hdone
    obtain ⟨⟨u, hu, hut⟩, -⟩ := h.chunk hρ hφ₁ hρ₁ iq.length
    rw [← hiq] at hu
    obtain ⟨w', hw, hwt⟩ := ih hut hrest
    rw [Nat.add_assoc] at hwt
    exact ⟨w', by rw [List.map_cons, Machine.run_cons]; exact Option.bind_eq_some_iff.mpr ⟨u, hu, hw⟩, hwt⟩

end Hears

/-- The wideband samples of a tone of amplitude `A`, `d` Hz from the centre. -/
noncomputable def tone (A : ℂ) (d rate : ℝ) (n : ℕ) : ℝ × ℝ :=
  iqOf (A * Complex.exp ((2 * Real.pi * d * n / rate : ℝ) * Complex.I))

theorem tone_eq (A : ℂ) (d rate : ℝ) (n : ℕ) :
    tone A d rate n = iqOf (A * Complex.exp ((2 * Real.pi * d / rate : ℝ) * Complex.I) ^ n) := by
  rw [tone, ← Complex.exp_nat_mul]
  congr 3
  push_cast
  ring

/-- However the tone's samples are cut into chunks, what the decimator makes of a window
that holds nothing else is `c`. The `o`-th window of a chunk after `done` begins
`numTaps - 1` samples before the tone's sample `done.flatten.length + o * factor`. -/
def PassesTone (center rate : ℝ) (v : VirtualReceiver ℝ) (A c : ℂ) : Prop :=
  ∀ (done : List (List (ℝ × ℝ))) (iq : List (ℝ × ℝ)),
    done.flatten ++ iq = (List.range (done.flatten.length + iq.length)).map
      (tone A (v.centerFrequencyHz - center) rate) →
    ∃ w out, (receiver real).run v (done.map .chunk) = some w ∧ w.decimated real iq = some out ∧
      out.length = iq.length / v.decimator.factor * 2 ∧
      ∀ o, o < iq.length / v.decimator.factor →
        v.decimator.taps.length - 1 ≤ done.flatten.length + o * v.decimator.factor →
          out[o * 2]? = some c.re ∧ out[o * 2 + 1]? = some c.im

/-- In one sample the oscillator turns back by what the tone at its frequency advances. -/
theorem tone_mul_rotation (d rate : ℝ) :
    Complex.exp ((2 * Real.pi * d / rate : ℝ) * Complex.I) *
      Complex.exp (Nco.phaseIncrement real rate d * Complex.I) = 1 := by
  have hzero : 2 * Real.pi * d / rate + Nco.phaseIncrement real rate d = 0 := by
    show _ + -2 * Real.pi * d / rate = 0
    ring
  rw [← Complex.exp_add, ← add_mul, ← Complex.ofReal_add, hzero, Complex.ofReal_zero, zero_mul, Complex.exp_zero]

/-- A tuned receiver before the first sample of a tone. -/
theorem Tuned.hears (h : Tuned taps factor center rate v) (c : ℂ) :
    ∃ H, H.length = taps.length - 1 ∧
      Hears taps factor (Complex.exp (Nco.phaseIncrement real rate (v.centerFrequencyHz - center) * Complex.I))
        ⟨v.nco.phaseRe, v.nco.phaseIm⟩ H c 0 v := by
  obtain ⟨H, hH, hHlen⟩ := exists_history v
  rw [h.taps_eq] at hHlen
  refine ⟨H, hHlen, ?_, ?_, h.taps_eq, h.factor_eq, ?_⟩
  · exact Prod.ext (h.rotationRe_eq.trans (Complex.exp_ofReal_mul_I_re _).symm)
      (h.rotationIm_eq.trans (Complex.exp_ofReal_mul_I_im _).symm)
  · rw [pow_zero, mul_one]
    rfl
  · rw [List.replicate_zero, List.append_nil, List.drop_zero]
    exact hH

/-- A tuned receiver passes the tone it is tuned to, at the phase it has reached. -/
theorem Tuned.passesTone (h : Tuned taps factor center rate v) (hsum : taps.sum = 1) (A : ℂ) :
    PassesTone center rate v A (A * ⟨v.nco.phaseRe, v.nco.phaseIm⟩) := by
  intro done iq htone
  have hρ := tone_mul_rotation (v.centerFrequencyHz - center) rate
  have hφ₁ : ‖(⟨v.nco.phaseRe, v.nco.phaseIm⟩ : ℂ)‖ = 1 := Angle.norm_of_unit h.phase_unit
  have hρ₁ := Complex.norm_exp_ofReal_mul_I (Nco.phaseIncrement real rate (v.centerFrequencyHz - center))
  obtain ⟨H, hHlen, hstart⟩ := h.hears (A * ⟨v.nco.phaseRe, v.nco.phaseIm⟩)
  rw [funext (tone_eq A _ rate), List.range_eq_range'] at htone
  obtain ⟨hdone, hiq, -⟩ := split_range' _ htone
  obtain ⟨w, hrun, hw⟩ := hstart.run hρ hφ₁ hρ₁ done hdone
  obtain ⟨-, hout⟩ := hw.chunk hρ hφ₁ hρ₁ iq.length
  rw [← hiq, Nat.zero_add] at hout
  rw [h.factor_eq, h.taps_eq]
  refine ⟨w, _, hrun, hout, ?_, fun o ho hwin => ?_⟩
  · rw [length_interleave, List.length_map, Decimator.positions, List.length_map, List.length_range]
  · have hle := Decimator.position_lt (List.mem_map.mpr ⟨o, List.mem_range.mpr ho, rfl⟩)
    have hf : 0 < factor := h.factor_eq ▸ v.decimator.factor_pos
    have hconst := firAt_constant hsum H (done.flatten.length + iq.length)
      (iqOf (A * ⟨v.nco.phaseRe, v.nco.phaseIm⟩)) (p := done.flatten.length + o * factor) (by omega) (by omega)
    obtain ⟨hi, hq⟩ := Decimator.getElem?_positions (Decimator.firAt (Arith.exact ℝ) taps
      ((H ++ List.replicate (done.flatten.length + iq.length) (iqOf (A * ⟨v.nco.phaseRe, v.nco.phaseIm⟩))).drop
        done.flatten.length)) ho
    rw [Decimator.firAt_drop, hconst] at hi hq
    exact ⟨hi, hq⟩

/-- A constructed receiver is tuned. -/
theorem construct_tuned {cfg : VirtualReceiverConfig ℝ} (h : construct real cfg center rate = .ok v) :
    Tuned (buildTaps real cfg.sampleRateHz rate) v.decimator.factor center rate v := by
  obtain ⟨-, -, -, -, hcenter, -, hfreq, hnco⟩ := construct_ok real h
  refine ⟨hcenter, ?_, construct_taps real h, rfl, ?_, ?_, ?_⟩ <;> rw [hnco]
  · rfl
  · simp [Nco.setOffsetHz, Nco.construct]
  · rw [hfreq]
    rfl
  · rw [hfreq]
    rfl

/-- **A tone at the tuned frequency comes out as a constant of its own amplitude**, after
whatever chunks and retunes, and however its samples are cut. -/
theorem tone_constant (cfg : VirtualReceiverConfig ℝ) (center rate : ℝ) (v₀ : VirtualReceiver ℝ)
    (h : construct real cfg center rate = .ok v₀)
    (hsum : ((List.range 129).map (rawTap real 129 (cfg.sampleRateHz * (45 / 100) / rate))).sum ≠ 0)
    (events : List (VrxEvent ℝ)) (A : ℂ) :
    ∃ v, (receiver real).run v₀ events = some v ∧ ∃ c : ℂ, ‖c‖ = ‖A‖ ∧ PassesTone center rate v A c := by
  obtain ⟨v, hrun, hv⟩ := (construct_tuned h).run events
  refine ⟨v, hrun, _, ?_, hv.passesTone (designLowPassFir_sum real hsum) A⟩
  rw [norm_mul, Angle.norm_of_unit hv.phase_unit, mul_one]

/-- Under a cutoff so low that the sinc's first zeros lie outside the filter, every tap is
positive. -/
theorem rawTap_pos {numTaps n : ℕ} {fc : ℝ} (hfc : 0 < fc) (hwide : fc * ((numTaps : ℝ) - 1) < 1)
    (hn : n < numTaps) : 0 < rawTap real numTaps fc n := by
  have hπ := Real.pi_pos
  have hn' : (n : ℝ) ≤ (numTaps : ℝ) - 1 := by
    have : ((n + 1 : ℕ) : ℝ) ≤ numTaps := Nat.cast_le.mpr hn
    push_cast at this
    linarith
  have hn₀ : (0 : ℝ) ≤ n := Nat.cast_nonneg n
  have hwindow : 0 < 54 / 100 - 46 / 100 * Real.cos (2 * Real.pi * n / ((numTaps : ℝ) - 1)) := by
    have := Real.cos_le_one (2 * Real.pi * n / ((numTaps : ℝ) - 1))
    linarith
  have hsin : ∀ x : ℝ, 0 < x → x ≤ ((numTaps : ℝ) - 1) / 2 → 0 < Real.sin (2 * Real.pi * fc * x) := by
    intro x hx hle
    refine Real.sin_pos_of_pos_of_lt_pi (by positivity) ?_
    nlinarith [mul_le_mul_of_nonneg_left hle hfc.le]
  refine mul_pos ?_ hwindow
  split
  · linarith
  · next hx =>
    rcases lt_or_gt_of_ne hx with hneg | hpos
    · have h := hsin (-((n : ℝ) - ((numTaps : ℝ) - 1) / 2)) (by linarith) (by linarith)
      rw [mul_neg, Real.sin_neg] at h
      exact div_pos_of_neg_of_neg (neg_pos.mp h) (mul_neg_of_pos_of_neg hπ hneg)
    · exact div_pos (hsin _ hpos (by linarith)) (mul_pos hπ hpos)

/-- Rates far enough apart that all taps are positive. -/
def narrowConfig : VirtualReceiverConfig ℝ := ⟨"vrx", 1234, 0, 0, 1⟩

theorem construct_narrow : ∃ v, construct real narrowConfig 0 64 = .ok v := by
  have htrunc : trunc (64 : ℝ) = 64 := by norm_num [trunc]
  refine (construct_ok_iff real narrowConfig 0 64).mpr ⟨⟨64, ?_, by decide⟩, ?_, ?_, ?_⟩
  · simp [narrowConfig, castInt_eq_some, htrunc]
  · simp [narrowConfig, fmod, htrunc]
  · norm_num [narrowConfig]
  · norm_num [narrowConfig]

/-- A tone three hertz up, after a chunk and a retune to it. -/
theorem tone_constant_narrow : ∃ v₀, construct real narrowConfig 0 64 = .ok v₀ ∧
    ∃ v, (receiver real).run v₀ [.chunk [(1, 0)], .retune 3] = some v ∧
      ∃ c : ℂ, ‖c‖ = ‖(2 : ℂ)‖ ∧ PassesTone 0 64 v 2 c := by
  obtain ⟨v₀, h⟩ := construct_narrow
  refine ⟨v₀, h, tone_constant narrowConfig 0 64 v₀ h (ne_of_gt ?_) [.chunk [(1, 0)], .retune 3] 2⟩
  refine List.sum_pos _ (fun tap htap => ?_) (by simp)
  obtain ⟨n, hn, rfl⟩ := List.mem_map.mp htap
  exact rawTap_pos (by norm_num [narrowConfig]) (by norm_num [narrowConfig]) (List.mem_range.mp hn)

end VirtualReceiver

end VrxServer.Dsp
