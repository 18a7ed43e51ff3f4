import VrxServer.Base.Ends
import VrxServer.Dsp.Tone

/-! What a receiver is tuned to.

The centre frequency and the oscillator's rotation are kept in two objects, and `retune`
writes them one after the other, behind a check. `retuneInPlace` is that sequence on the
receiver itself, so that what an exception leaves behind is visible: nothing has been
written when the check throws. In every state that chunks and retunes lead to the centre is
in the span and the rotation is the one for it (`Located.run`). -/
namespace VrxServer.Dsp.VirtualReceiver
open Base Config

section
variable {K : Type} [Field K] [LinearOrder K] (T : Trig K)

/-- `retune`, statement by statement. -/
def retuneInPlace (newCenterFrequencyHz : K) : EStateM (VrxError K) (VirtualReceiver K) Unit := do
  let v ← get
  MonadExcept.ofExcept (assertWithinSpan v.widebandCenterHz v.widebandSampleRateHz newCenterFrequencyHz)
  modify fun v => {v with centerFrequencyHz := newCenterFrequencyHz}
  modify fun v => {v with nco := v.nco.setOffsetHz T (newCenterFrequencyHz - v.widebandCenterHz)}

/-- In the span, the centre and the rotation change and nothing else. -/
theorem retuneInPlace_ok (v : VirtualReceiver K) {f : K}
    (h : v.widebandCenterHz - v.widebandSampleRateHz / 2 ≤ f ∧ f ≤ v.widebandCenterHz + v.widebandSampleRateHz / 2) :
    retuneInPlace T f v = .ok () {v with
      centerFrequencyHz := f
      nco := {v.nco with
        rotationRe := T.cos (Nco.phaseIncrement T v.nco.sampleRateHz (f - v.widebandCenterHz))
        rotationIm := T.sin (Nco.phaseIncrement T v.nco.sampleRateHz (f - v.widebandCenterHz))}} := by
  have hcheck := assertWithinSpan_ok.mpr h
  rw [retuneInPlace, get_bind, hcheck]
  rfl

/-- Outside it nothing changes. -/
theorem retuneInPlace_error (v : VirtualReceiver K) {f : K}
    (h : ¬ (v.widebandCenterHz - v.widebandSampleRateHz / 2 ≤ f ∧
      f ≤ v.widebandCenterHz + v.widebandSampleRateHz / 2)) :
    retuneInPlace T f v = .error (.outOfSpan f (v.widebandCenterHz - v.widebandSampleRateHz / 2)
      (v.widebandCenterHz + v.widebandSampleRateHz / 2)) v := by
  have hcheck : assertWithinSpan v.widebandCenterHz v.widebandSampleRateHz f =
      .error (.outOfSpan f (v.widebandCenterHz - v.widebandSampleRateHz / 2)
        (v.widebandCenterHz + v.widebandSampleRateHz / 2)) := by
    simp only [not_and_or, not_le] at h
    rw [assertWithinSpan, if_pos h]
  rw [retuneInPlace, get_bind, hcheck]
  rfl

/-- The receiver an operation leaves, whether it returned or threw. -/
def stateAfter {ε α : Type} : EStateM.Result ε (VirtualReceiver K) α → VirtualReceiver K
  | .ok _ v => v
  | .error _ v => v

/-- What a receiver keeps in step: its centre in the span of the capture, its rotation the
one for its centre. -/
structure Located (center rate : K) (v : VirtualReceiver K) : Prop where
  center_eq : v.widebandCenterHz = center
  rate_eq : v.widebandSampleRateHz = rate
  ncoRate_eq : v.nco.sampleRateHz = rate
  above : center - rate / 2 ≤ v.centerFrequencyHz
  below : v.centerFrequencyHz ≤ center + rate / 2
  rotationRe_eq : v.nco.rotationRe = T.cos (Nco.phaseIncrement T rate (v.centerFrequencyHz - center))
  rotationIm_eq : v.nco.rotationIm = T.sin (Nco.phaseIncrement T rate (v.centerFrequencyHz - center))

variable {T} {center rate : K} {v : VirtualReceiver K}

theorem Located.retune (h : Located T center rate v) (f : K) :
    Located T center rate (stateAfter (retuneInPlace T f v)) := by
  by_cases hspan : v.widebandCenterHz - v.widebandSampleRateHz / 2 ≤ f ∧
      f ≤ v.widebandCenterHz + v.widebandSampleRateHz / 2
  · rw [retuneInPlace_ok T v hspan]
    rw [h.center_eq, h.rate_eq] at hspan
    refine ⟨h.center_eq, h.rate_eq, h.ncoRate_eq, hspan.1, hspan.2, ?_, ?_⟩
    · simp only [stateAfter, h.ncoRate_eq, h.center_eq]
    · simp only [stateAfter, h.ncoRate_eq, h.center_eq]
  · rw [retuneInPlace_error T v hspan]
    exact h

/-! ### Over a run -/

variable [FloorRing K]

/-- The retune of a run is the one on the receiver itself. -/
theorem handle_retune (v : VirtualReceiver K) (f : K) :
    handle T v (.retune f) = some (stateAfter (retuneInPlace T f v)) := by
  by_cases hspan : v.widebandCenterHz - v.widebandSampleRateHz / 2 ≤ f ∧
      f ≤ v.widebandCenterHz + v.widebandSampleRateHz / 2
  · have hcheck := assertWithinSpan_ok.mpr hspan
    simp only [retuneInPlace_ok T v hspan, handle, VirtualReceiver.retune, hcheck]
    rfl
  · rw [retuneInPlace_error T v hspan]
    simp only [not_and_or, not_le] at hspan
    simp only [handle, VirtualReceiver.retune, assertWithinSpan, if_pos hspan]
    rfl

/-- A chunk never fails, and leaves centre and rotation alone. -/
theorem Located.handle (h : Located T center rate v) (event : VrxEvent K) :
    ∃ w, handle T v event = some w ∧ Located T center rate w := by
  cases event with
  | chunk iq =>
    obtain ⟨H, hH, -⟩ := exists_history v
    obtain ⟨d, hw, -⟩ := handle_chunk T v H iq hH
    exact ⟨_, hw, h.center_eq, h.rate_eq, h.ncoRate_eq, h.above, h.below, h.rotationRe_eq, h.rotationIm_eq⟩
  | retune f => exact ⟨_, handle_retune v f, h.retune f⟩

theorem Located.run (h : Located T center rate v) (events : List (VrxEvent K)) :
    ∃ w, (receiver T).run v events = some w ∧ Located T center rate w := by
  induction events generalizing v with
  | nil => exact ⟨v, rfl, h⟩
  | cons event events ih =>
    obtain ⟨u, hu, hut⟩ := h.handle event
    obtain ⟨w, hw, hwt⟩ := ih hut
    exact ⟨w, by rw [Machine.run_cons]; exact Option.bind_eq_some_iff.mpr ⟨u, hu, hw⟩, hwt⟩

theorem construct_located {cfg : VirtualReceiverConfig K} (h : construct T cfg center rate = .ok v) :
    Located T center rate v := by
  obtain ⟨-, -, -, ⟨hlo, hhi⟩, hc, hr, hf, hnco⟩ := construct_ok T h
  refine ⟨hc, hr, by rw [hnco]; rfl, hf ▸ hlo, hf ▸ hhi, ?_, ?_⟩
  · rw [hnco, hf]
    rfl
  · rw [hnco, hf]
    rfl

/-- **Wherever chunks and retunes lead, the centre is in the span and the oscillator turns
for it**; a retune is accepted exactly in the span, changes then nothing but centre and
rotation, and otherwise nothing at all. -/
theorem tuning_atomic (T : Trig K) (cfg : VirtualReceiverConfig K) (center rate : K) (v₀ : VirtualReceiver K)
    (h : construct T cfg center rate = .ok v₀) (events : List (VrxEvent K)) :
    ∃ v, (receiver T).run v₀ events = some v ∧
      v.widebandCenterHz = center ∧ v.widebandSampleRateHz = rate ∧
      center - rate / 2 ≤ v.centerFrequencyHz ∧ v.centerFrequencyHz ≤ center + rate / 2 ∧
      v.nco.rotationRe = T.cos (Nco.phaseIncrement T rate (v.centerFrequencyHz - center)) ∧
      v.nco.rotationIm = T.sin (Nco.phaseIncrement T rate (v.centerFrequencyHz - center)) ∧
      ∀ f, (center - rate / 2 ≤ f ∧ f ≤ center + rate / 2 →
          retuneInPlace T f v = .ok () {v with
            centerFrequencyHz := f
            nco := {v.nco with
              rotationRe := T.cos (Nco.phaseIncrement T rate (f - center))
              rotationIm := T.sin (Nco.phaseIncrement T rate (f - center))}}) ∧
        (¬ (center - rate / 2 ≤ f ∧ f ≤ center + rate / 2) →
          retuneInPlace T f v = .error (.outOfSpan f (center - rate / 2) (center + rate / 2)) v) := by
  obtain ⟨v, hrun, hv⟩ := (construct_located h).run events
  refine ⟨v, hrun, hv.center_eq, hv.rate_eq, hv.above, hv.below, hv.rotationRe_eq, hv.rotationIm_eq, fun f => ⟨?_, ?_⟩⟩
  · intro hspan
    rw [← hv.center_eq, ← hv.rate_eq] at hspan
    rw [retuneInPlace_ok T v hspan]
    simp only [hv.ncoRate_eq, hv.center_eq]
  · intro hspan
    rw [← hv.center_eq, ← hv.rate_eq] at hspan
    rw [retuneInPlace_error T v hspan, hv.center_eq, hv.rate_eq]

end

/-- A retune beyond the upper edge, at 32 Hz, between a chunk and one inside. -/
theorem tuning_atomic_narrow : ∃ v₀, construct Trig.real narrowConfig 0 64 = .ok v₀ ∧
    ∃ v, (receiver Trig.real).run v₀ [.chunk [(1, 0)], .retune 40, .retune 3] = some v ∧
      0 - 64 / 2 ≤ v.centerFrequencyHz ∧ v.centerFrequencyHz ≤ 0 + 64 / 2 := by
  obtain ⟨v₀, h⟩ := construct_narrow
  obtain ⟨v, hrun, -, -, hlo, hhi, -⟩ :=
    tuning_atomic Trig.real narrowConfig 0 64 v₀ h [.chunk [(1, 0)], .retune 40, .retune 3]
  exact ⟨v₀, h, v, hrun, hlo, hhi⟩

end VrxServer.Dsp.VirtualReceiver
