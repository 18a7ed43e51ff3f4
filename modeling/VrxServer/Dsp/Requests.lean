import VrxServer.Dsp.Tuning

/-! What a receiver makes of the frequencies asked of it.

A frequency in the span replaces the one before it, and one outside does nothing; no chunk
touches either. So a receiver is tuned to the last frequency in the span that it was asked
for (`Located.last_requested`), whatever came between. -/
namespace VrxServer.Dsp
open Base Config

/-- The frequency an event asks for. -/
def VrxEvent.requested {K : Type} : VrxEvent K → Option K
  | .chunk _ => none
  | .retune newCenterFrequencyHz => some newCenterFrequencyHz

namespace VirtualReceiver
variable {K : Type} [Field K] [LinearOrder K]

/-- A retune to this frequency is accepted. -/
def inSpan (center rate f : K) : Bool := center - rate / 2 ≤ f ∧ f ≤ center + rate / 2

variable [FloorRing K] {T : Trig K} {center rate : K}

/-- One request: it is followed in the span, and not heard outside. -/
theorem Located.retuned {v w : VirtualReceiver K} (h : Located T center rate v) {f : K}
    (hstep : VirtualReceiver.handle T v (.retune f) = some w) :
    w.centerFrequencyHz = if inSpan center rate f then f else v.centerFrequencyHz := by
  rw [handle_retune] at hstep
  obtain rfl := Option.some.inj hstep
  by_cases hspan : v.widebandCenterHz - v.widebandSampleRateHz / 2 ≤ f ∧
      f ≤ v.widebandCenterHz + v.widebandSampleRateHz / 2
  · rw [retuneInPlace_ok T v hspan]
    rw [h.center_eq, h.rate_eq] at hspan
    rw [inSpan, decide_eq_true hspan]
    rfl
  · rw [retuneInPlace_error T v hspan]
    rw [h.center_eq, h.rate_eq] at hspan
    rw [inSpan, decide_eq_false hspan]
    rfl

/-- The decimation factor is the quotient of the rates. -/
theorem construct_factor {cfg : VirtualReceiverConfig K} {v : VirtualReceiver K} (h : construct T cfg center rate = .ok v) :
    castInt (rate / cfg.sampleRateHz) = some (v.decimator.factor : ℤ) := by
  obtain ⟨⟨d, n⟩, hd, h₁⟩ := bind_ok h
  obtain ⟨⟨⟩, -, h₂⟩ := bind_ok h₁
  obtain ⟨⟨⟩, -, h₃⟩ := bind_ok h₂
  obtain ⟨hcast, hpos, hfresh⟩ := (constructDecimator_ok (buildTaps_ne T _ _)).mp hd
  cases h₃
  rw [hcast, hfresh]
  exact congrArg some (Int.toNat_of_nonneg (by omega)).symm

/-- What an event leaves of the decimator. -/
theorem handle_decimator {v w : VirtualReceiver K} {event : VrxEvent K}
    (hstep : VirtualReceiver.handle T v event = some w) :
    w.decimator.taps = v.decimator.taps ∧ w.decimator.factor = v.decimator.factor := by
  cases event with
  | chunk iq =>
    obtain ⟨H, hH, -⟩ := exists_history v
    obtain ⟨d, hw, -, htaps, hfactor, -⟩ := handle_chunk T v H iq hH
    obtain rfl := Option.some.inj (hw.symm.trans hstep)
    exact ⟨htaps, hfactor⟩
  | retune f =>
    rw [VirtualReceiver.handle] at hstep
    cases hretune : v.retune T f with
    | error e =>
      rw [hretune] at hstep
      obtain rfl := Option.some.inj hstep
      exact ⟨rfl, rfl⟩
    | ok v' =>
      rw [hretune] at hstep
      obtain rfl := Option.some.inj hstep
      obtain ⟨⟨⟩, -, hv⟩ := bind_ok hretune
      cases hv
      exact ⟨rfl, rfl⟩

/-- No event changes taps or factor. -/
theorem run_decimator {v w : VirtualReceiver K} {events : List (VrxEvent K)}
    (hrun : (receiver T).run v events = some w) :
    w.decimator.taps = v.decimator.taps ∧ w.decimator.factor = v.decimator.factor := by
  apply Machine.invariant (I := fun u : VirtualReceiver K => u.decimator.taps = v.decimator.taps ∧
    u.decimator.factor = v.decimator.factor) _ hrun ⟨rfl, rfl⟩
  intro u event u' hu hstep
  obtain ⟨htaps, hfactor⟩ := handle_decimator hstep
  exact ⟨htaps.trans hu.1, hfactor.trans hu.2⟩

/-- **The last request in the span is the one that is followed.** -/
theorem Located.last_requested {v w : VirtualReceiver K} (h : Located T center rate v) {events : List (VrxEvent K)}
    (hrun : (receiver T).run v events = some w) :
    Located T center rate w ∧
      w.centerFrequencyHz = ((events.filterMap VrxEvent.requested).filter (inSpan center rate)).getLast?.getD
        v.centerFrequencyHz := by
  induction events generalizing v with
  | nil =>
    obtain rfl := Option.some.inj hrun
    exact ⟨h, rfl⟩
  | cons event events ih =>
    obtain ⟨u, hu, hw⟩ := Option.bind_eq_some_iff.mp hrun
    obtain ⟨u', hu', hlocated⟩ := h.handle event
    obtain rfl := Option.some.inj (hu'.symm.trans hu)
    obtain ⟨hw', hcenter⟩ := ih hlocated hw
    refine ⟨hw', ?_⟩
    rw [hcenter]
    cases event with
    | chunk iq =>
      obtain ⟨H, hH, -⟩ := exists_history v
      obtain ⟨d, hd, -⟩ := handle_chunk T v H iq hH
      obtain rfl := Option.some.inj (hd.symm.trans hu)
      rfl
    | retune f =>
      have hasked : (VrxEvent.retune f :: events).filterMap VrxEvent.requested =
          f :: events.filterMap VrxEvent.requested := rfl
      rw [h.retuned hu, hasked, List.filter_cons]
      split
      · rw [List.getLast?_cons, Option.getD_some]
      · rfl

end VirtualReceiver

end VrxServer.Dsp
