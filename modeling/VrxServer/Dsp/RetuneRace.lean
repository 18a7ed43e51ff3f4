import VrxServer.Base.Angle
import VrxServer.Base.Run
import VrxServer.Dsp.VirtualReceiver

/-! Retunes from client threads beside the streaming thread, without a lock.

The atomic steps are the statements of `retune` and the two loads at the start of
`mixInPlace`. A chunk can be mixed with the cosine stored by one retune and the sine stored
by another, and the last of two retunes to finish can leave the oscillator on the first
one's frequency. `retunes_consistent_iff` says for which interleavings neither happens;
arithmetic is exact. -/
namespace VrxServer.Dsp
open Base Config

/-- The real functions. -/
noncomputable def Trig.real : Trig ℝ :=
  ⟨Real.pi, Real.sin, Real.cos, fun re im => Real.sqrt (re ^ 2 + im ^ 2)⟩

/-- How far a client thread is in `retune`, and for which frequency. -/
inductive RetunePc (K : Type) where
  | idle
  | checked (freqHz : K)
  | wroteCenter (freqHz : K)
  | wroteRe (freqHz : K)

/-- How far the streaming thread is in `mixInPlace`. `of` is not read by the code: the
frequency that `re` was stored for. -/
inductive Mixer (K : Type) where
  | idle
  | gotRe (re of : K)
  | loaded (re im : K)

structure RetuneRace (K : Type) where
  vrx : VirtualReceiver K
  threads : ℕ → RetunePc K
  mixer : Mixer K
  /-- The frequencies that `rotationRe_` and `rotationIm_` were last stored for; the code
  reads neither. -/
  reOf : K
  imOf : K

/-- Who moves. The number of a thread is its client's; a client of either server asks for
a frequency with 32 bits. -/
inductive RaceStep (K : Type) where
  | request (thread : ℕ) (param : UInt32)
  | setCenter (thread : ℕ)
  | setRe (thread : ℕ)
  | setIm (thread : ℕ)
  | loadRe
  | loadIm
  | mix (iq : List (K × K))

namespace VirtualReceiver
variable {K : Type} [Field K] (T : Trig K) (v : VirtualReceiver K)

/-- The phase increment of the receiver's oscillator, were it tuned to this frequency. -/
def phaseOf (freqHz : K) : K := Nco.phaseIncrement T v.nco.sampleRateHz (freqHz - v.widebandCenterHz)

def setCenter (freqHz : K) : VirtualReceiver K := {v with centerFrequencyHz := freqHz}

def setRe (freqHz : K) : VirtualReceiver K :=
  {v with nco := {v.nco with rotationRe := T.cos (v.phaseOf T freqHz)}}

def setIm (freqHz : K) : VirtualReceiver K :=
  {v with nco := {v.nco with rotationIm := T.sin (v.phaseOf T freqHz)}}

/-- The rest of `mixInPlace`, after its loads. -/
def mixLoaded (re im : K) (iq : List (K × K)) : VirtualReceiver K :=
  {v with nco := {
    (({v.nco with rotationRe := re, rotationIm := im} : Nco K).mixInPlace T iq).2 with
      rotationRe := v.nco.rotationRe, rotationIm := v.nco.rotationIm}}

/-- The statements one after the other are `retune`. -/
theorem retune_eq [LinearOrder K] (freqHz : K) : v.retune T freqHz =
    (assertWithinSpan v.widebandCenterHz v.widebandSampleRateHz freqHz).map fun _ =>
      (((v.setCenter freqHz).setRe T freqHz).setIm T freqHz) := by
  rw [retune]
  cases assertWithinSpan v.widebandCenterHz v.widebandSampleRateHz freqHz <;> rfl

/-- With nothing between them the loads and the rest are `mixInPlace`. -/
theorem mixLoaded_eq (iq : List (K × K)) :
    v.mixLoaded T v.nco.rotationRe v.nco.rotationIm iq = {v with nco := (v.nco.mixInPlace T iq).2} := rfl

end VirtualReceiver

namespace RetuneRace
variable {K : Type} [Field K] [LinearOrder K] (T : Trig K)

/-- A receiver that was constructed, before any client. -/
def initial (vrx : VirtualReceiver K) : RetuneRace K :=
  ⟨vrx, fun _ => .idle, .idle, vrx.centerFrequencyHz, vrx.centerFrequencyHz⟩

def accepted (s : RetuneRace K) (freqHz : K) : Prop :=
  VirtualReceiver.assertWithinSpan s.vrx.widebandCenterHz s.vrx.widebandSampleRateHz freqHz = .ok ()

def step (s : RetuneRace K) : RaceStep K → Option (RetuneRace K)
  | .request t param =>
    match s.threads t with
    | .idle =>
      match VirtualReceiver.assertWithinSpan s.vrx.widebandCenterHz s.vrx.widebandSampleRateHz
          (param.toNat : K) with
      | .error _ => some s
      | .ok () => some {s with threads := Function.update s.threads t (.checked param.toNat)}
    | _ => none
  | .setCenter t =>
    match s.threads t with
    | .checked f => some {s with
        vrx := s.vrx.setCenter f
        threads := Function.update s.threads t (.wroteCenter f)}
    | _ => none
  | .setRe t =>
    match s.threads t with
    | .wroteCenter f => some {s with
        vrx := s.vrx.setRe T f
        threads := Function.update s.threads t (.wroteRe f)
        reOf := f}
    | _ => none
  | .setIm t =>
    match s.threads t with
    | .wroteRe f => some {s with
        vrx := s.vrx.setIm T f
        threads := Function.update s.threads t .idle
        imOf := f}
    | _ => none
  | .loadRe =>
    match s.mixer with
    | .idle => some {s with mixer := .gotRe s.vrx.nco.rotationRe s.reOf}
    | _ => none
  | .loadIm =>
    match s.mixer with
    | .gotRe re _ => some {s with mixer := .loaded re s.vrx.nco.rotationIm}
    | _ => none
  | .mix iq =>
    match s.mixer with
    | .loaded re im => some {s with vrx := s.vrx.mixLoaded T re im iq, mixer := .idle}
    | _ => none

def machine : Machine (RetuneRace K) (RaceStep K) := ⟨step T⟩

/-- The rotation belongs to a frequency. -/
def RotatesFor (s : RetuneRace K) (re im freqHz : K) : Prop :=
  re = T.cos (s.vrx.phaseOf T freqHz) ∧ im = T.sin (s.vrx.phaseOf T freqHz)

def quiet (s : RetuneRace K) : Prop := ∀ t, s.threads t = .idle

/-- What retunes must not break: a chunk is mixed with the rotation of one accepted
frequency, which is one of modulus 1 and leaves nothing to divide by zero; and where no
retune is in progress the oscillator is on the frequency the receiver says it is on. -/
structure Consistent (s : RetuneRace K) : Prop where
  pair : ∀ re im, s.mixer = .loaded re im → ∃ f, s.accepted f ∧ s.RotatesFor T re im f
  modulus : ∀ re im, s.mixer = .loaded re im → re ^ 2 + im ^ 2 = 1
  renormalises : ∀ re im iq, s.mixer = .loaded re im →
    let r := Nco.mixLoop re im (s.vrx.nco.phaseRe, s.vrx.nco.phaseIm) iq
    T.hypot r.2.1 r.2.2 ≠ 0
  settled : s.quiet → s.RotatesFor T s.vrx.nco.rotationRe s.vrx.nco.rotationIm s.vrx.centerFrequencyHz

/-! ### When two retunes' stores go together -/

def offset (s : RetuneRace K) (freqHz : K) : K := freqHz - s.vrx.widebandCenterHz

/-- A cosine stored for `f` and a sine stored for `g` make a rotation: the offsets differ by,
or add up to, a multiple of half the wideband rate. -/
def Compatible (s : RetuneRace K) (f g : K) : Prop :=
  ∃ k : ℤ, 2 * (s.offset f - s.offset g) = k * s.vrx.widebandSampleRateHz ∨
    2 * (s.offset f + s.offset g) = k * s.vrx.widebandSampleRateHz

/-- The offsets are the same or opposite, up to multiples of the wideband rate. -/
def SameRe (s : RetuneRace K) (f g : K) : Prop :=
  ∃ k : ℤ, s.offset f - s.offset g = k * s.vrx.widebandSampleRateHz ∨
    s.offset f + s.offset g = k * s.vrx.widebandSampleRateHz

/-- The offsets are the same, or add up to half the wideband rate, up to multiples of it. -/
def SameIm (s : RetuneRace K) (f g : K) : Prop :=
  ∃ k : ℤ, s.offset f - s.offset g = k * s.vrx.widebandSampleRateHz ∨
    2 * (s.offset f + s.offset g) = (2 * k + 1) * s.vrx.widebandSampleRateHz

omit [LinearOrder K] in
/-- What was stored for one frequency goes together. -/
theorem compatible_refl (s : RetuneRace K) (f : K) : s.Compatible f f := ⟨0, .inl (by simp)⟩

omit [LinearOrder K] in
theorem same_refl (s : RetuneRace K) (f : K) : s.SameRe f f ∧ s.SameIm f f :=
  ⟨⟨0, .inl (by simp)⟩, ⟨0, .inl (by simp)⟩⟩

/-- The steps that break nothing. A chunk's second load finds a sine stored for the frequency
whose cosine it loaded; a retune that ends with no other in progress finds the centre and the
cosine stored for its own. Frequencies that differ may stand in for one another only where
the offsets are related as above. -/
def Admits (s : RetuneRace K) : RaceStep K → Prop
  | .loadIm => ∀ re f, s.mixer = .gotRe re f → s.Compatible f s.imOf
  | .setIm t => ∀ f, s.threads t = .wroteRe f → (∀ u, u ≠ t → s.threads u = .idle) →
      s.SameRe s.reOf s.vrx.centerFrequencyHz ∧ s.SameIm f s.vrx.centerFrequencyHz
  | _ => True

/-! ### What one step does -/

section Steps
variable {T} {s t : RetuneRace K}

theorem step_request {n : ℕ} {param : UInt32} (h : (machine T).step s (.request n param) = some t) :
    s.threads n = .idle ∧
      (t = s ∨ t = {s with threads := Function.update s.threads n (.checked param.toNat)}) := by
  simp only [machine, step] at h
  split at h
  · next hn =>
    split at h
    · exact ⟨hn, .inl (Option.some.inj h).symm⟩
    · exact ⟨hn, .inr (Option.some.inj h).symm⟩
  · cases h

theorem step_setCenter {n : ℕ} (h : (machine T).step s (.setCenter n) = some t) :
    ∃ f, s.threads n = .checked f ∧ t = {s with
      vrx := s.vrx.setCenter f
      threads := Function.update s.threads n (.wroteCenter f)} := by
  simp only [machine, step] at h
  split at h
  · next f hf => exact ⟨f, hf, (Option.some.inj h).symm⟩
  · cases h

theorem step_setRe {n : ℕ} (h : (machine T).step s (.setRe n) = some t) :
    ∃ f, s.threads n = .wroteCenter f ∧ t = {s with
      vrx := s.vrx.setRe T f
      threads := Function.update s.threads n (.wroteRe f)
      reOf := f} := by
  simp only [machine, step] at h
  split at h
  · next f hf => exact ⟨f, hf, (Option.some.inj h).symm⟩
  · cases h

theorem step_setIm {n : ℕ} (h : (machine T).step s (.setIm n) = some t) :
    ∃ f, s.threads n = .wroteRe f ∧ t = {s with
      vrx := s.vrx.setIm T f
      threads := Function.update s.threads n .idle
      imOf := f} := by
  simp only [machine, step] at h
  split at h
  · next f hf => exact ⟨f, hf, (Option.some.inj h).symm⟩
  · cases h

theorem step_loadRe (h : (machine T).step s .loadRe = some t) :
    t = {s with mixer := .gotRe s.vrx.nco.rotationRe s.reOf} := by
  simp only [machine, step] at h
  split at h
  · exact (Option.some.inj h).symm
  · cases h

theorem step_loadIm (h : (machine T).step s .loadIm = some t) :
    ∃ re f, s.mixer = .gotRe re f ∧ t = {s with mixer := .loaded re s.vrx.nco.rotationIm} := by
  simp only [machine, step] at h
  split at h
  · next re f hm => exact ⟨re, f, hm, (Option.some.inj h).symm⟩
  · cases h

theorem step_mix {iq : List (K × K)} (h : (machine T).step s (.mix iq) = some t) :
    ∃ re im, s.mixer = .loaded re im ∧
      t = {s with vrx := s.vrx.mixLoaded T re im iq, mixer := .idle} := by
  simp only [machine, step] at h
  split at h
  · next re im hm => exact ⟨re, im, hm, (Option.some.inj h).symm⟩
  · cases h

end Steps

/-- The parts of the rotation are what was stored for the frequencies noted beside them. -/
structure Stored (s : RetuneRace K) : Prop where
  rate : s.vrx.nco.sampleRateHz = s.vrx.widebandSampleRateHz
  pos : 0 < s.vrx.widebandSampleRateHz
  re : s.vrx.nco.rotationRe = T.cos (s.vrx.phaseOf T s.reOf)
  im : s.vrx.nco.rotationIm = T.sin (s.vrx.phaseOf T s.imOf)
  got : ∀ re f, s.mixer = .gotRe re f → re = T.cos (s.vrx.phaseOf T f)

theorem Stored.step (s : RetuneRace K) (l : RaceStep K) (t : RetuneRace K) (h : s.Stored T)
    (hstep : (machine T).step s l = some t) : t.Stored T := by
  cases l with
  | request n param =>
    obtain ⟨-, rfl | rfl⟩ := step_request hstep
    · exact h
    · exact ⟨h.rate, h.pos, h.re, h.im, h.got⟩
  | setCenter n =>
    obtain ⟨f, -, rfl⟩ := step_setCenter hstep
    exact ⟨h.rate, h.pos, h.re, h.im, h.got⟩
  | setRe n =>
    obtain ⟨f, -, rfl⟩ := step_setRe hstep
    exact ⟨h.rate, h.pos, rfl, h.im, h.got⟩
  | setIm n =>
    obtain ⟨f, -, rfl⟩ := step_setIm hstep
    exact ⟨h.rate, h.pos, h.re, rfl, h.got⟩
  | loadRe =>
    obtain rfl := step_loadRe hstep
    refine ⟨h.rate, h.pos, h.re, h.im, ?_⟩
    intro re f hm
    cases hm
    exact h.re
  | loadIm =>
    obtain ⟨re, f, hm, rfl⟩ := step_loadIm hstep
    exact ⟨h.rate, h.pos, h.re, h.im, fun _ _ hm => nomatch hm⟩
  | mix iq =>
    obtain ⟨re, im, hm, rfl⟩ := step_mix hstep
    exact ⟨h.rate, h.pos, h.re, h.im, fun _ _ hm => nomatch hm⟩

/-! ### Over the reals -/

section Reals
open Trig
variable {s t : RetuneRace ℝ}

theorem phaseOf_eq (h : s.Stored real) (f : ℝ) :
    s.vrx.phaseOf real f = -2 * Real.pi * s.offset f / s.vrx.widebandSampleRateHz := by
  rw [VirtualReceiver.phaseOf, Nco.phaseIncrement, h.rate]
  rfl

/-- So many half turns as the offset has halves of the wideband rate, backwards. -/
theorem halfTurns_iff {rate : ℝ} (hpos : 0 < rate) (x k : ℝ) :
    -2 * Real.pi * x / rate = k * Real.pi ↔ 2 * x = -k * rate := by
  rw [div_eq_iff hpos.ne']
  constructor
  · intro h
    have hpi := Real.pi_ne_zero
    apply mul_right_cancel₀ hpi
    linear_combination -h
  · intro h
    linear_combination -Real.pi * h

theorem sub_iff (h : s.Stored real) (f g x : ℝ) :
    s.vrx.phaseOf real f - s.vrx.phaseOf real g = x * Real.pi ↔
      2 * (s.offset f - s.offset g) = -x * s.vrx.widebandSampleRateHz := by
  rw [phaseOf_eq h, phaseOf_eq h, ← sub_div, ← mul_sub, halfTurns_iff h.pos]

theorem add_iff (h : s.Stored real) (f g x : ℝ) :
    s.vrx.phaseOf real f + s.vrx.phaseOf real g = x * Real.pi ↔
      2 * (s.offset f + s.offset g) = -x * s.vrx.widebandSampleRateHz := by
  rw [phaseOf_eq h, phaseOf_eq h, ← add_div, ← mul_add, halfTurns_iff h.pos]

theorem compatible_iff (h : s.Stored real) (f g : ℝ) :
    Real.cos (s.vrx.phaseOf real f) ^ 2 + Real.sin (s.vrx.phaseOf real g) ^ 2 = 1 ↔ s.Compatible f g := by
  rw [Angle.unit_iff, Compatible]
  constructor
  · intro hp
    obtain ⟨k, hk⟩ := hp
    rw [sub_iff h, add_iff h] at hk
    exact ⟨-k, by push_cast; exact hk⟩
  · intro hp
    obtain ⟨k, hk⟩ := hp
    refine ⟨-k, ?_⟩
    rw [sub_iff h, add_iff h]
    push_cast
    rwa [neg_neg]

theorem sameRe_iff (h : s.Stored real) (f g : ℝ) :
    Real.cos (s.vrx.phaseOf real f) = Real.cos (s.vrx.phaseOf real g) ↔ s.SameRe f g := by
  rw [Real.cos_eq_cos_iff, SameRe]
  constructor
  · intro hp
    obtain ⟨k, hk | hk⟩ := hp
    · have := (sub_iff h f g (-2 * k)).mp (by linarith)
      exact ⟨k, .inl (by linarith)⟩
    · have := (add_iff h f g (2 * k)).mp (by linarith)
      exact ⟨-k, .inr (by push_cast; linarith)⟩
  · intro hp
    obtain ⟨k, hk | hk⟩ := hp
    · have := (sub_iff h f g (-2 * k)).mpr (by linarith)
      exact ⟨k, .inl (by linarith)⟩
    · have := (add_iff h f g (-2 * k)).mpr (by linarith)
      exact ⟨-k, .inr (by push_cast; linarith)⟩

theorem sameIm_iff (h : s.Stored real) (f g : ℝ) :
    Real.sin (s.vrx.phaseOf real f) = Real.sin (s.vrx.phaseOf real g) ↔ s.SameIm f g := by
  rw [Real.sin_eq_sin_iff, SameIm]
  constructor
  · intro hp
    obtain ⟨k, hk | hk⟩ := hp
    · have := (sub_iff h f g (-2 * k)).mp (by linarith)
      exact ⟨k, .inl (by linarith)⟩
    · have := (add_iff h f g (2 * k + 1)).mp (by linarith)
      exact ⟨-k - 1, .inr (by push_cast; linarith)⟩
  · intro hp
    obtain ⟨k, hk | hk⟩ := hp
    · have := (sub_iff h f g (-2 * k)).mpr (by linarith)
      exact ⟨k, .inl (by linarith)⟩
    · have := (add_iff h f g (-(2 * k + 1))).mpr (by linarith)
      exact ⟨-k - 1, .inr (by push_cast; linarith)⟩

/-- Within half a turn every phase increment is that of a frequency in the span. -/
theorem exists_accepted (h : s.Stored real) {θ : ℝ} (hθ : |θ| ≤ Real.pi) :
    ∃ f, s.accepted f ∧ s.vrx.phaseOf real f = θ := by
  have hpos := h.pos
  have hpi := Real.pi_pos
  obtain ⟨hlow, hhigh⟩ := abs_le.mp hθ
  set x := θ * s.vrx.widebandSampleRateHz / (2 * Real.pi) with hx
  have hxθ : x * (2 * Real.pi) = θ * s.vrx.widebandSampleRateHz := by
    rw [hx]
    field_simp
  refine ⟨s.vrx.widebandCenterHz - x, VirtualReceiver.assertWithinSpan_ok.mpr ⟨?_, ?_⟩, ?_⟩
  · nlinarith
  · nlinarith
  · rw [phaseOf_eq h, offset, div_eq_iff hpos.ne']
    linarith

/-- A cosine stored for one frequency and a sine stored for another are the rotation of an
accepted one exactly when the two are compatible. -/
theorem pair_iff (h : s.Stored real) (f g : ℝ) :
    (∃ f', s.accepted f' ∧
      s.RotatesFor real (Real.cos (s.vrx.phaseOf real f)) (Real.sin (s.vrx.phaseOf real g)) f') ↔
      s.Compatible f g := by
  rw [← compatible_iff h]
  constructor
  · intro hp
    obtain ⟨f', -, hre, him⟩ := hp
    rw [hre, him]
    exact Real.cos_sq_add_sin_sq _
  · intro hunit
    obtain ⟨θ, hθ, hre, him⟩ := Angle.exists_of_unit hunit
    obtain ⟨f', haccepted, rfl⟩ := exists_accepted h hθ
    exact ⟨f', haccepted, hre.symm, him.symm⟩

/-- The phasor has modulus 1. -/
def UnitPhasor (s : RetuneRace ℝ) : Prop := s.vrx.nco.phaseRe ^ 2 + s.vrx.nco.phaseIm ^ 2 = 1

theorem hypot_mixLoop (hunit : s.UnitPhasor) {re im : ℝ} (hmodulus : re ^ 2 + im ^ 2 = 1)
    (iq : List (ℝ × ℝ)) :
    let r := Nco.mixLoop re im (s.vrx.nco.phaseRe, s.vrx.nco.phaseIm) iq
    real.hypot r.2.1 r.2.2 = 1 := by
  have hnorm := Nco.mixLoop_normSq re im (s.vrx.nco.phaseRe, s.vrx.nco.phaseIm) iq
  simp only [hmodulus, one_pow, mul_one] at hnorm
  rw [UnitPhasor] at hunit
  simp only [real, hnorm, hunit, Real.sqrt_one]

theorem admits_of_consistent (s : RetuneRace ℝ) (l : RaceStep ℝ) (t : RetuneRace ℝ) (h : s.Stored real)
    (hstep : (machine real).step s l = some t) (ht : t.Consistent real) : s.Admits l := by
  cases l with
  | loadIm =>
    obtain ⟨re, f, hm, rfl⟩ := step_loadIm hstep
    intro re' f' hm'
    rw [hm] at hm'
    obtain ⟨rfl, rfl⟩ := Mixer.gotRe.inj hm'
    have hpair := ht.pair re _ rfl
    rw [h.got re f hm, h.im] at hpair
    exact (pair_iff h f s.imOf).mp hpair
  | setIm n =>
    obtain ⟨f, hn, rfl⟩ := step_setIm hstep
    intro f' hn' hothers
    rw [hn] at hn'
    obtain rfl := RetunePc.wroteRe.inj hn'
    obtain ⟨hre, him⟩ := ht.settled fun u => by
      rcases eq_or_ne u n with rfl | hu
      · exact Function.update_self ..
      · exact (Function.update_of_ne hu ..).trans (hothers u hu)
    exact ⟨(sameRe_iff h _ _).mp (h.re.symm.trans hre), (sameIm_iff h _ _).mp him⟩
  | request n param => trivial
  | setCenter n => trivial
  | setRe n => trivial
  | loadRe => trivial
  | mix iq => trivial

/-- A chunk about to be mixed with the rotation of an accepted frequency. -/
theorem Consistent.of_pair (hunit : s.UnitPhasor) {re im : ℝ} (hm : s.mixer = .loaded re im)
    (hpair : ∃ f, s.accepted f ∧ s.RotatesFor real re im f)
    (hsettled : s.quiet → s.RotatesFor real s.vrx.nco.rotationRe s.vrx.nco.rotationIm s.vrx.centerFrequencyHz) :
    s.Consistent real := by
  have hmodulus : re ^ 2 + im ^ 2 = 1 := by
    obtain ⟨f, -, hre, him⟩ := hpair
    rw [hre, him]
    exact Real.cos_sq_add_sin_sq _
  have hloaded : ∀ re' im', s.mixer = .loaded re' im' → re = re' ∧ im = im' := fun _ _ hm' =>
    Mixer.loaded.inj (hm.symm.trans hm')
  refine ⟨?_, ?_, ?_, hsettled⟩
  · intro re' im' hm'
    obtain ⟨rfl, rfl⟩ := hloaded re' im' hm'
    exact hpair
  · intro re' im' hm'
    obtain ⟨rfl, rfl⟩ := hloaded re' im' hm'
    exact hmodulus
  · intro re' im' iq hm'
    obtain ⟨rfl, rfl⟩ := hloaded re' im' hm'
    have hhypot := hypot_mixLoop hunit hmodulus iq
    simp only [hhypot]
    exact one_ne_zero

/-- What the steps of an admitted run keep. -/
structure Sound (s : RetuneRace ℝ) : Prop where
  stored : s.Stored real
  unitPhasor : s.UnitPhasor
  consistent : s.Consistent real

theorem Sound.step (s : RetuneRace ℝ) (l : RaceStep ℝ) (t : RetuneRace ℝ) (h : s.Sound)
    (hadmits : s.Admits l) (hstep : (machine real).step s l = some t) : t.Sound := by
  suffices hkept : t.UnitPhasor ∧ t.Consistent real from ⟨h.stored.step real s l t hstep, hkept.1, hkept.2⟩
  obtain ⟨hstored, hunit, hpair, hmodulus, hrenormalises, hsettled⟩ := h
  cases l with
  | request n param =>
    obtain ⟨-, rfl | rfl⟩ := step_request hstep
    · exact ⟨hunit, hpair, hmodulus, hrenormalises, hsettled⟩
    · exact ⟨hunit, hpair, hmodulus, hrenormalises, fun hq => absurd (hq n) (by simp)⟩
  | setCenter n =>
    obtain ⟨f, -, rfl⟩ := step_setCenter hstep
    exact ⟨hunit, hpair, hmodulus, hrenormalises, fun hq => absurd (hq n) (by simp)⟩
  | setRe n =>
    obtain ⟨f, -, rfl⟩ := step_setRe hstep
    exact ⟨hunit, hpair, hmodulus, hrenormalises, fun hq => absurd (hq n) (by simp)⟩
  | setIm n =>
    obtain ⟨f, hn, rfl⟩ := step_setIm hstep
    refine ⟨hunit, hpair, hmodulus, hrenormalises, fun hq => ?_⟩
    obtain ⟨hre, him⟩ := hadmits f hn fun u hu => (Function.update_of_ne hu ..).symm.trans (hq u)
    exact ⟨hstored.re.trans ((sameRe_iff hstored _ _).mpr hre), (sameIm_iff hstored _ _).mpr him⟩
  | loadRe =>
    obtain rfl := step_loadRe hstep
    exact ⟨hunit, nofun, nofun, nofun, hsettled⟩
  | loadIm =>
    obtain ⟨re, f, hm, rfl⟩ := step_loadIm hstep
    refine ⟨hunit, Consistent.of_pair hunit rfl ?_ hsettled⟩
    have hcompatible := (pair_iff hstored f s.imOf).mpr (hadmits re f hm)
    rw [hstored.got re f hm, hstored.im]
    exact hcompatible
  | mix iq =>
    obtain ⟨re, im, hm, rfl⟩ := step_mix hstep
    refine ⟨?_, nofun, nofun, nofun, hsettled⟩
    have hhypot := hypot_mixLoop hunit (hmodulus re im hm) iq
    have hnorm := Nco.mixLoop_normSq re im (s.vrx.nco.phaseRe, s.vrx.nco.phaseIm) iq
    simp only [hmodulus re im hm, one_pow, mul_one] at hnorm
    simp only [UnitPhasor, VirtualReceiver.mixLoaded, Nco.mixInPlace, hhypot, div_one]
    exact hnorm.trans hunit

/-- A constructed receiver is tuned to its centre, which is in its span. -/
theorem sound_initial {cfg : VirtualReceiverConfig ℝ} {center rate : ℝ} {v : VirtualReceiver ℝ}
    (h : VirtualReceiver.construct real cfg center rate = .ok v) : (initial v).Sound := by
  obtain ⟨hcast, hn, -, ⟨hlo, hhi⟩, hc, hr, hf, hnco⟩ := VirtualReceiver.construct_ok real h
  have hne : rate ≠ 0 := by
    intro hp
    obtain rfl := hp
    rw [zero_div, castInt_eq_some] at hcast
    have hzero : trunc (0 : ℝ) = 0 := by simp [trunc]
    omega
  have hpos : 0 < rate := lt_of_le_of_ne (by linarith) hne.symm
  have hstored : (initial v).Stored real := by
    refine ⟨?_, ?_, ?_, ?_, nofun⟩
    · rw [initial, hnco, hr]
      rfl
    · rw [initial, hr]
      exact hpos
    · simp only [initial, VirtualReceiver.phaseOf, hnco, hc, hf]
      rfl
    · simp only [initial, VirtualReceiver.phaseOf, hnco, hc, hf]
      rfl
  refine ⟨hstored, ?_, nofun, nofun, nofun, fun _ => ⟨hstored.re, hstored.im⟩⟩
  simp [UnitPhasor, initial, hnco, Nco.construct, Nco.setOffsetHz]

/-- **A run of retunes and chunks is consistent exactly when its steps are admitted ones**:
what a chunk loads was stored for one frequency, and the last retune to finish was the last
to set the centre and the cosine, both up to frequencies whose stores agree. -/
theorem retunes_consistent_iff {cfg : VirtualReceiverConfig ℝ} {center rate : ℝ} {v : VirtualReceiver ℝ}
    (h : VirtualReceiver.construct real cfg center rate = .ok v) (steps : List (RaceStep ℝ)) :
    (machine real).Always (Consistent real) (initial v) steps ↔
      (machine real).Allowed Admits (initial v) steps := by
  have hsound := sound_initial h
  constructor
  · exact Machine.allowed_of_always (Stored.step real) admits_of_consistent hsound.stored
  · exact fun hallowed => (Machine.always_of_allowed Sound.step hsound hallowed).mono fun _ hs => hs.consistent

/-- A receiver that captures four samples a second, tuned to their centre. -/
def sampleConfig : VirtualReceiverConfig ℝ := ⟨"vrx", 1234, 0, 0, 4⟩

/-- Its retune to 1 Hz, up to the store of the cosine. -/
def firstSteps : List (RaceStep ℝ) := [.request 0 1, .setCenter 0, .setRe 0]

/-- Where that leaves it. -/
noncomputable def halfRetuned (v : VirtualReceiver ℝ) : RetuneRace ℝ where
  vrx := (v.setCenter 1).setRe real 1
  threads := Function.update (fun _ => .idle) 0 (.wroteRe 1)
  mixer := .idle
  reOf := 1
  imOf := v.centerFrequencyHz

theorem construct_sample : ∃ v, VirtualReceiver.construct real sampleConfig 0 4 = .ok v := by
  have htrunc : trunc (1 : ℝ) = 1 := by simp [trunc]
  refine (VirtualReceiver.construct_ok_iff real sampleConfig 0 4).mpr ⟨⟨1, ?_, le_refl _⟩, ?_, ?_, ?_⟩
  · simp [sampleConfig, castInt_eq_some, htrunc]
  · simp [sampleConfig, fmod, htrunc]
  · norm_num [sampleConfig]
  · norm_num [sampleConfig]

theorem run_firstSteps {v : VirtualReceiver ℝ} (hv : VirtualReceiver.construct real sampleConfig 0 4 = .ok v) :
    (machine real).run (initial v) firstSteps = some (halfRetuned v) := by
  obtain ⟨-, -, -, -, hc, hr, -, -⟩ := VirtualReceiver.construct_ok real hv
  have hspan : VirtualReceiver.assertWithinSpan v.widebandCenterHz v.widebandSampleRateHz 1 = .ok () := by
    rw [hc, hr]
    exact VirtualReceiver.assertWithinSpan_ok.mpr (by norm_num)
  simp [firstSteps, Machine.run_cons, machine, step, initial, hspan, halfRetuned]

/-- Where the loads come after the last store, the chunk is mixed with what was stored. -/
theorem retunes_consistent_clean : ∃ v, VirtualReceiver.construct real sampleConfig 0 4 = .ok v ∧
    (machine real).Always (Consistent real) (initial v) (firstSteps ++ [.setIm 0, .loadRe, .loadIm]) := by
  obtain ⟨v, hv⟩ := construct_sample
  refine ⟨v, hv, (retunes_consistent_iff hv _).mpr ?_⟩
  refine Machine.allowed_cons.mpr fun s₁ h₁ => ⟨trivial, ?_⟩
  refine Machine.allowed_cons.mpr fun s₂ h₂ => ⟨trivial, ?_⟩
  refine Machine.allowed_cons.mpr fun s₃ h₃ => ⟨trivial, ?_⟩
  have hrun : some (halfRetuned v) = some s₃ := by
    rw [← run_firstSteps hv, firstSteps, Machine.run_cons, h₁, Option.bind_some, Machine.run_cons, h₂,
      Option.bind_some, Machine.run_cons, h₃]
    rfl
  obtain rfl := Option.some.inj hrun
  refine Machine.allowed_cons.mpr fun s₄ h₄ => ⟨?_, Machine.allowed_cons.mpr fun s₅ h₅ => ⟨trivial, ?_⟩⟩
  · intro f hf _
    cases hf
    exact same_refl (halfRetuned v) 1
  · obtain ⟨f, hf, rfl⟩ := step_setIm h₄
    cases hf
    obtain rfl := step_loadRe h₅
    refine Machine.allowed_cons.mpr fun s₆ h₆ => ⟨?_, Machine.allowed_nil⟩
    intro re g hm
    cases hm
    exact compatible_refl _ 1

/-- A quarter turn a sample: the cosine stored is 0, and the sine still there is 0. -/
theorem torn_rotation : ¬ ∀ (cfg : VirtualReceiverConfig ℝ) (center rate : ℝ) (v : VirtualReceiver ℝ),
    VirtualReceiver.construct real cfg center rate = .ok v → ∀ s : RetuneRace ℝ,
    (machine real).Reachable (initial v) s → s.Consistent real := by
  intro h
  obtain ⟨v, hv⟩ := construct_sample
  obtain ⟨-, -, -, -, hc, hr, hf, hnco⟩ := VirtualReceiver.construct_ok real hv
  have hreach : (machine real).Reachable (initial v) {halfRetuned v with
      mixer := .loaded (Real.cos (v.phaseOf real 1)) v.nco.rotationIm} :=
    ⟨firstSteps ++ [.loadRe, .loadIm], by rw [Machine.run_append, run_firstSteps hv]; rfl⟩
  have hmodulus := (h _ _ _ v hv _ hreach).modulus _ _ rfl
  have hre : Real.cos (v.phaseOf real 1) = 0 := by
    have hphase : v.phaseOf real 1 = -(Real.pi / 2) := by
      simp only [VirtualReceiver.phaseOf, Nco.phaseIncrement, hnco, hc, real, Nco.setOffsetHz, Nco.construct]
      ring
    rw [hphase, Real.cos_neg, Real.cos_pi_div_two]
  have him : v.nco.rotationIm = 0 := by
    simp [hnco, Nco.setOffsetHz, Nco.phaseIncrement, real, sampleConfig]
  rw [hre, him] at hmodulus
  norm_num at hmodulus

end Reals

end RetuneRace

end VrxServer.Dsp
