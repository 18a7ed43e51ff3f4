import VrxServer.Config.Load
import VrxServer.Dsp.Decimator
import VrxServer.Dsp.Nco

/-! One virtual receiver: oscillator, decimator, conversion to 8-bit samples.

`construct` is the source's constructor with its member initializers in order. Its casts
to `int` come before its checks; where one is undefined the construction has no meaning,
which is an error of its own here (`construct_ok_iff` says exactly when there is none). -/
namespace VrxServer.Dsp
open Base Config

/-- Why a receiver is not constructed, or a retune refused. -/
inductive VrxError (K : Type) where
  /-- `static_cast<int>` of a value no `int` has. -/
  | undefinedCast (ratio : K)
  | decimator (what : String)
  | notMultiple (widebandSampleRateHz sampleRateHz : K)
  | outOfSpan (freqHz lo hi : K)

structure VirtualReceiver (K : Type) where
  name : String
  widebandCenterHz : K
  widebandSampleRateHz : K
  centerFrequencyHz : K
  nco : Nco K
  decimator : Decimator K
  decimationFactor : ℤ

variable {K : Type} [Field K] [LinearOrder K] [FloorRing K] (T : Trig K)

/-- One tap before normalization: a sinc under a Hamming window. -/
def rawTap (numTaps : ℕ) (fc : K) (n : ℕ) : K :=
  let mid := ((numTaps : K) - 1) / 2
  let x := n - mid
  let sinc := if x = 0 then 2 * fc else T.sin (2 * T.pi * fc * x) / (T.pi * x)
  let window := 54 / 100 - 46 / 100 * T.cos (2 * T.pi * n / ((numTaps : K) - 1))
  sinc * window

def designLowPassFir (numTaps : ℕ) (cutoffHz sampleRateHz : K) : List K :=
  let taps := (List.range numTaps).map (rawTap T numTaps (cutoffHz / sampleRateHz))
  taps.map (· / taps.sum)

def buildTaps (vrxSampleRateHz widebandSampleRateHz : K) : List K :=
  designLowPassFir T 129 (vrxSampleRateHz * (45 / 100)) widebandSampleRateHz

namespace VirtualReceiver

def getSampleRateHz (v : VirtualReceiver K) : K := v.widebandSampleRateHz / v.decimationFactor

def assertWithinSpan (widebandCenterHz widebandSampleRateHz freqHz : K) : Except (VrxError K) Unit :=
  let halfSpan := widebandSampleRateHz / 2
  let lo := widebandCenterHz - halfSpan
  let hi := widebandCenterHz + halfSpan
  if freqHz < lo ∨ freqHz > hi then .error (.outOfSpan freqHz lo hi) else .ok ()

/-- The decimator member's initializer. -/
def constructDecimator (taps : List K) (ratio : K) : Except (VrxError K) (Decimator K × ℤ) :=
  match castInt ratio with
  | none => .error (.undefinedCast ratio)
  | some factor =>
    match Decimator.construct (Arith.exact K) taps factor with
    | .error what => .error (.decimator what)
    | .ok decimator => .ok (decimator, factor)

/-- The constructor's own rate check. -/
def checkMultiple (widebandSampleRateHz sampleRateHz : K) : Except (VrxError K) Unit :=
  if fmod widebandSampleRateHz sampleRateHz ≠ some 0 then
    .error (.notMultiple widebandSampleRateHz sampleRateHz)
  else .ok ()

def construct (cfg : VirtualReceiverConfig K) (widebandCenterHz widebandSampleRateHz : K) :
    Except (VrxError K) (VirtualReceiver K) := do
  let taps := buildTaps T cfg.sampleRateHz widebandSampleRateHz
  let (decimator, decimationFactor) ← constructDecimator taps (widebandSampleRateHz / cfg.sampleRateHz)
  checkMultiple widebandSampleRateHz cfg.sampleRateHz
  assertWithinSpan widebandCenterHz widebandSampleRateHz cfg.centerFrequencyHz
  return {
    name := cfg.name
    widebandCenterHz := widebandCenterHz
    widebandSampleRateHz := widebandSampleRateHz
    centerFrequencyHz := cfg.centerFrequencyHz
    nco := (Nco.construct widebandSampleRateHz).setOffsetHz T (cfg.centerFrequencyHz - widebandCenterHz)
    decimator := decimator
    decimationFactor := decimationFactor }

def retune (v : VirtualReceiver K) (newCenterFrequencyHz : K) :
    Except (VrxError K) (VirtualReceiver K) := do
  assertWithinSpan v.widebandCenterHz v.widebandSampleRateHz newCenterFrequencyHz
  return {v with
    centerFrequencyHz := newCenterFrequencyHz
    nco := v.nco.setOffsetHz T (newCenterFrequencyHz - v.widebandCenterHz)}

/-- `std::lround`: to the nearest integer, halves away from zero. -/
def lround (x : K) : ℤ := if 0 ≤ x then ⌊x + 1 / 2⌋ else ⌈x - 1 / 2⌉

/-- One decimated value as an unsigned byte around 128. -/
def toUint8 (x : K) : UInt8 :=
  let clamped := max (-1) (min 1 x)
  UInt8.ofNat (lround (clamped * 127) + 128).toNat

/-- One wideband chunk: what every callback is given, if anything, and the receiver after it.
`none` stands for an access outside a buffer, which `Decimator.process_interleave` rules out. -/
def processWidebandChunk (v : VirtualReceiver K) (widebandIq : List (K × K)) :
    Option (Option (List UInt8) × VirtualReceiver K) := do
  let (mixBuf, nco) := v.nco.mixInPlace T widebandIq
  let (decimated, decimator) ← Decimator.process (Arith.exact K) v.decimator (Base.interleave mixBuf)
  let v' := {v with nco := nco, decimator := decimator}
  if decimated.isEmpty then some (none, v')
  else some (some (decimated.map toUint8), v')

/-- A receiver at the centre of a 2 MHz capture, an eighth of it wide. -/
def sample : VirtualReceiver ℚ where
  name := "vrx"
  widebandCenterHz := 100000000
  widebandSampleRateHz := 2000000
  centerFrequencyHz := 100000000
  nco := Nco.construct 2000000
  decimator := Decimator.fresh (Arith.exact ℚ) [1] 8 (List.cons_ne_nil _ _) (by decide)
  decimationFactor := 8

/-! ### When construction succeeds -/

theorem checkMultiple_ok {rate vrxRate : K} : checkMultiple rate vrxRate = .ok () ↔ fmod rate vrxRate = some 0 := by
  simp only [checkMultiple]
  split
  · next h => exact iff_of_false (by simp) h
  · next h => exact iff_of_true rfl (not_not.mp h)

omit [FloorRing K] in
theorem assertWithinSpan_ok {center rate freq : K} :
    assertWithinSpan center rate freq = .ok () ↔ center - rate / 2 ≤ freq ∧ freq ≤ center + rate / 2 := by
  simp only [assertWithinSpan]
  split
  · next h =>
    refine iff_of_false (by simp) ?_
    intro hp
    obtain ⟨h₁, h₂⟩ := hp
    exact h.elim (fun h => absurd h (not_lt.mpr h₁)) (fun h => absurd h (not_lt.mpr h₂))
  · next h =>
    push Not at h
    exact iff_of_true rfl h

theorem constructDecimator_ok {taps : List K} (ht : taps ≠ []) {ratio : K} {d : Decimator K} {n : ℤ} :
    constructDecimator taps ratio = .ok (d, n) ↔
      castInt ratio = some n ∧ ∃ h : 1 ≤ n, d = Decimator.fresh (Arith.exact K) taps n.toNat ht (by omega) := by
  simp only [constructDecimator]
  cases hc : castInt ratio with
  | none => simp
  | some m =>
    simp only [Decimator.construct, Option.some.injEq]
    by_cases hm : m < 1
    · rw [dif_pos hm]
      refine iff_of_false (by simp) ?_
      intro hp
      obtain ⟨rfl, h, -⟩ := hp
      omega
    · rw [dif_neg hm, dif_neg ht]
      simp only [Except.ok.injEq, Prod.mk.injEq]
      constructor
      · intro hp
        obtain ⟨rfl, rfl⟩ := hp
        exact ⟨rfl, by omega, rfl⟩
      · intro hp
        obtain ⟨rfl, -, rfl⟩ := hp
        exact ⟨rfl, rfl⟩

omit [FloorRing K] in
theorem buildTaps_ne (rate wideband : K) : buildTaps T rate wideband ≠ [] := by
  apply List.ne_nil_of_length_pos
  simp [buildTaps, designLowPassFir]

/-- What a successful construction has passed, and what it holds. -/
theorem construct_ok {cfg : VirtualReceiverConfig K} {center rate : K} {v : VirtualReceiver K}
    (h : construct T cfg center rate = .ok v) :
    castInt (rate / cfg.sampleRateHz) = some v.decimationFactor ∧ 1 ≤ v.decimationFactor ∧
      fmod rate cfg.sampleRateHz = some 0 ∧
      (center - rate / 2 ≤ cfg.centerFrequencyHz ∧ cfg.centerFrequencyHz ≤ center + rate / 2) ∧
      v.widebandCenterHz = center ∧ v.widebandSampleRateHz = rate ∧
      v.centerFrequencyHz = cfg.centerFrequencyHz ∧
      v.nco = (Nco.construct rate).setOffsetHz T (cfg.centerFrequencyHz - center) := by
  obtain ⟨⟨d, n⟩, hd, h⟩ := bind_ok h
  obtain ⟨⟨⟩, hmod, h⟩ := bind_ok h
  obtain ⟨⟨⟩, hspan, h⟩ := bind_ok h
  obtain ⟨hn, h1, -⟩ := (constructDecimator_ok (buildTaps_ne T _ _)).mp hd
  cases h
  exact ⟨hn, h1, checkMultiple_ok.mp hmod, assertWithinSpan_ok.mp hspan, rfl, rfl, rfl, rfl⟩

theorem construct_taps {cfg : VirtualReceiverConfig K} {center rate : K} {v : VirtualReceiver K}
    (h : construct T cfg center rate = .ok v) : v.decimator.taps = buildTaps T cfg.sampleRateHz rate := by
  obtain ⟨⟨d, n⟩, hd, h₁⟩ := bind_ok h
  obtain ⟨⟨⟩, -, h₂⟩ := bind_ok h₁
  obtain ⟨⟨⟩, -, h₃⟩ := bind_ok h₂
  obtain ⟨-, _, hfresh⟩ := (constructDecimator_ok (buildTaps_ne T _ _)).mp hd
  cases h₃
  rw [hfresh]
  rfl

/-- Construction succeeds exactly when the rates' quotient is a positive `int`, the rates
divide and the centre is in the span. -/
theorem construct_ok_iff (cfg : VirtualReceiverConfig K) (center rate : K) :
    (∃ v, construct T cfg center rate = .ok v) ↔
      (∃ n, castInt (rate / cfg.sampleRateHz) = some n ∧ 1 ≤ n) ∧
        fmod rate cfg.sampleRateHz = some 0 ∧
        center - rate / 2 ≤ cfg.centerFrequencyHz ∧ cfg.centerFrequencyHz ≤ center + rate / 2 := by
  constructor
  · intro hp
    obtain ⟨v, hv⟩ := hp
    obtain ⟨hn, h1, hmod, hspan, -⟩ := construct_ok T hv
    exact ⟨⟨_, hn, h1⟩, hmod, hspan⟩
  · intro hp
    obtain ⟨⟨n, hn, h1⟩, hmod, hspan⟩ := hp
    have hd := (constructDecimator_ok (buildTaps_ne T cfg.sampleRateHz rate)).mpr ⟨hn, h1, rfl⟩
    cases hc : construct T cfg center rate with
    | ok v => exact ⟨v, rfl⟩
    | error e =>
      dsimp only [construct] at hc
      rw [hd, checkMultiple_ok.mpr hmod, assertWithinSpan_ok.mpr hspan] at hc
      cases hc

end VirtualReceiver

end VrxServer.Dsp
