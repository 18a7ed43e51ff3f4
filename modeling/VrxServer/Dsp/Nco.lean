import Mathlib.Algebra.Order.Group.Unbundled.Abs
import Mathlib.Algebra.Field.Rat
import Mathlib.Tactic.Ring

/-! The oscillator that shifts a receiver's frequency down to baseband.

It is a phasor advanced by one complex multiply per sample; cosine and sine are taken
only when the offset is set. What they are is a parameter, `Trig`: over the reals they
are the real functions, and what is proved without them holds for any. -/
namespace VrxServer.Dsp

/-- What the `2` in a formula over `K` is built from. Without this instance Lean makes the proof
anew for each definition it elaborates, under the name of whichever comes first; with it the
definitions below, and those of the modules that import this one, share it. -/
instance atLeastTwo_two : Nat.AtLeastTwo 2 := ⟨le_refl 2⟩

structure Trig (K : Type) where
  pi : K
  sin : K → K
  cos : K → K
  hypot : K → K → K

/-- Rational stand-ins, right at 0 and on the axes. -/
def Trig.coarse : Trig ℚ := ⟨355 / 113, id, fun _ => 1, fun re im => max |re| |im|⟩

structure Nco (K : Type) where
  sampleRateHz : K
  phaseRe : K
  phaseIm : K
  rotationRe : K
  rotationIm : K

namespace Nco
variable {K : Type} [Field K] (T : Trig K)

def construct (sampleRateHz : K) : Nco K := ⟨sampleRateHz, 1, 0, 1, 0⟩

/-- The phase one sample advances the oscillator by, to cancel `offsetHz`. -/
def phaseIncrement (sampleRateHz offsetHz : K) : K := -2 * T.pi * offsetHz / sampleRateHz

def setOffsetHz (nco : Nco K) (offsetHz : K) : Nco K :=
  {nco with
    rotationRe := T.cos (phaseIncrement T nco.sampleRateHz offsetHz)
    rotationIm := T.sin (phaseIncrement T nco.sampleRateHz offsetHz)}

/-- The sample loop, from the phase it is at: the mixed samples and the phase it ends at. -/
def mixLoop (rotationRe rotationIm : K) : K × K → List (K × K) → List (K × K) × (K × K)
  | phase, [] => ([], phase)
  | (phaseRe, phaseIm), (sampleI, sampleQ) :: iq =>
    let mixed := (sampleI * phaseRe - sampleQ * phaseIm, sampleI * phaseIm + sampleQ * phaseRe)
    let nextRe := phaseRe * rotationRe - phaseIm * rotationIm
    let nextIm := phaseRe * rotationIm + phaseIm * rotationRe
    let r := mixLoop rotationRe rotationIm (nextRe, nextIm) iq
    (mixed :: r.1, r.2)

def mixInPlace (nco : Nco K) (iq : List (K × K)) : List (K × K) × Nco K :=
  let r := mixLoop nco.rotationRe nco.rotationIm (nco.phaseRe, nco.phaseIm) iq
  let mag := T.hypot r.2.1 r.2.2
  (r.1, {nco with phaseRe := r.2.1 / mag, phaseIm := r.2.2 / mag})

@[simp] theorem length_mixLoop (rotationRe rotationIm : K) (phase : K × K) (iq : List (K × K)) :
    (mixLoop rotationRe rotationIm phase iq).1.length = iq.length := by
  induction iq generalizing phase with
  | nil => rfl
  | cons s iq ih => simp only [mixLoop, List.length_cons, ih]

/-- Every sample scales the phasor by the modulus of the rotation. -/
theorem mixLoop_normSq (rotationRe rotationIm : K) (phase : K × K) (iq : List (K × K)) :
    let r := (mixLoop rotationRe rotationIm phase iq).2
    r.1 ^ 2 + r.2 ^ 2 = (phase.1 ^ 2 + phase.2 ^ 2) * (rotationRe ^ 2 + rotationIm ^ 2) ^ iq.length := by
  induction iq generalizing phase with
  | nil => simp [mixLoop]
  | cons s iq ih =>
    simp only [mixLoop, List.length_cons]
    rw [ih]
    ring

end Nco

end VrxServer.Dsp
