import VrxServer.Dsp.Tone

/-! What the oscillator does over a whole run.

The phasor is advanced one multiplication a sample and never set anew. After any calls it
stands at the sum of the phases its samples have advanced it by, each by the offset then in
force (`calls_eq`): nothing depends on where the chunks end, its modulus stays 1, and the
renormalization at a chunk's end divides by 1. -/
namespace VrxServer.Dsp
open Base

/-- What a receiver calls its oscillator with. -/
inductive NcoCall (K : Type) where
  | setOffsetHz (offsetHz : K)
  | mixInPlace (iq : List (K × K))

namespace NcoCall
variable {K : Type}

/-- The samples handed over, one call after the other. -/
def samples : List (NcoCall K) → List (K × K)
  | [] => []
  | .setOffsetHz _ :: calls => samples calls
  | .mixInPlace iq :: calls => iq ++ samples calls

/-- The offset in force at each of them, where `offsetHz` is in force before the first call. -/
def offsets (offsetHz : K) : List (NcoCall K) → List K
  | [] => []
  | .setOffsetHz newOffsetHz :: calls => offsets newOffsetHz calls
  | .mixInPlace iq :: calls => List.replicate iq.length offsetHz ++ offsets offsetHz calls

/-- The offset in force after them. -/
def lastOffset (offsetHz : K) : List (NcoCall K) → K
  | [] => offsetHz
  | .setOffsetHz newOffsetHz :: calls => lastOffset newOffsetHz calls
  | .mixInPlace _ :: calls => lastOffset offsetHz calls

theorem length_offsets (offsetHz : K) (calls : List (NcoCall K)) :
    (offsets offsetHz calls).length = (samples calls).length := by
  induction calls generalizing offsetHz with
  | nil => rfl
  | cons call calls ih =>
    cases call with
    | setOffsetHz newOffsetHz => exact ih newOffsetHz
    | mixInPlace iq => simp only [offsets, samples, List.length_append, List.length_replicate, ih]

theorem samples_append (xs ys : List (NcoCall K)) : samples (xs ++ ys) = samples xs ++ samples ys := by
  induction xs with
  | nil => rfl
  | cons call xs ih => cases call <;> simp only [List.cons_append, samples, ih, List.append_assoc]

theorem offsets_append (offsetHz : K) (xs ys : List (NcoCall K)) :
    offsets offsetHz (xs ++ ys) = offsets offsetHz xs ++ offsets (lastOffset offsetHz xs) ys := by
  induction xs generalizing offsetHz with
  | nil => rfl
  | cons call xs ih => cases call <;> simp only [List.cons_append, offsets, lastOffset, ih, List.append_assoc]

theorem lastOffset_append (offsetHz : K) (xs ys : List (NcoCall K)) :
    lastOffset offsetHz (xs ++ ys) = lastOffset (lastOffset offsetHz xs) ys := by
  induction xs generalizing offsetHz with
  | nil => rfl
  | cons call xs ih => cases call <;> simp only [List.cons_append, lastOffset, ih]

/-- Chunks without a retune between them are one chunk. -/
theorem samples_mix (chunks : List (List (K × K))) : samples (chunks.map .mixInPlace) = chunks.flatten := by
  induction chunks with
  | nil => rfl
  | cons iq chunks ih => simp only [List.map_cons, samples, ih, List.flatten_cons]

theorem offsets_mix (offsetHz : K) (chunks : List (List (K × K))) :
    offsets offsetHz (chunks.map .mixInPlace) = List.replicate chunks.flatten.length offsetHz := by
  induction chunks with
  | nil => rfl
  | cons iq chunks ih =>
    simp only [List.map_cons, offsets, ih, List.flatten_cons, List.length_append, List.replicate_add]

theorem lastOffset_mix (offsetHz : K) (chunks : List (List (K × K))) :
    lastOffset offsetHz (chunks.map .mixInPlace) = offsetHz := by
  induction chunks with
  | nil => rfl
  | cons iq chunks ih => exact ih

end NcoCall

namespace Nco
open NcoCall

section Calls
variable {K : Type} [Field K] (T : Trig K)

/-- What a call leaves in its buffer, and the oscillator after it. -/
def call (nco : Nco K) : NcoCall K → List (K × K) × Nco K
  | .setOffsetHz offsetHz => ([], nco.setOffsetHz T offsetHz)
  | .mixInPlace iq => nco.mixInPlace T iq

/-- The mixed samples of all the calls, and the oscillator after them. -/
def calls (nco : Nco K) : List (NcoCall K) → List (K × K) × Nco K
  | [] => ([], nco)
  | c :: cs =>
    let r := nco.call T c
    let rs := calls r.2 cs
    (r.1 ++ rs.1, rs.2)

end Calls

/-! ### The phase it has reached -/

/-- The oscillator at phase `θ`, set to `offsetHz`. -/
noncomputable def atPhase (rate θ offsetHz : ℝ) : Nco ℝ where
  sampleRateHz := rate
  phaseRe := Real.cos θ
  phaseIm := Real.sin θ
  rotationRe := Real.cos (phaseIncrement Trig.real rate offsetHz)
  rotationIm := Real.sin (phaseIncrement Trig.real rate offsetHz)

/-- A sample turned by `θ`. -/
noncomputable def turn (θ : ℝ) (z : ℝ × ℝ) : ℝ × ℝ := iqOf (⟨z.1, z.2⟩ * Complex.exp (θ * Complex.I))

/-- Samples turned by a phase that each of them advances by its own increment. -/
noncomputable def turned : ℝ → List ℝ → List (ℝ × ℝ) → List (ℝ × ℝ)
  | θ, inc :: incs, z :: zs => turn θ z :: turned (θ + inc) incs zs
  | _, _, _ => []

theorem turn_eq (θ : ℝ) (z : ℝ × ℝ) :
    turn θ z = (z.1 * Real.cos θ - z.2 * Real.sin θ, z.1 * Real.sin θ + z.2 * Real.cos θ) := by
  simp only [turn, iqOf, Complex.mul_re, Complex.mul_im, Complex.exp_ofReal_mul_I_re, Complex.exp_ofReal_mul_I_im]

theorem construct_atPhase (rate : ℝ) : construct rate = atPhase rate 0 0 := by
  have hstill : phaseIncrement Trig.real rate 0 = 0 := by rw [phaseIncrement, mul_zero, zero_div]
  simp only [construct, atPhase, hstill, Real.cos_zero, Real.sin_zero]

theorem setOffsetHz_atPhase (rate θ offsetHz newOffsetHz : ℝ) :
    (atPhase rate θ offsetHz).setOffsetHz Trig.real newOffsetHz = atPhase rate θ newOffsetHz := rfl

/-- **One sample advances the phase by one increment.** -/
theorem mixLoop_turned (inc θ : ℝ) (iq : List (ℝ × ℝ)) :
    mixLoop (Real.cos inc) (Real.sin inc) (Real.cos θ, Real.sin θ) iq =
      (turned θ (List.replicate iq.length inc) iq,
        (Real.cos (θ + (List.replicate iq.length inc).sum), Real.sin (θ + (List.replicate iq.length inc).sum))) := by
  induction iq generalizing θ with
  | nil => simp only [mixLoop, turned, List.length_nil, List.replicate_zero, List.sum_nil, add_zero]
  | cons z iq ih =>
    have hre : Real.cos θ * Real.cos inc - Real.sin θ * Real.sin inc = Real.cos (θ + inc) := (Real.cos_add θ inc).symm
    have him : Real.cos θ * Real.sin inc + Real.sin θ * Real.cos inc = Real.sin (θ + inc) := by
      rw [Real.sin_add]
      ring
    simp only [mixLoop, hre, him, ih, List.length_cons, List.replicate_succ, turned, turn_eq, List.sum_cons, add_assoc]

theorem hypot_unit (θ : ℝ) : Trig.real.hypot (Real.cos θ) (Real.sin θ) = 1 := by
  show Real.sqrt (Real.cos θ ^ 2 + Real.sin θ ^ 2) = 1
  rw [Real.cos_sq_add_sin_sq, Real.sqrt_one]

/-- The renormalization divides by 1. -/
theorem renormalize_atPhase (rate θ offsetHz : ℝ) (iq : List (ℝ × ℝ)) :
    let nco := atPhase rate θ offsetHz
    let phase := (mixLoop nco.rotationRe nco.rotationIm (nco.phaseRe, nco.phaseIm) iq).2
    Trig.real.hypot phase.1 phase.2 = 1 ∧
      (nco.mixInPlace Trig.real iq).2 = {nco with phaseRe := phase.1, phaseIm := phase.2} := by
  intro nco phase
  have hmag : Trig.real.hypot phase.1 phase.2 = 1 := by
    simp only [phase, nco, atPhase, mixLoop_turned, hypot_unit]
  refine ⟨hmag, ?_⟩
  simp only [mixInPlace, phase] at hmag ⊢
  simp only [hmag, div_one]

/-- A chunk is mixed sample by sample, and leaves the phase advanced by all of them. -/
theorem mixInPlace_atPhase (rate θ offsetHz : ℝ) (iq : List (ℝ × ℝ)) :
    let incs := List.replicate iq.length (phaseIncrement Trig.real rate offsetHz)
    (atPhase rate θ offsetHz).mixInPlace Trig.real iq =
      (turned θ incs iq, atPhase rate (θ + incs.sum) offsetHz) := by
  intro incs
  simp only [mixInPlace, atPhase, mixLoop_turned, hypot_unit, div_one, incs]

theorem turned_append (θ : ℝ) {incs zs : List _} (incs' zs' : List _) (h : incs.length = zs.length) :
    turned θ (incs ++ incs') (zs ++ zs') = turned θ incs zs ++ turned (θ + incs.sum) incs' zs' := by
  induction incs generalizing θ zs with
  | nil =>
    obtain rfl := List.eq_nil_of_length_eq_zero h.symm
    rw [List.sum_nil, add_zero]
    rfl
  | cons inc incs ih =>
    cases zs with
    | nil => cases h
    | cons z zs =>
      simp only [List.cons_append, turned, ih (θ + inc) (Nat.succ.inj h), List.sum_cons, add_assoc]

/-- **What the calls have done is in the phase they have added up to.** -/
theorem calls_atPhase (rate θ offsetHz : ℝ) (cs : List (NcoCall ℝ)) :
    let incs := (offsets offsetHz cs).map (phaseIncrement Trig.real rate)
    (atPhase rate θ offsetHz).calls Trig.real cs =
      (turned θ incs (samples cs), atPhase rate (θ + incs.sum) (lastOffset offsetHz cs)) := by
  induction cs generalizing θ offsetHz with
  | nil => simp only [calls, offsets, samples, lastOffset, turned, List.map_nil, List.sum_nil, add_zero]
  | cons c cs ih =>
    cases c with
    | setOffsetHz newOffsetHz => simp only [calls, call, setOffsetHz_atPhase, ih, offsets, samples, lastOffset, List.nil_append]
    | mixInPlace iq =>
      simp only [calls, call, mixInPlace_atPhase, ih, offsets, samples, lastOffset, List.map_append, List.map_replicate,
        List.sum_append, add_assoc]
      rw [turned_append _ _ _ List.length_replicate]

/-- The `m`-th sample is turned by what the samples before it have advanced the phase by. -/
theorem turned_getElem? (θ : ℝ) {incs : List ℝ} {zs : List (ℝ × ℝ)} (h : incs.length = zs.length) (m : ℕ) :
    (turned θ incs zs)[m]? = zs[m]?.map (turn (θ + (incs.take m).sum)) := by
  induction incs generalizing θ zs m with
  | nil =>
    obtain rfl := List.eq_nil_of_length_eq_zero h.symm
    rfl
  | cons inc incs ih =>
    cases zs with
    | nil => cases h
    | cons z zs =>
      cases m with
      | zero => simp only [turned, List.getElem?_cons_zero, Option.map_some, List.take_zero, List.sum_nil, add_zero]
      | succ m =>
        simp only [turned, List.getElem?_cons_succ, ih (θ + inc) (Nat.succ.inj h), List.take_succ_cons, List.sum_cons,
          add_assoc]

theorem length_turned (θ : ℝ) {incs : List ℝ} {zs : List (ℝ × ℝ)} (h : incs.length = zs.length) :
    (turned θ incs zs).length = zs.length := by
  induction incs generalizing θ zs with
  | nil =>
    obtain rfl := List.eq_nil_of_length_eq_zero h.symm
    rfl
  | cons inc incs ih =>
    cases zs with
    | nil => cases h
    | cons z zs => rw [turned, List.length_cons, List.length_cons, ih (θ + inc) (Nat.succ.inj h)]

theorem norm_turn (θ : ℝ) (z : ℂ) : ‖z * Complex.exp (θ * Complex.I)‖ = ‖z‖ := by
  rw [norm_mul, Complex.norm_exp_ofReal_mul_I, mul_one]

theorem atPhase_unit (rate θ offsetHz : ℝ) :
    ‖(⟨(atPhase rate θ offsetHz).phaseRe, (atPhase rate θ offsetHz).phaseIm⟩ : ℂ)‖ = 1 ∧
      ‖(⟨(atPhase rate θ offsetHz).rotationRe, (atPhase rate θ offsetHz).rotationIm⟩ : ℂ)‖ = 1 :=
  ⟨Angle.norm_of_unit (Real.cos_sq_add_sin_sq _), Angle.norm_of_unit (Real.cos_sq_add_sin_sq _)⟩

/-- Where the samples between two retunes are cut makes no difference. -/
theorem calls_cut (rate : ℝ) (before after : List (NcoCall ℝ)) {as bs : List (List (ℝ × ℝ))}
    (h : as.flatten = bs.flatten) :
    (construct rate).calls Trig.real (before ++ as.map .mixInPlace ++ after) =
      (construct rate).calls Trig.real (before ++ bs.map .mixInPlace ++ after) := by
  simp only [construct_atPhase, calls_atPhase, samples_append, offsets_append, lastOffset_append, samples_mix,
    offsets_mix, lastOffset_mix, h]

/-- **Every sample is turned by the sum of the phases of the samples before it**, whatever
calls they came in: the modulus stays 1, and the renormalization changes nothing. -/
theorem mixing_closed_form (rate : ℝ) (cs : List (NcoCall ℝ)) :
    let mixed := ((construct rate).calls Trig.real cs).1
    let nco := ((construct rate).calls Trig.real cs).2
    ‖(⟨nco.phaseRe, nco.phaseIm⟩ : ℂ)‖ = 1 ∧ ‖(⟨nco.rotationRe, nco.rotationIm⟩ : ℂ)‖ = 1 ∧
      (∀ iq, let phase := (mixLoop nco.rotationRe nco.rotationIm (nco.phaseRe, nco.phaseIm) iq).2
        Trig.real.hypot phase.1 phase.2 = 1 ∧
          (nco.mixInPlace Trig.real iq).2 = {nco with phaseRe := phase.1, phaseIm := phase.2}) ∧
      mixed.length = (samples cs).length ∧
      (∀ m z, (samples cs)[m]? = some z → ∃ w, mixed[m]? = some w ∧
        (⟨w.1, w.2⟩ : ℂ) = ⟨z.1, z.2⟩ *
          Complex.exp ((((offsets 0 cs).take m).map fun o => -2 * Real.pi * o / rate).sum * Complex.I) ∧
        ‖(⟨w.1, w.2⟩ : ℂ)‖ = ‖(⟨z.1, z.2⟩ : ℂ)‖) ∧
      ∀ (before after : List (NcoCall ℝ)) (xs ys : List (List (ℝ × ℝ))),
        cs = before ++ xs.map .mixInPlace ++ after → ys.flatten = xs.flatten →
          (construct rate).calls Trig.real (before ++ ys.map .mixInPlace ++ after) = (mixed, nco) := by
  intro mixed nco
  have hlen : ((offsets 0 cs).map (phaseIncrement Trig.real rate)).length = (samples cs).length := by
    rw [List.length_map, length_offsets]
  have hcalls := calls_atPhase rate 0 0 cs
  rw [← construct_atPhase] at hcalls
  have hmixed : mixed = turned 0 _ (samples cs) := congrArg Prod.fst hcalls
  have hnco : nco = atPhase rate _ (lastOffset 0 cs) := congrArg Prod.snd hcalls
  refine ⟨?_, ?_, ?_, ?_, ?_, ?_⟩
  · rw [hnco]
    exact (atPhase_unit _ _ _).1
  · rw [hnco]
    exact (atPhase_unit _ _ _).2
  · intro iq
    rw [hnco]
    exact renormalize_atPhase _ _ _ iq
  · rw [hmixed, length_turned 0 hlen]
  · intro m z hz
    have hturn := turned_getElem? 0 hlen m
    rw [← hmixed, hz, Option.map_some, zero_add, ← List.map_take] at hturn
    exact ⟨_, hturn, rfl, norm_turn _ _⟩
  · intro before after xs ys hcs hsame
    subst hcs
    exact calls_cut rate before after hsame

end Nco

end VrxServer.Dsp
