import VrxServer.Dsp.Decimator
import Mathlib.Data.List.SplitLengths
import Mathlib.Algebra.BigOperators.Group.List.Basic

/-! The decimator over a stream cut into chunks.

Let `X` be the stream behind `numTaps - 1` zeros. Every call filters `X` itself: the
history it carries is the exact tail of what came before, for every sequence of chunk
lengths (`processAll_interleave`). What a call does not carry is the decimation phase.
It takes its outputs at multiples of the factor from its own chunk's start and drops
the samples left over, so the positions of the outputs in the stream depend on the cut:
they are `emitted`, a function of the chunk lengths. Two cuts of a stream agree exactly
when they emit at the same positions (`cutsAgree_iff`), and a cut into multiples of the
factor, but for its last chunk, emits where one call on the whole stream does
(`emitted_of_dvd`). -/
namespace VrxServer.Dsp.Decimator
open Base

variable {F D : Type} (A : Arith F D)

/-- The stream positions a run emits at, from position `P` on, cut into chunks of lengths `ns`. -/
def emitted (factor : ℕ) : ℕ → List ℕ → List ℕ
  | _, [] => []
  | P, n :: ns => (positions factor n).map (P + ·) ++ emitted factor (P + n) ns

/-- **A run filters the whole stream at the positions it emits.** `Z` is what precedes
the run: the zeros of a fresh decimator, then the `P` samples consumed so far. -/
theorem processAll_interleave (d : Decimator F) (Z : List (F × F)) (P : ℕ)
    (hZ : Z.length = P + (d.taps.length - 1)) (hH : d.history = interleave (Z.drop P))
    (cs : List (List (F × F))) :
    ∃ d', processAll A d (cs.map interleave) =
        some (interleave ((emitted d.factor P (cs.map List.length)).map
          (firAt A d.taps (Z ++ cs.flatten))), d') ∧
      d'.taps = d.taps ∧ d'.factor = d.factor ∧
      d'.history = interleave ((Z ++ cs.flatten).drop (P + cs.flatten.length)) := by
  induction cs generalizing d Z P with
  | nil => exact ⟨d, rfl, rfl, rfl, by simpa using hH⟩
  | cons c cs ih =>
    have htaps : 0 < d.taps.length := List.length_pos_of_ne_nil d.taps_ne
    have hdrop : Z.drop P ++ c = (Z ++ c).drop P := (List.drop_append_of_le_length (by omega)).symm
    obtain ⟨d₁, hcall, ht₁, hf₁, hH₁⟩ := process_interleave A d (Z.drop P) c hH
    rw [hdrop, List.drop_drop] at hH₁
    have hZ₁ : (Z ++ c).length = P + c.length + (d₁.taps.length - 1) := by
      rw [List.length_append, hZ, ht₁]
      omega
    obtain ⟨d₂, hrun, ht₂, hf₂, hH₂⟩ := ih d₁ (Z ++ c) (P + c.length) hZ₁ hH₁
    have hhead : (positions d.factor c.length).map (firAt A d.taps (Z.drop P ++ c)) =
        ((positions d.factor c.length).map (P + ·)).map (firAt A d.taps (Z ++ (c :: cs).flatten)) := by
      rw [List.map_map]
      refine List.map_congr_left fun p hp => ?_
      have hle := position_lt hp
      have hf := d.factor_pos
      rw [hdrop, firAt_drop, List.flatten_cons, ← List.append_assoc]
      refine (firAt_append A d.taps (Z ++ c) cs.flatten (P + p) ?_).symm
      rw [List.length_append, hZ]
      omega
    refine ⟨d₂, ?_, ht₂.trans ht₁, hf₂.trans hf₁, ?_⟩
    · rw [ht₁, hf₁, List.append_assoc, ← List.flatten_cons] at hrun
      rw [List.map_cons, processAll, hcall]
      simp only [Option.bind_eq_bind, Option.bind_some, hrun]
      rw [hhead, ← interleave_append, ← List.map_append]
      rfl
    · rw [hH₂, List.append_assoc, ← List.flatten_cons, List.flatten_cons, List.length_append, Nat.add_assoc]

/-- What a fresh decimator puts out for a stream cut into chunks. -/
def output (taps : List F) (factor : ℕ) (ht : taps ≠ []) (hf : 0 < factor) (chunks : List (List F)) :
    Option (List F) :=
  (processAll A (fresh A taps factor ht hf) chunks).map Prod.fst

/-- The stream a fresh decimator filters: its history's zeros, then what it is fed. -/
def padded (taps : List F) (X : List (F × F)) : List (F × F) :=
  List.replicate (taps.length - 1) (A.zero, A.zero) ++ X

theorem length_padded (taps : List F) (X : List (F × F)) :
    (padded A taps X).length = taps.length - 1 + X.length := by
  rw [padded, List.length_append, List.length_replicate]

theorem processAll_fresh (taps : List F) (factor : ℕ) (ht : taps ≠ []) (hf : 0 < factor)
    (cs : List (List (F × F))) :
    ∃ d, processAll A (fresh A taps factor ht hf) (cs.map interleave) =
        some (interleave ((emitted factor 0 (cs.map List.length)).map
          (firAt A taps (padded A taps cs.flatten))), d) ∧
      d.taps = taps ∧ d.factor = factor ∧
      d.history = interleave ((padded A taps cs.flatten).drop cs.flatten.length) := by
  have hH : (fresh A taps factor ht hf).history =
      interleave ((List.replicate (taps.length - 1) (A.zero, A.zero)).drop 0) := by
    rw [List.drop_zero, interleave_replicate]
    rfl
  obtain ⟨d, hrun, ht', hf', hhist⟩ := processAll_interleave A (fresh A taps factor ht hf) _ 0
    (by rw [List.length_replicate, Nat.zero_add]; rfl) hH cs
  rw [Nat.zero_add] at hhist
  exact ⟨d, hrun, ht', hf', hhist⟩

theorem output_interleave (taps : List F) (factor : ℕ) (ht : taps ≠ []) (hf : 0 < factor)
    (cs : List (List (F × F))) :
    output A taps factor ht hf (cs.map interleave) =
      some (interleave ((emitted factor 0 (cs.map List.length)).map
        (firAt A taps (padded A taps cs.flatten)))) := by
  obtain ⟨d, hrun, -⟩ := processAll_fresh A taps factor ht hf cs
  rw [output, hrun]
  rfl

/-! ### Which cuts agree -/

/-- Cutting a stream into chunks of lengths `ns` or of lengths `ms` makes no difference,
whatever the arithmetic, the taps and the samples. -/
def CutsAgree (factor : ℕ) (hf : 0 < factor) (ns ms : List ℕ) : Prop :=
  ∀ (F D : Type) (A : Arith F D) (taps : List F) (ht : taps ≠ []) (cs ds : List (List (F × F))),
    cs.map List.length = ns → ds.map List.length = ms → cs.flatten = ds.flatten →
      output A taps factor ht hf (cs.map interleave) = output A taps factor ht hf (ds.map interleave)

/-- The filter with the single tap 1 passes the stream's samples. -/
theorem firAt_one (X : List (ℕ × ℕ)) (p : ℕ) (h : p < X.length) :
    firAt (Arith.exact ℕ) [1] (padded (Arith.exact ℕ) [1] X) p = X[p] := by
  have hpad : padded (Arith.exact ℕ) [1] X = X := rfl
  rw [hpad]
  simp only [firAt, window, Arith.exact]
  rw [List.drop_eq_getElem_cons h]
  show ((0 : ℕ) + X[p].1 * 1, (0 : ℕ) + X[p].2 * 1) = X[p]
  rw [Nat.zero_add, Nat.zero_add, Nat.mul_one, Nat.mul_one]

theorem emitted_lt (factor P : ℕ) (hf : 0 < factor) (ns : List ℕ) (p : ℕ) (h : p ∈ emitted factor P ns) :
    p < P + ns.sum := by
  induction ns generalizing P with
  | nil => cases h
  | cons n ns ih =>
    rw [List.sum_cons]
    rcases List.mem_append.mp h with h | h
    · obtain ⟨q, hq, rfl⟩ := List.mem_map.mp h
      have := position_lt hq
      omega
    · have := ih (P + n) h
      omega

/-- Fed the numbers 0, 1, 2, … through the single tap 1, a run puts out the positions it
emits at. -/
theorem output_range (factor : ℕ) (hf : 0 < factor) (cs : List (List (ℕ × ℕ)))
    (hcs : cs.flatten = (List.range cs.flatten.length).map fun i => (i, i)) :
    output (Arith.exact ℕ) [1] factor (List.cons_ne_nil 1 []) hf (cs.map interleave) =
      some (interleave ((emitted factor 0 (cs.map List.length)).map fun p => (p, p))) := by
  rw [output_interleave]
  congr 2
  refine List.map_congr_left fun p hp => ?_
  have hlt : p < cs.flatten.length := by
    have := emitted_lt factor 0 hf _ p hp
    rwa [Nat.zero_add, ← List.length_flatten] at this
  rw [firAt_one _ p hlt]
  have : cs.flatten[p]? = some (p, p) := by
    rw [hcs, List.getElem?_map, List.getElem?_range hlt]
    rfl
  rw [List.getElem?_eq_getElem hlt] at this
  exact Option.some.inj this

/-- **Two cuts of a stream agree exactly when they emit at the same positions**, which
the chunk lengths and the factor decide. -/
theorem cutsAgree_iff (factor : ℕ) (hf : 0 < factor) (ns ms : List ℕ) (hsum : ns.sum = ms.sum) :
    CutsAgree factor hf ns ms ↔ emitted factor 0 ns = emitted factor 0 ms := by
  constructor
  · intro h
    let X := (List.range ns.sum).map fun i => (i, i)
    have hX : X.length = ns.sum := by simp [X]
    have hcs : (ns.splitLengths X).flatten = X := List.flatten_splitLengths _ _ hX.le
    have hds : (ms.splitLengths X).flatten = X := List.flatten_splitLengths _ _ (hX.trans hsum).le
    have hns : (ns.splitLengths X).map List.length = ns := List.map_splitLengths_length _ _ hX.ge
    have hms : (ms.splitLengths X).map List.length = ms :=
      List.map_splitLengths_length _ _ (hX.trans hsum).ge
    have heq := h ℕ ℕ (Arith.exact ℕ) [1] (List.cons_ne_nil 1 []) _ _ hns hms (hcs.trans hds.symm)
    rw [output_range factor hf _ (by rw [hcs, hX]), output_range factor hf _ (by rw [hds, hX]), hns, hms,
      Option.some.injEq] at heq
    exact List.map_injective_iff.mpr (fun _ _ h => (Prod.mk.inj h).1) (interleave_injective heq)
  · intro h F D A taps ht cs ds hp hq hflat
    obtain rfl := hp
    obtain rfl := hq
    rw [output_interleave, output_interleave, h, hflat]

/-- The two cuts of a two-sample stream: whole, it gives an output; sample by sample, none. -/
theorem cutsAgree_two : ¬ CutsAgree 2 two_pos [1, 1] [2] := by
  intro h
  have := h ℕ ℕ (Arith.exact ℕ) [1] (List.cons_ne_nil 1 []) [[(3, 5)], [(7, 9)]] [[(3, 5), (7, 9)]] rfl rfl rfl
  exact absurd this (by decide)

/-- The condition met by a cut into multiples of the factor. -/
theorem cutsAgree_four : CutsAgree 2 two_pos [2, 2] [4] :=
  (cutsAgree_iff 2 two_pos [2, 2] [4] rfl).mpr (by decide)

/-! ### Cuts that keep the phase -/

theorem positions_add {factor : ℕ} (hf : 0 < factor) (m n : ℕ) (h : factor ∣ m) :
    positions factor (m + n) = positions factor m ++ (positions factor n).map (m + ·) := by
  obtain ⟨k, rfl⟩ := h
  have hdiv : (factor * k + n) / factor = k + n / factor := Nat.mul_add_div hf k n
  simp only [positions, hdiv, Nat.mul_div_cancel_left k hf, List.range_add, List.map_append, List.map_map]
  congr 1
  refine List.map_congr_left fun o _ => ?_
  simp only [Function.comp]
  ring

/-- A cut whose chunks, but for the last, are multiples of the factor emits where one
call on the whole stream does. -/
theorem emitted_of_dvd {factor : ℕ} (hf : 0 < factor) (P : ℕ) (ns : List ℕ)
    (h : ∀ n ∈ ns.dropLast, factor ∣ n) :
    emitted factor P ns = (positions factor ns.sum).map (P + ·) := by
  induction ns generalizing P with
  | nil => simp [emitted, positions]
  | cons n ns ih =>
    cases ns with
    | nil => simp [emitted]
    | cons m ns =>
      have hn : factor ∣ n := h n (by simp)
      have hrest := ih (P + n) (fun k hk => h k (by simp [hk]))
      rw [emitted, hrest, List.sum_cons (a := n), positions_add hf n _ hn, List.map_append, List.map_map]
      congr 2
      funext p
      simp only [Function.comp, Nat.add_assoc]

/-- With factor 1 no cut loses the phase. -/
theorem cutsAgree_factor_one (ns ms : List ℕ) (hsum : ns.sum = ms.sum) :
    emitted 1 0 ns = emitted 1 0 ms := by
  rw [emitted_of_dvd one_pos 0 ns fun n _ => one_dvd n, emitted_of_dvd one_pos 0 ms fun n _ => one_dvd n, hsum]

end VrxServer.Dsp.Decimator
