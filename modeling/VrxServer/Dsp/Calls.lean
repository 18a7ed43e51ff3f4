import VrxServer.Dsp.Chunking
import Mathlib.Algebra.BigOperators.Group.Finset.Basic

/-! The decimator call by call, over the flat buffers it is handed.

`X` is the stream so far, flat, behind the `numTaps - 1` zero samples of the
constructor, and `P` the number of samples before a call. A call with `n` samples gives
`n / factor` of them back, the `o`-th one the taps against `X` from sample
`P + o * factor` on, and leaves the last `numTaps - 1` samples of `X` for the next
(`process_filters`). That nothing is read outside a buffer is part of it: a call that
did would have no result. -/
namespace VrxServer.Dsp
open Base

variable {F D : Type} (A : Arith F D)

/-- Products of samples and taps added up in their order, as an accumulator does it. -/
def Arith.sum (products : List (F × F)) : D := products.foldl (fun acc p => A.mac acc p.1 p.2) A.acc

/-- Exactly, an accumulator holds the sum. -/
theorem Arith.exact_sum {K : Type} [Semiring K] (products : List (K × K)) :
    (Arith.exact K).sum products = (products.map fun p => p.1 * p.2).sum := by
  have h : ∀ acc : K, products.foldl (fun acc p => acc + p.1 * p.2) acc =
      acc + (products.map fun p => p.1 * p.2).sum := by
    induction products with
    | nil => exact fun acc => (add_zero acc).symm
    | cons p products ih =>
      intro acc
      rw [List.foldl_cons, ih, List.map_cons, List.sum_cons, add_assoc]
  exact (h 0).trans (zero_add _)

/-- Two accumulators run side by side. -/
theorem Arith.foldl_pair (ws : List (F × F × F)) (acc : D × D) :
    ws.foldl (fun acc p => (A.mac acc.1 p.2.1 p.1, A.mac acc.2 p.2.2 p.1)) acc =
      ((ws.map fun p => (p.2.1, p.1)).foldl (fun acc p => A.mac acc p.1 p.2) acc.1,
        (ws.map fun p => (p.2.2, p.1)).foldl (fun acc p => A.mac acc p.1 p.2) acc.2) := by
  induction ws generalizing acc with
  | nil => rfl
  | cons w ws ih => exact ih _

namespace Decimator

/-- The products that make component `q` (0 is I, 1 is Q) of the filter at sample `p` of
the flat stream `X`. -/
def products (taps X : List F) (p q : ℕ) : List (F × F) :=
  (List.range taps.length).map fun t => (X.getD ((p + t) * 2 + q) A.zero, taps.getD t A.zero)

/-- In exact arithmetic they add up to the convolution sum. -/
theorem sum_products {K : Type} [CommSemiring K] (taps X : List K) (p q : ℕ) :
    (Arith.exact K).sum (products (Arith.exact K) taps X p q) =
      ∑ t ∈ Finset.range taps.length, taps.getD t 0 * X.getD ((p + t) * 2 + q) 0 := by
  have hcomm : ∀ t, X.getD ((p + t) * 2 + q) 0 * taps.getD t 0 = taps.getD t 0 * X.getD ((p + t) * 2 + q) 0 :=
    fun t => mul_comm _ _
  rw [Arith.exact_sum, products, List.map_map]
  exact congrArg List.sum (List.map_congr_left fun t _ => hcomm t)

/-- The products of a window of whole samples, component by component. -/
theorem products_interleave (taps : List F) (X : List (F × F)) (p : ℕ) (h : p + taps.length ≤ X.length) :
    products A taps (interleave X) p 0 = (taps.zip (X.drop p)).map (fun w => (w.2.1, w.1)) ∧
      products A taps (interleave X) p 1 = (taps.zip (X.drop p)).map (fun w => (w.2.2, w.1)) := by
  have hlen : ∀ q, (products A taps (interleave X) p q).length = (taps.zip (X.drop p)).length := by
    intro q
    rw [products, List.length_map, List.length_range, List.length_zip, List.length_drop]
    omega
  constructor
  · refine List.ext_getElem (by rw [hlen, List.length_map]) fun t h₁ h₂ => ?_
    have ht : t < taps.length := by simpa [products] using h₁
    have hX := (getElem?_interleave X (p + t)).1
    rw [List.getElem?_eq_getElem (show p + t < X.length by omega)] at hX
    simp [products, List.getD_eq_getElem?_getD, hX, List.getElem?_eq_getElem ht]
  · refine List.ext_getElem (by rw [hlen, List.length_map]) fun t h₁ h₂ => ?_
    have ht : t < taps.length := by simpa [products] using h₁
    have hX := (getElem?_interleave X (p + t)).2
    rw [List.getElem?_eq_getElem (show p + t < X.length by omega)] at hX
    simp [products, List.getD_eq_getElem?_getD, hX, List.getElem?_eq_getElem ht]

theorem firAt_eq (taps : List F) (X : List (F × F)) (p : ℕ) (h : p + taps.length ≤ X.length) :
    firAt A taps X p = (A.toFloat (A.sum (products A taps (interleave X) p 0)),
      A.toFloat (A.sum (products A taps (interleave X) p 1))) := by
  obtain ⟨hi, hq⟩ := products_interleave A taps X p h
  rw [hi, hq, firAt, window, Arith.foldl_pair]
  rfl

/-- The `o`-th of the samples a call puts out from sample `P` of the stream on. -/
theorem getElem?_outputs (taps : List F) (X : List (F × F)) {factor P n o : ℕ} (hf : 0 < factor)
    (ht : 0 < taps.length) (hlen : X.length = P + n + (taps.length - 1)) (ho : o < n / factor) :
    (P + o * factor + (taps.length - 1)) * 2 + 1 < (interleave X).length ∧
      (interleave ((positions factor n).map (firAt A taps (X.drop P))))[o * 2]? =
        some (A.toFloat (A.sum (products A taps (interleave X) (P + o * factor) 0))) ∧
      (interleave ((positions factor n).map (firAt A taps (X.drop P))))[o * 2 + 1]? =
        some (A.toFloat (A.sum (products A taps (interleave X) (P + o * factor) 1))) := by
  have hmem : o * factor ∈ positions factor n := List.mem_map.mpr ⟨o, List.mem_range.mpr ho, rfl⟩
  have hle := position_lt hmem
  obtain ⟨hi, hq⟩ := getElem?_positions (firAt A taps (X.drop P)) ho
  rw [firAt_drop, firAt_eq A taps _ _ (by omega)] at hi hq
  rw [length_interleave]
  exact ⟨by omega, hi, hq⟩

/-- What the call with `input`, after calls with `inputs`, does. -/
def Filters (taps : List F) (factor : ℕ) (ht : taps ≠ []) (hf : 0 < factor) (inputs : List (List F))
    (input : List F) : Prop :=
  let X := List.replicate ((taps.length - 1) * 2) A.zero ++ (inputs ++ [input]).flatten
  let P := inputs.flatten.length / 2
  let n := input.length / 2
  ∃ before d out d', processAll A (fresh A taps factor ht hf) inputs = some (before, d) ∧
    process A d input = some (out, d') ∧
    out.length = n / factor * 2 ∧
    (∀ o, o < n / factor →
      (P + o * factor + (taps.length - 1)) * 2 + 1 < X.length ∧
      out[o * 2]? = some (A.toFloat (A.sum (products A taps X (P + o * factor) 0))) ∧
      out[o * 2 + 1]? = some (A.toFloat (A.sum (products A taps X (P + o * factor) 1)))) ∧
    d'.history = X.drop (X.length - (taps.length - 1) * 2)

/-- The stream behind the constructor's zeros, laid out flat. -/
theorem interleave_padded (taps : List F) (cs : List (List (F × F))) (c : List (F × F)) :
    List.replicate ((taps.length - 1) * 2) A.zero ++ (cs.map interleave ++ [interleave c]).flatten =
      interleave (padded A taps (cs.flatten ++ c)) := by
  rw [padded, interleave_append, interleave_append, interleave_replicate, List.flatten_append, interleave_flatten,
    List.flatten_singleton]

/-- The history a call begins with and its chunk are the stream from there on. -/
theorem drop_padded (taps : List F) (X c : List (F × F)) :
    (padded A taps X).drop X.length ++ c = (padded A taps (X ++ c)).drop X.length := by
  rw [padded, padded, ← List.append_assoc]
  refine (List.drop_append_of_le_length ?_).symm
  rw [List.length_append]
  omega

theorem filters_interleave (taps : List F) (factor : ℕ) (ht : taps ≠ []) (hf : 0 < factor)
    (cs : List (List (F × F))) (c : List (F × F)) :
    Filters A taps factor ht hf (cs.map interleave) (interleave c) := by
  have htaps : 0 < taps.length := List.length_pos_of_ne_nil ht
  have hP : (cs.map interleave).flatten.length / 2 = cs.flatten.length := by
    rw [← interleave_flatten, half_length_interleave]
  obtain ⟨d, hrun, ht₁, hf₁, hH₁⟩ := processAll_fresh A taps factor ht hf cs
  obtain ⟨d', hcall, -, -, hH₂⟩ := process_interleave A d _ c hH₁
  rw [drop_padded, ht₁, hf₁] at hcall
  rw [drop_padded, List.drop_drop] at hH₂
  refine ⟨_, d, _, d', hrun, hcall, ?_, fun o ho => ?_, ?_⟩
  · rw [length_interleave, List.length_map, half_length_interleave, positions, List.length_map, List.length_range]
  · rw [half_length_interleave] at ho
    have hlen : (padded A taps (cs.flatten ++ c)).length = cs.flatten.length + c.length + (taps.length - 1) := by
      rw [length_padded, List.length_append, Nat.add_comm]
    rw [interleave_padded, hP]
    exact getElem?_outputs A taps _ hf htaps hlen ho
  · rw [interleave_padded, hH₂, length_interleave, ← Nat.sub_mul, drop_interleave, length_padded, List.length_append,
      Nat.add_sub_cancel_left]

/-- **Every call filters the whole stream at the positions it emits.** -/
theorem process_filters (taps : List F) (factor : ℕ) (ht : taps ≠ []) (hf : 0 < factor)
    (inputs : List (List F)) (input : List F) (heven : ∀ c ∈ inputs ++ [input], Even c.length) :
    Filters A taps factor ht hf inputs input := by
  obtain ⟨cs, hcs⟩ := exists_map_interleave fun c hc => heven c (List.mem_append_left _ hc)
  obtain ⟨c, hc⟩ := exists_interleave (heven input (by simp))
  rw [← hcs, ← hc]
  exact filters_interleave A taps factor ht hf cs c

/-- Calls shorter than the filter, an empty one among them, then one with an output. -/
theorem process_filters_short :
    Filters (Arith.exact ℤ) [1, 2, 3] 2 (List.cons_ne_nil _ _) two_pos [[1, -1], []] [3, 4, 5, 6] :=
  process_filters (Arith.exact ℤ) [1, 2, 3] 2 (List.cons_ne_nil _ _) two_pos [[1, -1], []] [3, 4, 5, 6]
    (by decide)

end Decimator

end VrxServer.Dsp
