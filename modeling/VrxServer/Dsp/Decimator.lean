import VrxServer.Base.Interleave
import Mathlib.Algebra.Ring.Defs
import Mathlib.Algebra.Order.Ring.Int
import Mathlib.Tactic.Ring

/-! The decimator: a FIR filter and integer decimation over a stream cut into chunks.

`process` is the source's, over flat interleaved buffers, with every index and every
unsigned subtraction checked: it answers `none` where the source would read outside a
buffer or wrap. `process_interleave` says what it does to whole I/Q pairs: it never
fails, it filters the history followed by the chunk at every `factor`-th position from
the chunk's start, and keeps the last `numTaps - 1` samples. -/
namespace VrxServer.Dsp
open Base

/-- The arithmetic of the filter: samples and taps are floats, accumulators doubles. -/
structure Arith (F D : Type) where
  zero : F
  acc : D
  mac : D → F → F → D
  toFloat : D → F

/-- Exact arithmetic. -/
def Arith.exact (K : Type) [Semiring K] : Arith K K := ⟨0, 0, fun acc x tap => acc + x * tap, id⟩

structure Decimator (F : Type) where
  taps : List F
  factor : ℕ
  history : List F
  taps_ne : taps ≠ []
  factor_pos : 0 < factor
  history_length : history.length = (taps.length - 1) * 2

namespace Decimator
variable {F D : Type} (A : Arith F D)

/-- A decimator nothing has been fed to. -/
def fresh (taps : List F) (factor : ℕ) (ht : taps ≠ []) (hf : 0 < factor) : Decimator F where
  taps := taps
  factor := factor
  history := List.replicate ((taps.length - 1) * 2) A.zero
  taps_ne := ht
  factor_pos := hf
  history_length := List.length_replicate

/-- The constructor. With no taps the history's length wraps and the vector refuses it. -/
def construct (taps : List F) (decimationFactor : ℤ) : Except String (Decimator F) :=
  if hf : decimationFactor < 1 then
    .error ("Decimator: decimationFactor must be a positive integer, got " ++ toString decimationFactor)
  else if ht : taps = [] then .error "cannot create std::vector larger than max_size()"
  else .ok (fresh A taps decimationFactor.toNat ht (by omega))

/-- The inner loop: one output's two sums, from tap `t` on. -/
def tapLoop (buf : List F) (centerIdx : ℕ) : List F → ℕ → D × D → Option (D × D)
  | [], _, acc => some acc
  | tap :: taps, t, (accI, accQ) => do
    let sampleIdx := (centerIdx + t) * 2
    let i ← buf[sampleIdx]?
    let q ← buf[sampleIdx + 1]?
    tapLoop buf centerIdx taps (t + 1) (A.mac accI i tap, A.mac accQ q tap)

/-- The outer loop, for the outputs `o`, `o + 1`, …: `n` of them. -/
def outputLoop (taps buf : List F) (factor : ℕ) : ℕ → ℕ → Option (List F)
  | _, 0 => some []
  | o, n + 1 => do
    let (accI, accQ) ← tapLoop A buf (o * factor) taps 0 (A.acc, A.acc)
    let out ← outputLoop taps buf factor (o + 1) n
    some (A.toFloat accI :: A.toFloat accQ :: out)

/-- `a - b` on `size_t`, where it does not wrap. -/
def sizeSub (a b : ℕ) : Option ℕ := if b ≤ a then some (a - b) else none

/-- How many outputs a call makes, in `long` arithmetic: its division rounds toward zero. -/
def outSamples (totalSamples numTaps factor : ℕ) : ℕ :=
  let rawOutSamples : ℤ := ((totalSamples : ℤ) - (numTaps : ℤ) + 1).tdiv factor
  (max 0 rawOutSamples).toNat

/-- What `process` saves: `len` values of the buffer's tail, behind zeros. -/
def newHistory (history buf : List F) (len : ℕ) : List F :=
  List.replicate (history.length - len) A.zero ++ buf.drop (buf.length - len)

theorem length_newHistory (history input : List F) (len : ℕ) (h : len ≤ history.length) :
    (newHistory A history (history ++ input) len).length = history.length := by
  simp only [newHistory, List.length_append, List.length_replicate, List.length_drop]
  omega

/-- The decimator after a call that saves `newHistLen` values. -/
def keep (d : Decimator F) (input : List F) (newHistLen : ℕ) (h : newHistLen ≤ d.history.length) :
    Decimator F :=
  {d with
    history := newHistory A d.history (d.history ++ input) newHistLen
    history_length := (length_newHistory A d.history input _ h).trans d.history_length }

def process (d : Decimator F) (input : List F) : Option (List F × Decimator F) := do
  let numTaps := d.taps.length
  let histSamples := d.history.length / 2
  let inSamples := input.length / 2
  let buf := d.history ++ input
  let totalSamples := histSamples + inSamples
  let outSamples := outSamples totalSamples numTaps d.factor
  let out ← outputLoop A d.taps buf d.factor 0 outSamples
  let consumedSamples := outSamples * d.factor
  let remainderStart := consumedSamples * 2
  let remainderLen ← sizeSub buf.length remainderStart
  let newHistLen := min remainderLen d.history.length
  some (out, keep A d input newHistLen (Nat.min_le_right ..))

/-- Successive calls, their outputs one behind the other. -/
def processAll (d : Decimator F) : List (List F) → Option (List F × Decimator F)
  | [] => some ([], d)
  | input :: rest => do
    let (out, d') ← process A d input
    let (more, d'') ← processAll d' rest
    some (out ++ more, d'')

/-! ### The filter on whole samples -/

/-- The two sums over a window that starts at the first tap's sample. -/
def window (taps : List F) (w : List (F × F)) : D × D :=
  (taps.zip w).foldl (fun acc p => (A.mac acc.1 p.2.1 p.1, A.mac acc.2 p.2.2 p.1)) (A.acc, A.acc)

/-- The filter's output at position `p` of a stream `X`. -/
def firAt (taps : List F) (X : List (F × F)) (p : ℕ) : F × F :=
  let s := window A taps (X.drop p)
  (A.toFloat s.1, A.toFloat s.2)

theorem zip_append_of_length_le {α β : Type} (as : List α) (bs more : List β)
    (h : as.length ≤ bs.length) : as.zip (bs ++ more) = as.zip bs := by
  induction as generalizing bs with
  | nil => simp
  | cons a as ih =>
    cases bs with
    | nil => cases h
    | cons b bs => simp only [List.cons_append, List.zip_cons_cons, ih bs (Nat.le_of_succ_le_succ h)]

/-- The filter does not look past its taps. -/
theorem firAt_append (taps : List F) (X more : List (F × F)) (p : ℕ)
    (h : p + taps.length ≤ X.length) : firAt A taps (X ++ more) p = firAt A taps X p := by
  have hlen : taps.length ≤ (X.drop p).length := by
    rw [List.length_drop]
    omega
  simp only [firAt, window]
  rw [List.drop_append_of_le_length (by omega), zip_append_of_length_le taps _ more hlen]

theorem firAt_drop (taps : List F) (X : List (F × F)) (n p : ℕ) :
    firAt A taps (X.drop n) p = firAt A taps X (n + p) := by
  simp only [firAt, List.drop_drop]

theorem tapLoop_interleave (X : List (F × F)) (c t : ℕ) (taps : List F) (acc : D × D)
    (h : c + t + taps.length ≤ X.length) :
    tapLoop A (interleave X) c taps t acc =
      some ((taps.zip (X.drop (c + t))).foldl
        (fun acc p => (A.mac acc.1 p.2.1 p.1, A.mac acc.2 p.2.2 p.1)) acc) := by
  induction taps generalizing t acc with
  | nil => rfl
  | cons tap taps ih =>
    rw [List.length_cons] at h
    have hlt : c + t < X.length := by omega
    obtain ⟨hi, hq⟩ := getElem?_interleave X (c + t)
    rw [List.getElem?_eq_getElem hlt] at hi hq
    simp only [tapLoop, hi, hq, Option.map_some, Option.bind_eq_bind, Option.bind_some]
    rw [ih (t + 1) _ (by omega), List.drop_eq_getElem_cons hlt]
    rfl

theorem outputLoop_interleave (X : List (F × F)) (taps : List F) (factor o n : ℕ)
    (h : ∀ k, k < n → (o + k) * factor + taps.length ≤ X.length) :
    outputLoop A taps (interleave X) factor o n =
      some (interleave ((List.range n).map fun k => firAt A taps X ((o + k) * factor))) := by
  induction n generalizing o with
  | zero => rfl
  | succ n ih =>
    have h0 := h 0 (Nat.succ_pos n)
    rw [Nat.add_zero] at h0
    have hrest : ∀ k, k < n → (o + 1 + k) * factor + taps.length ≤ X.length := by
      intro k hk
      have := h (k + 1) (by omega)
      rwa [show o + (k + 1) = o + 1 + k by omega] at this
    simp only [outputLoop, tapLoop_interleave A X (o * factor) 0 taps _ (by omega), ih (o + 1) hrest,
      Option.bind_eq_bind, Option.bind_some]
    rw [List.range_succ_eq_map, List.map_cons, List.map_map, interleave, Nat.add_zero]
    have hshift : ((fun k => firAt A taps X ((o + k) * factor)) ∘ Nat.succ) =
        fun k => firAt A taps X ((o + 1 + k) * factor) := by
      funext k
      simp only [Function.comp, Nat.succ_eq_add_one, show o + (k + 1) = o + 1 + k by omega]
    rw [hshift]
    rfl

/-- Where, from the start of a chunk of `n` samples, outputs are taken. -/
def positions (factor n : ℕ) : List ℕ := (List.range (n / factor)).map (· * factor)

theorem position_lt {factor n p : ℕ} (h : p ∈ positions factor n) : p + factor ≤ n := by
  obtain ⟨o, ho, rfl⟩ := List.mem_map.mp h
  have hle : (o + 1) * factor ≤ n :=
    le_trans (Nat.mul_le_mul_right factor (List.mem_range.mp ho)) (Nat.div_mul_le_self n factor)
  rw [Nat.add_mul, Nat.one_mul] at hle
  exact hle

/-- The `o`-th of the values taken at those positions, laid out flat. -/
theorem getElem?_positions (g : ℕ → F × F) {factor n o : ℕ} (ho : o < n / factor) :
    (interleave ((positions factor n).map g))[o * 2]? = some (g (o * factor)).1 ∧
      (interleave ((positions factor n).map g))[o * 2 + 1]? = some (g (o * factor)).2 := by
  have hget : ((positions factor n).map g)[o]? = some (g (o * factor)) := by
    rw [List.getElem?_map, positions, List.getElem?_map, List.getElem?_range ho]
    rfl
  obtain ⟨hi, hq⟩ := getElem?_interleave ((positions factor n).map g) o
  rw [hget] at hi hq
  exact ⟨hi, hq⟩

/-- Behind a full history a chunk of `n` samples makes `n / factor` outputs. -/
theorem outSamples_eq (n numTaps factor : ℕ) (h : 0 < numTaps) :
    outSamples (numTaps - 1 + n) numTaps factor = n / factor := by
  have hn : ((numTaps - 1 + n : ℕ) : ℤ) - (numTaps : ℤ) + 1 = (n : ℤ) := by omega
  simp only [outSamples]
  rw [hn, ← Int.ofNat_tdiv, max_eq_right (Int.natCast_nonneg _), Int.toNat_natCast]

/-- **One call on whole samples.** It never fails; it filters history and chunk at
every `factor`-th position, and keeps the last `numTaps - 1` samples, all of them in
place, whatever the chunk's length. -/
theorem process_interleave (d : Decimator F) (H xs : List (F × F)) (hH : d.history = interleave H) :
    ∃ d', process A d (interleave xs) =
        some (interleave ((positions d.factor xs.length).map (firAt A d.taps (H ++ xs))), d') ∧
      d'.taps = d.taps ∧ d'.factor = d.factor ∧
      d'.history = interleave ((H ++ xs).drop xs.length) := by
  have hf := d.factor_pos
  have htaps : 0 < d.taps.length := List.length_pos_of_ne_nil d.taps_ne
  have hHlen : H.length = d.taps.length - 1 := by
    have := d.history_length
    rw [hH, length_interleave] at this
    omega
  have hbuf : d.history ++ interleave xs = interleave (H ++ xs) := by rw [hH, interleave_append]
  have hout : outSamples (d.history.length / 2 + (interleave xs).length / 2) d.taps.length d.factor =
      xs.length / d.factor := by
    rw [hH, half_length_interleave, half_length_interleave, hHlen, outSamples_eq _ _ _ htaps]
  have hle : xs.length / d.factor * d.factor ≤ xs.length := Nat.div_mul_le_self _ _
  have hloop := outputLoop_interleave A (H ++ xs) d.taps d.factor 0 (xs.length / d.factor) (by
    intro k hk
    have hmem : k * d.factor ∈ positions d.factor xs.length :=
      List.mem_map.mpr ⟨k, List.mem_range.mpr hk, rfl⟩
    have := position_lt hmem
    rw [List.length_append, hHlen, Nat.zero_add]
    omega)
  have hsub : sizeSub (interleave (H ++ xs)).length (xs.length / d.factor * d.factor * 2) =
      some ((H.length + xs.length - xs.length / d.factor * d.factor) * 2) := by
    rw [length_interleave, List.length_append, sizeSub, if_pos (by omega)]
    congr 1
    omega
  have hmin : min ((H.length + xs.length - xs.length / d.factor * d.factor) * 2) d.history.length =
      d.history.length := by
    rw [hH, length_interleave]
    omega
  refine ⟨keep A d (interleave xs) d.history.length le_rfl, ?_, rfl, rfl, ?_⟩
  · unfold process
    simp only [hout, hbuf, hloop, hsub, hmin, Option.bind_eq_bind, Option.bind_some, positions,
      List.map_map, Nat.zero_add, Function.comp_def]
  · have hdrop : (interleave (H ++ xs)).length - (interleave H).length = xs.length * 2 := by
      rw [length_interleave, length_interleave, List.length_append]
      omega
    simp only [keep, newHistory, hH, ← interleave_append, hdrop, Nat.sub_self, List.replicate_zero,
      List.nil_append, drop_interleave]

end Decimator

end VrxServer.Dsp
