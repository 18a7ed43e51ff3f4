import VrxServer.Base.Bytes
import VrxServer.Base.Interleave
import Mathlib.Algebra.Field.Rat
import Mathlib.Data.List.GetD
import Mathlib.Tactic.NormNum

/-! The samples of the local backend.

The driver hands over two arrays of 16-bit samples, and `handleStream` interleaves them in
a scratch buffer that only grows. The buffer's size is computed in `size_t` and the indices
into it in `unsigned int`, so that from sample 2^31 on they begin again at the front
(`handleStream_call`). -/
namespace VrxServer.SdrPlay
open Base

/-- A 16-bit I and a 16-bit Q. -/
abbrev RawSample := Int16 × Int16

/-- What a backend keeps between two chunks. -/
structure IqSource where
  sampleBuf : List ℚ
  /-- Whether a callback has been set. -/
  onIq : Bool

def IqSource.fresh : IqSource := ⟨[], true⟩

/-- A call of `onIq_`, with the values it is given to read. -/
structure IqCall where
  samples : List ℚ
  numSamples : ℕ

/-- `onIq_(sampleBuf_.data(), numSamples)`, if there is a callback. -/
def IqSource.deliver (s : IqSource) (numSamples : ℕ) : Option IqCall :=
  if s.onIq then some ⟨s.sampleBuf.take (numSamples * 2), numSamples⟩ else none

/-- `static_cast<float>(x) / 32768.0f`, which is exact. -/
def toFloat (x : Int16) : ℚ := x.toInt / 32768

/-- One round of the loop, in 32-bit arithmetic. -/
def storeSample (xi xq : List Int16) (buf : List ℚ) (n : ℕ) : List ℚ :=
  let i := UInt32.ofNat n
  (buf.set (i * 2).toNat (toFloat (xi.getD i.toNat 0))).set (i * 2 + 1).toNat (toFloat (xq.getD i.toNat 0))

/-- The buffer with room for `needed` values. -/
def grow (buf : List ℚ) (needed : ℕ) : List ℚ := if buf.length < needed then resize 0 buf needed else buf

def handleStream (s : IqSource) (xi xq : List Int16) (numSamples : UInt32) : Option IqCall × IqSource :=
  let needed := numSamples.toNat * 2
  let s' := {s with sampleBuf := (List.range numSamples.toNat).foldl (storeSample xi xq) (grow s.sampleBuf needed)}
  (s'.deliver numSamples.toNat, s')

/-! ### The indices -/

/-- The first sample whose index does not fit 32 bits. -/
def wrapAt : ℕ := 2147483648

theorem index_toNat {n : ℕ} (h : n < 4294967296) :
    (UInt32.ofNat n).toNat = n ∧ (UInt32.ofNat n * 2).toNat = n * 2 % 4294967296 ∧
      (UInt32.ofNat n * 2 + 1).toNat = n * 2 % 4294967296 + 1 := by
  have hn : (UInt32.ofNat n).toNat = n := UInt32.toNat_ofNat_of_lt' h
  have hdouble : (UInt32.ofNat n * 2).toNat = n * 2 % 4294967296 := by
    rw [UInt32.toNat_mul, hn]
    rfl
  refine ⟨hn, hdouble, ?_⟩
  rw [UInt32.toNat_add, hdouble]
  have hone : (1 : UInt32).toNat = 1 := rfl
  omega

/-- What the `n`-th round writes. -/
def floatAt (xi xq : List Int16) (n : ℕ) : ℚ × ℚ := (toFloat (xi.getD n 0), toFloat (xq.getD n 0))

theorem storeSample_of_lt (xi xq : List Int16) (buf : List ℚ) {n : ℕ} (h : n < wrapAt) :
    storeSample xi xq buf n = (buf.set (n * 2) (floatAt xi xq n).1).set (n * 2 + 1) (floatAt xi xq n).2 := by
  rw [wrapAt] at h
  obtain ⟨hn, hre, him⟩ := index_toNat (n := n) (by omega)
  rw [Nat.mod_eq_of_lt (by omega)] at hre him
  simp only [storeSample, hn, hre, him, floatAt]

/-- From sample 2^31 on the indices begin again. -/
theorem storeSample_wrap (xi xq : List Int16) (buf : List ℚ) {n : ℕ} (h : n < wrapAt) :
    storeSample xi xq buf (wrapAt + n) =
      (buf.set (n * 2) (floatAt xi xq (wrapAt + n)).1).set (n * 2 + 1) (floatAt xi xq (wrapAt + n)).2 := by
  rw [wrapAt] at h ⊢
  obtain ⟨hn, hre, him⟩ := index_toNat (n := 2147483648 + n) (by omega)
  have hmod : (2147483648 + n) * 2 % 4294967296 = n * 2 := by omega
  rw [hmod] at hre him
  simp only [storeSample, hn, hre, him, floatAt]

/-! ### The loop -/

/-- The samples as the callback should see them. -/
def floats (x : List RawSample) : List (ℚ × ℚ) := x.map fun s => (toFloat s.1, toFloat s.2)

@[simp] theorem length_floats (x : List RawSample) : (floats x).length = x.length := List.length_map _

/-- What `n` rounds write, from sample `start` on. -/
theorem map_floatAt (x : List RawSample) (start n : ℕ) (h : start + n ≤ x.length) :
    (List.range n).map (fun i => floatAt (x.map Prod.fst) (x.map Prod.snd) (start + i)) =
      floats ((x.drop start).take n) := by
  refine List.ext_getElem ?_ fun i hi _ => ?_
  · rw [List.length_map, List.length_range, length_floats, List.length_take, List.length_drop]
    omega
  · rw [List.length_map, List.length_range] at hi
    have hin : start + i < x.length := by omega
    simp only [List.getElem_map, List.getElem_range, floats, floatAt, List.getElem_take, List.getElem_drop]
    rw [List.getD_eq_getElem _ _ (by rwa [List.length_map]), List.getD_eq_getElem _ _ (by rwa [List.length_map]),
      List.getElem_map, List.getElem_map]

/-- **The loop writes the first 2^31 samples, and then the others over them.** -/
theorem streamLoop_eq (x : List RawSample) (hx : x.length < 4294967296) (buf : List ℚ)
    (hbuf : x.length * 2 ≤ buf.length) :
    (List.range x.length).foldl (storeSample (x.map Prod.fst) (x.map Prod.snd)) buf =
      interleave (floats (x.drop wrapAt)) ++
        (interleave (floats (x.take wrapAt)) ++ buf.drop ((x.take wrapAt).length * 2)).drop
          ((x.drop wrapAt).length * 2) := by
  have hsplit : x.length = (x.take wrapAt).length + (x.drop wrapAt).length := by
    rw [← List.length_append, List.take_append_drop]
  have hhead : (x.take wrapAt).length ≤ wrapAt := List.length_take_le _ _
  have htail : (x.drop wrapAt).length ≤ wrapAt := by
    rw [List.length_drop, wrapAt]
    omega
  have hwrap : 0 < (x.drop wrapAt).length → (x.take wrapAt).length = wrapAt := by
    intro hpos
    rw [List.length_drop] at hpos
    exact List.length_take_of_le (by omega)
  have hfirst : (List.range (x.take wrapAt).length).foldl (storeSample (x.map Prod.fst) (x.map Prod.snd)) buf =
      interleave (floats (x.take wrapAt)) ++ buf.drop ((x.take wrapAt).length * 2) := by
    have hvalues := map_floatAt x 0 (x.take wrapAt).length (by omega)
    have htake : x.take (x.take wrapAt).length = x.take wrapAt := by rw [List.length_take, ← List.take_eq_take_min]
    simp only [Nat.zero_add, List.drop_zero, htake] at hvalues
    have hloop := foldl_set_interleave buf (floatAt (x.map Prod.fst) (x.map Prod.snd)) (x.take wrapAt).length (by omega)
    rw [hvalues] at hloop
    rw [← hloop]
    exact List.foldl_ext _ _ buf fun buf n hn =>
      storeSample_of_lt _ _ buf ((List.mem_range.mp hn).trans_le hhead)
  have hsecond : ∀ buf : List ℚ, (x.drop wrapAt).length * 2 ≤ buf.length →
      (List.range (x.drop wrapAt).length).foldl
          (fun buf n => storeSample (x.map Prod.fst) (x.map Prod.snd) buf ((x.take wrapAt).length + n)) buf =
        interleave (floats (x.drop wrapAt)) ++ buf.drop ((x.drop wrapAt).length * 2) := by
    intro buf hbuf
    rcases Nat.eq_zero_or_pos (x.drop wrapAt).length with hnone | hsome
    · rw [hnone, List.eq_nil_of_length_eq_zero hnone]
      rfl
    · have hfull := hwrap hsome
      have hvalues := map_floatAt x wrapAt (x.drop wrapAt).length (by omega)
      rw [List.take_length] at hvalues
      have hloop := foldl_set_interleave buf (fun i => floatAt (x.map Prod.fst) (x.map Prod.snd) (wrapAt + i))
        (x.drop wrapAt).length hbuf
      rw [hvalues] at hloop
      rw [← hloop, hfull]
      exact List.foldl_ext _ _ buf fun buf n hn =>
        storeSample_wrap _ _ buf ((List.mem_range.mp hn).trans_le htail)
  rw [hsplit, List.range_add, List.foldl_append, List.foldl_map, hfirst]
  refine hsecond _ ?_
  rw [List.length_append, length_interleave, length_floats, List.length_drop (l := buf)]
  omega

/-! ### What the callback is given -/

/-- Behind the indices' reach the buffer is as `resize` made it. -/
def ZeroBeyond (buf : List ℚ) : Prop := ∀ j, wrapAt * 2 ≤ j → ∀ v, buf[j]? = some v → v = 0

theorem length_grow (buf : List ℚ) (needed : ℕ) : needed ≤ (grow buf needed).length := by
  unfold grow
  split
  · rw [length_resize]
  · omega

theorem ZeroBeyond.grow {buf : List ℚ} (h : ZeroBeyond buf) (needed : ℕ) : ZeroBeyond (grow buf needed) := by
  unfold SdrPlay.grow
  split
  · intro j hj v hv
    rw [resize, List.take_of_length_le (by omega)] at hv
    rcases Nat.lt_or_ge j buf.length with hin | hout
    · rw [List.getElem?_append_left hin] at hv
      exact h j hj v hv
    · rw [List.getElem?_append_right hout] at hv
      exact List.eq_of_mem_replicate (List.mem_of_getElem? hv)
  · exact h

theorem ZeroBeyond.storeSample {buf : List ℚ} (h : ZeroBeyond buf) (xi xq : List Int16) {n : ℕ} (hn : n < 4294967296) :
    ZeroBeyond (storeSample xi xq buf n) := by
  obtain ⟨-, hre, him⟩ := index_toNat hn
  intro j hj v hv
  rw [wrapAt] at hj
  simp only [SdrPlay.storeSample, hre, him] at hv
  rw [List.getElem?_set_ne (by omega), List.getElem?_set_ne (by omega)] at hv
  exact h j hj v hv

theorem ZeroBeyond.loop {buf : List ℚ} (h : ZeroBeyond buf) (xi xq : List Int16) {n : ℕ} (hn : n ≤ 4294967296) :
    ZeroBeyond ((List.range n).foldl (SdrPlay.storeSample xi xq) buf) := by
  induction n with
  | zero => exact h
  | succ n ih =>
    rw [List.range_succ, List.foldl_append]
    exact (ih (by omega)).storeSample xi xq (by omega)

/-- What the samples are, up to the first index that wraps and from there on. -/
def Unwrapped (x : List RawSample) : Prop :=
  x.length < 4294967296 ∧ x.drop wrapAt = List.replicate (x.length - wrapAt) (0, 0) ∧
    x.take (x.length - wrapAt) = List.replicate (x.length - wrapAt) (0, 0)

/-- The call the samples are meant to make. -/
def callOf (x : List RawSample) : IqCall := ⟨interleave (floats x), x.length⟩

theorem floats_inj {x y : List RawSample} : floats x = floats y ↔ x = y := by
  refine ⟨fun h => ?_, congrArg floats⟩
  refine List.map_injective_iff.mpr ?_ h
  intro a b hab
  obtain ⟨hi, hq⟩ := Prod.mk.inj hab
  have hcast : ∀ {m n : Int16}, toFloat m = toFloat n → m = n := by
    intro m n hmn
    have hrat : (m.toInt : ℚ) = n.toInt := (div_left_inj' (by norm_num)).mp hmn
    exact Int16.toInt_inj.mp (Int.cast_injective hrat)
  exact Prod.ext (hcast hi) (hcast hq)

theorem floats_append (x y : List RawSample) : floats (x ++ y) = floats x ++ floats y := List.map_append

theorem floats_drop (x : List RawSample) (n : ℕ) : floats (x.drop n) = (floats x).drop n := List.map_drop

theorem floats_zero (n : ℕ) : floats (List.replicate n (0, 0)) = List.replicate n (0, 0) := by
  have hzero : toFloat 0 = 0 := zero_div 32768
  rw [floats, List.map_replicate, hzero]

/-- The part of the buffer behind the samples that fit: zeros, up to what the callback reads. -/
theorem ZeroBeyond.take_drop {buf : List ℚ} (h : ZeroBeyond buf) {t : ℕ} (hlen : (wrapAt + t) * 2 ≤ buf.length) :
    (buf.drop (wrapAt * 2)).take (t * 2) = interleave (List.replicate t (0, 0)) := by
  rw [interleave_replicate]
  refine List.eq_replicate_iff.mpr ⟨?_, fun v hv => ?_⟩
  · rw [List.length_take, List.length_drop]
    omega
  · obtain ⟨j, hj⟩ := List.getElem?_of_mem (List.mem_of_mem_take hv)
    rw [List.getElem?_drop] at hj
    exact h _ (Nat.le_add_right _ _) v hj

/-- **Of more than 2^31 samples the callback is given the last ones first, and zeros last.** -/
theorem handleStream_call {s : IqSource} (h : ZeroBeyond s.sampleBuf) (hcb : s.onIq = true) (x : List RawSample)
    (hx : x.length < 4294967296) :
    (handleStream s (x.map Prod.fst) (x.map Prod.snd) (UInt32.ofNat x.length)).1 =
      some ⟨interleave (floats (x.drop wrapAt ++ (x.take wrapAt).drop (x.length - wrapAt) ++
        List.replicate (x.length - wrapAt) (0, 0))), x.length⟩ := by
  have hn : (UInt32.ofNat x.length).toNat = x.length := (index_toNat hx).1
  have hroom := length_grow s.sampleBuf (x.length * 2)
  have hzero := h.grow (x.length * 2)
  have hloop := streamLoop_eq x hx (grow s.sampleBuf (x.length * 2)) hroom
  simp only [handleStream, IqSource.deliver, hcb, hn, hloop, if_true, Option.some.injEq, IqCall.mk.injEq, and_true]
  have htail : (x.drop wrapAt).length = x.length - wrapAt := List.length_drop
  have hsplit : x.length = (x.take wrapAt).length + (x.length - wrapAt) := by
    rw [List.length_take]
    omega
  have hle : x.length - wrapAt ≤ (x.take wrapAt).length := by
    rw [List.length_take]
    rw [wrapAt] at *
    omega
  generalize grow s.sampleBuf (x.length * 2) = buf at *
  have hrest : (buf.drop ((x.take wrapAt).length * 2)).take ((x.length - wrapAt) * 2) =
      interleave (List.replicate (x.length - wrapAt) (0, 0)) := by
    rcases Nat.eq_zero_or_pos (x.length - wrapAt) with hnone | hsome
    · rw [hnone]
      rfl
    · have hfull : (x.take wrapAt).length = wrapAt := List.length_take_of_le (by omega)
      rw [hfull]
      exact hzero.take_drop (by omega)
  have hfront : (floats (x.drop wrapAt) ++ (floats (x.take wrapAt)).drop (x.length - wrapAt)).length =
      (x.take wrapAt).length := by
    rw [List.length_append, List.length_drop, length_floats, length_floats]
    omega
  rw [htail, List.drop_append_of_le_length (by rw [length_interleave, length_floats]; omega), drop_interleave,
    ← List.append_assoc, ← interleave_append, List.take_append, length_interleave, hfront]
  rw [List.take_of_length_le (by rw [length_interleave, hfront]; omega)]
  have hmore : x.length * 2 - (x.take wrapAt).length * 2 = (x.length - wrapAt) * 2 := by omega
  rw [hmore, hrest, ← interleave_append, ← floats_drop, floats_append, floats_append, floats_zero]

/-- What stands last instead of first, with other values last, stands right when all are those. -/
theorem swap_ends_iff {α : Type} {first middle last other : List α} (h : last.length = first.length) :
    last ++ middle ++ other = first ++ middle ++ last ↔ last = other ∧ first = other := by
  constructor
  · intro heq
    rw [List.append_assoc, List.append_assoc] at heq
    obtain ⟨rfl, hrest⟩ := List.append_inj heq h
    obtain rfl := List.append_cancel_left hrest
    exact ⟨rfl, rfl⟩
  · intro hp
    obtain ⟨rfl, rfl⟩ := hp
    rfl

/-- **The callback is given the samples exactly when there are at most 2^31, or those whose
indices wrap, and those they are written over, are all zero.** -/
theorem handleStream_iff {s : IqSource} (h : ZeroBeyond s.sampleBuf) (hcb : s.onIq = true) (x : List RawSample) :
    (handleStream s (x.map Prod.fst) (x.map Prod.snd) (UInt32.ofNat x.length)).1 = some (callOf x) ↔ Unwrapped x := by
  rcases Nat.lt_or_ge x.length 4294967296 with hx | hx
  · rw [handleStream_call h hcb x hx, Unwrapped, callOf, Option.some.injEq, IqCall.mk.injEq, and_iff_left rfl,
      interleave_injective.eq_iff, floats_inj, and_iff_right hx]
    have hle : x.length - wrapAt ≤ wrapAt := by
      rw [wrapAt]
      omega
    have hfirst : (x.take wrapAt).take (x.length - wrapAt) = x.take (x.length - wrapAt) := by
      rw [List.take_take, Nat.min_eq_left hle]
    have hparts : x.take (x.length - wrapAt) ++ (x.take wrapAt).drop (x.length - wrapAt) ++ x.drop wrapAt = x := by
      rw [← hfirst, List.take_append_drop, List.take_append_drop]
    have hsame : (x.drop wrapAt).length = (x.take (x.length - wrapAt)).length := by
      rw [List.length_drop, List.length_take]
      omega
    conv_lhs => rhs; rw [← hparts]
    exact swap_ends_iff hsame
  · refine iff_of_false ?_ fun hp => absurd hp.1 (by omega)
    intro hcall
    simp only [handleStream, IqSource.deliver, hcb, if_true, Option.some.injEq, callOf, IqCall.mk.injEq] at hcall
    have hcount := (UInt32.ofNat x.length).toNat_lt
    omega

/-- What one call leaves the next: a callback, and zeros where no index reaches. -/
theorem handleStream_keeps {s : IqSource} (h : ZeroBeyond s.sampleBuf) (xi xq : List Int16) (numSamples : UInt32) :
    ZeroBeyond (handleStream s xi xq numSamples).2.sampleBuf ∧ (handleStream s xi xq numSamples).2.onIq = s.onIq :=
  ⟨(h.grow _).loop xi xq numSamples.toNat_lt.le, rfl⟩

end VrxServer.SdrPlay
