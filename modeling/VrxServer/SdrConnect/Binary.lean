import VrxServer.SdrPlay.Stream

/-! The samples of the SDRconnect backend.

A binary message is a 16-bit type and, where that is the primary device's I/Q, 16-bit
samples, all least significant byte first. `handleBinaryMessage` computes every index in
`size_t`, and gives its callback what the local backend gives for the same samples where
that one's indices do not wrap (`backends_agree_iff`). -/
namespace VrxServer.SdrConnect
open Base SdrPlay

/-- `readLe16`, from `p` on. -/
def readLe16 (bytes : List UInt8) (p : ℕ) : Int16 :=
  ((bytes.getD p 0).toUInt16 ||| (bytes.getD (p + 1) 0).toUInt16 <<< 8).toInt16

/-- One round of the loop. -/
def storeBytes (iqBytes : List UInt8) (buf : List ℚ) (i : ℕ) : List ℚ :=
  (buf.set (i * 2) (toFloat (readLe16 iqBytes (i * 4)))).set (i * 2 + 1) (toFloat (readLe16 iqBytes (i * 4 + 2)))

def handleBinaryMessage (s : IqSource) (data : List UInt8) : Option IqCall × IqSource :=
  if data.length < 2 then (none, s)
  else
    let type := (data.getD 0 0).toUInt16 ||| (data.getD 1 0).toUInt16 <<< 8
    if type ≠ 2 then (none, s)
    else
      let iqBytes := data.drop 2
      let numSamples := (data.length - 2) / 4
      if numSamples = 0 then (none, s)
      else
        let s' := {s with
          sampleBuf := (List.range numSamples).foldl (storeBytes iqBytes) (resize 0 s.sampleBuf (numSamples * 2))}
        (s'.deliver numSamples, s')

/-! ### The format -/

/-- A 16-bit number as the server writes it. -/
def le16 (x : Int16) : List UInt8 := [x.toUInt16.toUInt8, (x.toUInt16 >>> 8).toUInt8]

/-- The I/Q of samples. -/
def sampleBytes (x : List RawSample) : List UInt8 := x.flatMap fun s => le16 s.1 ++ le16 s.2

/-- A message of them, with bytes behind that make no whole sample. -/
def iqMessage (x : List RawSample) (trailing : List UInt8) : List UInt8 := [2, 0] ++ (sampleBytes x ++ trailing)

/-- Two bytes shifted together are one numeral. -/
theorem word_toNat (low high : UInt8) :
    (low.toUInt16 ||| high.toUInt16 <<< 8).toNat = high.toNat * 256 + low.toNat := by
  have hlow := low.toNat_lt
  have hhigh := high.toNat_lt
  have hdigit := shift_or_digit high.toNat low.toNat 0 hlow
  rw [Nat.shiftLeft_zero, Nat.shiftLeft_zero, Nat.zero_add] at hdigit
  rw [UInt16.toNat_or, UInt16.toNat_shiftLeft, UInt8.toNat_toUInt16, UInt8.toNat_toUInt16, Nat.or_comm]
  simp only [UInt16.reduceToNat, Nat.reduceMod]
  rw [Nat.mod_eq_of_lt (by rw [Nat.shiftLeft_eq]; omega), hdigit]

theorem word_of_bytes (w : UInt16) : w.toUInt8.toUInt16 ||| (w >>> 8).toUInt8.toUInt16 <<< 8 = w := by
  have hw := w.toNat_lt
  apply UInt16.toNat_inj.mp
  rw [word_toNat, UInt16.toNat_toUInt8, UInt16.toNat_toUInt8, UInt16.toNat_shiftRight]
  simp only [UInt16.reduceToNat, Nat.reduceMod, Nat.shiftRight_eq_div_pow]
  omega

theorem readLe16_le16 (x : Int16) (rest : List UInt8) : readLe16 (le16 x ++ rest) 0 = x := by
  show (x.toUInt16.toUInt8.toUInt16 ||| (x.toUInt16 >>> 8).toUInt8.toUInt16 <<< 8).toInt16 = x
  rw [word_of_bytes, Int16.toInt16_toUInt16]

theorem length_sampleBytes (x : List RawSample) : (sampleBytes x).length = x.length * 4 := by
  induction x with
  | nil => rfl
  | cons s x ih =>
    rw [sampleBytes, List.flatMap_cons, List.length_append, ← sampleBytes, ih, List.length_cons]
    show 4 + x.length * 4 = _
    omega

theorem readLe16_skip (front rest : List UInt8) (p : ℕ) :
    readLe16 (front ++ rest) (front.length + p) = readLe16 rest p := by
  rw [readLe16, readLe16, List.getD_append_right _ _ _ _ (by omega), List.getD_append_right _ _ _ _ (by omega),
    Nat.add_sub_cancel_left, Nat.add_assoc, Nat.add_sub_cancel_left]

/-- What the `i`-th round writes. -/
def bytesAt (iqBytes : List UInt8) (i : ℕ) : ℚ × ℚ :=
  (toFloat (readLe16 iqBytes (i * 4)), toFloat (readLe16 iqBytes (i * 4 + 2)))

/-- **The loop reads the samples that were written.** -/
theorem map_bytesAt (x : List RawSample) (trailing : List UInt8) :
    (List.range x.length).map (bytesAt (sampleBytes x ++ trailing)) = floats x := by
  induction x with
  | nil => rfl
  | cons s x ih =>
    have hbytes : sampleBytes (s :: x) ++ trailing = le16 s.1 ++ (le16 s.2 ++ (sampleBytes x ++ trailing)) := by
      simp only [sampleBytes, List.flatMap_cons, List.append_assoc]
    have hfirst : bytesAt (sampleBytes (s :: x) ++ trailing) 0 = (toFloat s.1, toFloat s.2) := by
      have hsecond := readLe16_skip (le16 s.1) (le16 s.2 ++ (sampleBytes x ++ trailing)) 0
      rw [readLe16_le16] at hsecond
      rw [bytesAt, hbytes, Nat.zero_mul, readLe16_le16]
      exact congrArg (fun q => (toFloat s.1, toFloat q)) hsecond
    have hrest : bytesAt (sampleBytes (s :: x) ++ trailing) ∘ Nat.succ = bytesAt (sampleBytes x ++ trailing) := by
      funext i
      have hskip : ∀ p, readLe16 (sampleBytes (s :: x) ++ trailing) (4 + p) = readLe16 (sampleBytes x ++ trailing) p := by
        intro p
        rw [hbytes, ← List.append_assoc]
        exact readLe16_skip (le16 s.1 ++ le16 s.2) _ p
      have hnext : Nat.succ i * 4 = 4 + i * 4 := by omega
      rw [Function.comp_apply, bytesAt, bytesAt, hnext, hskip, Nat.add_assoc, hskip]
    rw [List.length_cons, List.range_succ_eq_map, List.map_cons, List.map_map, hfirst, hrest, ih]
    rfl

/-! ### What the callback is given -/

/-- **Whatever the buffer held, the callback is given the message's samples.** -/
theorem handleBinaryMessage_call {s : IqSource} (hcb : s.onIq = true) {x : List RawSample} (hx : x ≠ [])
    {trailing : List UInt8} (ht : trailing.length < 4) :
    (handleBinaryMessage s (iqMessage x trailing)).1 = some (callOf x) := by
  have hpos := List.length_pos_iff.mpr hx
  have hlen : (iqMessage x trailing).length = x.length * 4 + trailing.length + 2 := by
    simp only [iqMessage, List.length_append, length_sampleBytes, List.length_cons, List.length_nil]
    omega
  have hnum : ((iqMessage x trailing).length - 2) / 4 = x.length := by omega
  have hbytes : (iqMessage x trailing).drop 2 = sampleBytes x ++ trailing := rfl
  have htype : ((iqMessage x trailing).getD 0 0).toUInt16 ||| ((iqMessage x trailing).getD 1 0).toUInt16 <<< 8 = 2 := by
    show (2 : UInt8).toUInt16 ||| (0 : UInt8).toUInt16 <<< 8 = 2
    decide
  have hloop := foldl_set_interleave (resize 0 s.sampleBuf (x.length * 2)) (bytesAt (sampleBytes x ++ trailing)) x.length
    (by rw [length_resize])
  rw [map_bytesAt, List.drop_eq_nil_of_le (by rw [length_resize]), List.append_nil] at hloop
  have hstore : (List.range x.length).foldl (storeBytes (sampleBytes x ++ trailing))
      (resize 0 s.sampleBuf (x.length * 2)) = interleave (floats x) := hloop
  rw [handleBinaryMessage, if_neg (by omega)]
  simp only [htype, ne_eq, not_true, if_false, hnum, hbytes, hpos.ne', hstore, IqSource.deliver, hcb, if_true, callOf,
    Option.some.injEq, IqCall.mk.injEq, and_true]
  exact List.take_of_length_le (by rw [length_interleave, length_floats])

/-- **No other message makes a call**, or changes anything. -/
theorem handleBinaryMessage_other (s : IqSource) {data : List UInt8} (h : data.take 2 ≠ [2, 0] ∨ data.length < 6) :
    handleBinaryMessage s data = (none, s) := by
  rcases data with _ | ⟨a, _ | ⟨b, rest⟩⟩
  · rfl
  · rfl
  · rw [handleBinaryMessage, if_neg (by simp only [List.length_cons]; omega)]
    simp only [List.getD_cons_zero, List.getD_cons_succ]
    split
    · rfl
    · next htype =>
      have hsum := congrArg UInt16.toNat (not_not.mp htype)
      rw [word_toNat] at hsum
      have hlow := a.toNat_lt
      have htwo : (2 : UInt16).toNat = 2 := rfl
      have ha : a = 2 := UInt8.toNat_inj.mp (show a.toNat = 2 by omega)
      have hb : b = 0 := UInt8.toNat_inj.mp (show b.toNat = 0 by omega)
      obtain htake | hshort := h
      · exact absurd (by rw [ha, hb]; rfl) htake
      · simp only [List.length_cons] at hshort ⊢
        rw [if_pos (by omega)]

/-! ### The two backends, over a sequence of chunks -/

/-- What a backend calls back with, chunk after chunk. -/
def calls {α : Type} (handle : IqSource → α → Option IqCall × IqSource) : IqSource → List α → List (Option IqCall)
  | _, [] => []
  | s, a :: as => (handle s a).1 :: calls handle (handle s a).2 as

/-- The samples as the driver hands them over. -/
def streamChunk (s : IqSource) (x : List RawSample) : Option IqCall × IqSource :=
  handleStream s (x.map Prod.fst) (x.map Prod.snd) (UInt32.ofNat x.length)

/-- From fresh clients, both backends call back with every chunk's samples, and the one that
reads messages for no other message. -/
def BackendsAgree (chunks : List (List RawSample × List UInt8)) : Prop :=
  calls streamChunk .fresh (chunks.map Prod.fst) = chunks.map (fun c => some (callOf c.1)) ∧
    calls handleBinaryMessage .fresh (chunks.map fun c => iqMessage c.1 c.2) =
      chunks.map (fun c => some (callOf c.1)) ∧
    ∀ (s : IqSource) (data : List UInt8), data.take 2 ≠ [2, 0] ∨ data.length < 6 → (handleBinaryMessage s data).1 = none

theorem handleBinaryMessage_onIq (s : IqSource) (data : List UInt8) :
    (handleBinaryMessage s data).2.onIq = s.onIq := by
  unfold handleBinaryMessage
  split
  · rfl
  · dsimp only
    split
    · rfl
    · split <;> rfl

theorem binaryCalls_eq {s : IqSource} (hcb : s.onIq = true) (chunks : List (List RawSample × List UInt8))
    (h : ∀ c ∈ chunks, c.1 ≠ [] ∧ c.2.length < 4) :
    calls handleBinaryMessage s (chunks.map fun c => iqMessage c.1 c.2) = chunks.map fun c => some (callOf c.1) := by
  induction chunks generalizing s with
  | nil => rfl
  | cons c chunks ih =>
    obtain ⟨hx, ht⟩ := h c List.mem_cons_self
    rw [List.map_cons, calls, handleBinaryMessage_call hcb hx ht, List.map_cons,
      ih ((handleBinaryMessage_onIq s _).trans hcb) fun c hc => h c (List.mem_cons_of_mem _ hc)]

theorem streamCalls_iff {s : IqSource} (h : ZeroBeyond s.sampleBuf) (hcb : s.onIq = true)
    (xs : List (List RawSample)) :
    calls streamChunk s xs = xs.map (fun x => some (callOf x)) ↔ ∀ x ∈ xs, Unwrapped x := by
  induction xs generalizing s with
  | nil => exact iff_of_true rfl nofun
  | cons x xs ih =>
    obtain ⟨hzero, hkept⟩ := handleStream_keeps h (x.map Prod.fst) (x.map Prod.snd) (UInt32.ofNat x.length)
    rw [calls, List.map_cons, List.cons.injEq, List.forall_mem_cons]
    exact and_congr (handleStream_iff h hcb x) (ih hzero (hkept.trans hcb))

/-- **The backends deliver identical chunks exactly when no chunk has samples behind the reach
of 32-bit indices**, or only zeros there and where those wrap to. -/
theorem backends_agree_iff (chunks : List (List RawSample × List UInt8))
    (h : ∀ c ∈ chunks, c.1 ≠ [] ∧ c.2.length < 4) : BackendsAgree chunks ↔ ∀ c ∈ chunks, Unwrapped c.1 := by
  have hzero : ZeroBeyond IqSource.fresh.sampleBuf := nofun
  have hstream := streamCalls_iff hzero rfl (chunks.map Prod.fst)
  rw [List.map_map, List.forall_mem_map] at hstream
  have hother : ∀ (s : IqSource) (data : List UInt8), data.take 2 ≠ [2, 0] ∨ data.length < 6 →
      (handleBinaryMessage s data).1 = none := fun s _ hp => congrArg Prod.fst (handleBinaryMessage_other s hp)
  rw [← hstream, BackendsAgree]
  exact and_iff_left ⟨binaryCalls_eq rfl chunks h, hother⟩

/-- Two chunks, the shorter one second. -/
theorem backends_agree_shrinking : BackendsAgree [([(1, -2), (-32768, 32767)], [7]), ([(3, 4)], [])] := by
  refine (backends_agree_iff _ (by decide)).mpr ?_
  unfold Unwrapped
  decide

/-- 2^31 samples of silence, and one that is not. -/
def longChunk : List RawSample := List.replicate wrapAt (0, 0) ++ [(1, 0)]

/-- Its last sample is written over its first one. -/
theorem backends_disagree_long : ¬ ∀ chunks : List (List RawSample × List UInt8),
    (∀ c ∈ chunks, c.1 ≠ [] ∧ c.2.length < 4) → BackendsAgree chunks := by
  intro h
  have hlen : longChunk.length = wrapAt + 1 := by rw [longChunk, List.length_append, List.length_replicate]; rfl
  have hagree := (h [(longChunk, [])] (by simp [longChunk])).1
  have hzero : ZeroBeyond IqSource.fresh.sampleBuf := nofun
  have hwrapped := (streamCalls_iff hzero rfl [longChunk]).mp hagree longChunk List.mem_cons_self
  obtain ⟨-, htail, -⟩ := hwrapped
  rw [hlen, Nat.add_sub_cancel_left, longChunk, List.drop_left' List.length_replicate] at htail
  exact absurd htail (by decide)

end VrxServer.SdrConnect
