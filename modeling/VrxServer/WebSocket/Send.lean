import VrxServer.WebSocket.Segmentation

/-! Frames as the client sends them.

`sendFrame` writes a single masked frame with the shortest length field that holds the
payload's length, and `sendAll` offers it to `send` until all of it is taken. What arrives
is one frame for the decoder of the read loop, with the payload unmasked
(`sendFrame_parsed`). -/
namespace VrxServer.WebSocket
open Base

/-- What `sendAll` has put on the wire, and whether it returned or threw. -/
structure Sent where
  wire : List UInt8
  returned : Bool

/-- The loop of `sendAll` from the byte `sent` on, for as many rounds as the fuel lasts.
`results k` is what the `k`-th call of `send` returns. -/
def sendLoop (data : List UInt8) (results : ℕ → ℤ) : ℕ → ℕ → ℕ → Option Sent
  | 0, _, _ => none
  | fuel + 1, k, sent =>
    if sent < data.length then
      let n := results k
      if n ≤ 0 then some ⟨[], false⟩
      else do
        let r ← sendLoop data results fuel (k + 1) (sent + n.toNat)
        some {r with wire := (data.drop sent).take n.toNat ++ r.wire}
    else some ⟨[], true⟩

def sendAll (data : List UInt8) (results : ℕ → ℤ) : Option Sent :=
  sendLoop data results (data.length + 1) 0 0

/-- The frame up to the mask key. -/
def sendHeader (opcode : UInt8) (len : ℕ) : List UInt8 :=
  (0x80 ||| (opcode &&& 0x0F)) ::
    if len < 126 then [UInt8.ofNat (0x80 ||| len)]
    else if len ≤ 0xFFFF then [0x80 ||| 126, UInt8.ofNat (len >>> 8 &&& 0xFF), UInt8.ofNat (len &&& 0xFF)]
    else (0x80 ||| 127) :: [7, 6, 5, 4, 3, 2, 1, 0].map fun i => UInt8.ofNat (len >>> (i * 8) &&& 0xFF)

/-- The payload loop, into a frame that has been given room for it. -/
def maskPayload (payload : List UInt8) (mask : Fin 4 → UInt8) (headerLen : ℕ) (frame : List UInt8) : List UInt8 :=
  (List.range payload.length).foldl
    (fun frame i => frame.set (headerLen + i) (payload.getD i 0 ^^^ mask (Fin.ofNat 4 i))) frame

/-- The frame `sendFrame` has built when it calls `sendAll`. -/
def frameBytes (opcode : UInt8) (payload : List UInt8) (mask : Fin 4 → UInt8) : List UInt8 :=
  let header := sendHeader opcode payload.length ++ List.ofFn mask
  maskPayload payload mask header.length (resize 0 header (header.length + payload.length))

def sendFrame (opcode : UInt8) (payload : List UInt8) (mask : Fin 4 → UInt8) (results : ℕ → ℤ) : Option Sent :=
  sendAll (frameBytes opcode payload mask) results

/-! ### All of the frame is sent -/

/-- **However `send` takes the bytes, what is sent is a prefix of them**, and all of them
exactly when `sendAll` returns. -/
theorem sendLoop_spec (data : List UInt8) (results : ℕ → ℤ) (fuel k sent : ℕ) (hfuel : data.length - sent < fuel) :
    ∃ r, sendLoop data results fuel k sent = some r ∧ r.wire <+: data.drop sent ∧
      (r.returned = true ↔ r.wire = data.drop sent) ∧ ((∀ i, 0 < results i) → r.returned = true) := by
  induction fuel generalizing k sent with
  | zero => exact absurd hfuel (Nat.not_lt_zero _)
  | succ fuel ih =>
    rw [sendLoop]
    by_cases hmore : sent < data.length
    · rw [if_pos hmore]
      by_cases hfail : results k ≤ 0
      · simp only [if_pos hfail]
        refine ⟨_, rfl, List.nil_prefix, ?_, fun hpos => absurd (hpos k) (by omega)⟩
        simp only [Bool.false_eq_true, false_iff]
        exact fun hnil => absurd (List.drop_eq_nil_iff.mp hnil.symm) (by omega)
      · simp only [if_neg hfail]
        obtain ⟨r, hr, hprefix, hall, hpos⟩ := ih (k + 1) (sent + (results k).toNat) (by omega)
        have hsplit := List.take_append_drop (results k).toNat (data.drop sent)
        rw [List.drop_drop] at hsplit
        rw [hr, Option.bind_eq_bind, Option.bind_some]
        refine ⟨_, rfl, ?_, ?_, hpos⟩
        · conv_rhs => rw [← hsplit]
          exact (List.prefix_append_right_inj _).mpr hprefix
        · rw [hall]
          conv_rhs => rhs; rw [← hsplit]
          exact (List.append_right_inj _).symm
    · rw [if_neg hmore, List.drop_eq_nil_of_le (by omega)]
      exact ⟨_, rfl, List.nil_prefix, by simp, fun _ => rfl⟩

theorem sendAll_positive (data : List UInt8) (results : ℕ → ℤ) (hpos : ∀ k, 0 < results k) :
    sendAll data results = some ⟨data, true⟩ := by
  obtain ⟨r, hr, -, hall, hreturned⟩ := sendLoop_spec data results (data.length + 1) 0 0 (by omega)
  obtain ⟨wire, returned⟩ := r
  obtain rfl : returned = true := hreturned hpos
  obtain rfl : wire = data := hall.mp rfl
  exact hr

/-! ### The frame is the one that is read -/

/-- How many bytes of length `sendFrame` writes behind the 7-bit one. -/
def lengthForm (len : ℕ) : ℕ := if len < 126 then 0 else if len ≤ 0xFFFF then 2 else 8

/-- The second byte has the mask bit, and says how many bytes of length follow. -/
theorem sendHeader_eq (opcode : UInt8) (len : ℕ) :
    ∃ b₁, sendHeader opcode len = (0x80 ||| (opcode &&& 0x0F)) :: b₁ :: natBytes (lengthForm len) len ∧
      (b₁ &&& 0x80 != 0) = true ∧ lengthBytes (b₁ &&& 0x7F).toNat = lengthForm len ∧
      (lengthForm len = 0 → (b₁ &&& 0x7F).toNat = len) := by
  unfold sendHeader lengthForm
  by_cases hshort : len < 126
  · simp only [if_pos hshort]
    have hbyte : ∀ n : Fin 126, (UInt8.ofNat (0x80 ||| n) &&& 0x80 != 0) = true ∧
        lengthBytes (UInt8.ofNat (0x80 ||| n) &&& 0x7F).toNat = 0 ∧
        (UInt8.ofNat (0x80 ||| n) &&& 0x7F).toNat = n := by
      decide
    obtain ⟨hmask, hform, hvalue⟩ := hbyte ⟨len, hshort⟩
    exact ⟨_, rfl, hmask, hform, fun _ => hvalue⟩
  · simp only [if_neg hshort]
    by_cases hmiddle : len ≤ 0xFFFF
    · simp only [if_pos hmiddle]
      refine ⟨0x80 ||| 126, ?_, by decide, by decide, by simp⟩
      rw [natBytes_eq_shifts]
      rfl
    · simp only [if_neg hmiddle]
      refine ⟨0x80 ||| 127, ?_, by decide, by decide, by simp⟩
      rw [natBytes_eq_shifts]
      rfl

theorem length_sendHeader (opcode : UInt8) (len : ℕ) : (sendHeader opcode len).length = 2 + lengthForm len := by
  obtain ⟨b₁, hheader, -⟩ := sendHeader_eq opcode len
  rw [hheader, List.length_cons, List.length_cons, length_natBytes]
  omega

theorem frameBytes_eq (opcode : UInt8) (payload : List UInt8) (mask : Fin 4 → UInt8) :
    frameBytes opcode payload mask = sendHeader opcode payload.length ++ List.ofFn mask ++
      (List.range payload.length).map fun i => payload.getD i 0 ^^^ mask (Fin.ofNat 4 i) := by
  rw [frameBytes, maskPayload, resize, List.take_of_length_le (Nat.le_add_right _ _), Nat.add_sub_cancel_left,
    foldl_set_range _ _ _ _ (by rw [List.length_replicate]), List.drop_eq_nil_of_le (by rw [List.length_replicate]),
    List.append_nil]

theorem length_frameBytes (opcode : UInt8) (payload : List UInt8) (mask : Fin 4 → UInt8) :
    (frameBytes opcode payload mask).length = 2 + lengthForm payload.length + 4 + payload.length := by
  rw [frameBytes_eq, List.length_append, List.length_append, length_sendHeader, List.length_ofFn, List.length_map,
    List.length_range]

theorem lengthForm_fits {len : ℕ} (h : len < 2 ^ 64) : len < 256 ^ lengthForm len ∨ lengthForm len = 0 := by
  rw [lengthForm]
  split
  · exact .inr rfl
  · split
    · exact .inl (by omega)
    · exact .inl (by omega)

/-- **The decoder reads the header that was written.** -/
theorem frameHeader_sendHeader (opcode : UInt8) (len : ℕ) (rest : List UInt8) (hop : opcode < 16) (hlen : len < 2 ^ 64) :
    frameHeader (sendHeader opcode len ++ rest) = some ⟨true, opcode, true, 2 + lengthForm len + 4, len⟩ := by
  obtain ⟨b₁, hheader, hmask, hform, hshort⟩ := sendHeader_eq opcode len
  have hfirst : ∀ o : Fin 16, (((0x80 ||| (UInt8.ofNat o &&& 0x0F)) &&& 0x80 != 0) = true) ∧
      (0x80 ||| (UInt8.ofNat o &&& 0x0F)) &&& 0x0F = UInt8.ofNat o := by
    decide
  obtain ⟨hfin, hopcode⟩ := hfirst ⟨opcode.toNat, hop⟩
  rw [UInt8.ofNat_toNat] at hfin hopcode
  have hroom : ¬ (sendHeader opcode len ++ rest).length < 2 + lengthForm len := by
    rw [List.length_append, length_sendHeader]
    omega
  have hfield : ((sendHeader opcode len ++ rest).drop 2).take (lengthForm len) = natBytes (lengthForm len) len := by
    rw [hheader]
    exact List.take_left' (length_natBytes _ _)
  have hget₀ : (sendHeader opcode len ++ rest).getD 0 0 = 0x80 ||| (opcode &&& 0x0F) := by
    rw [hheader]
    rfl
  have hget₁ : (sendHeader opcode len ++ rest).getD 1 0 = b₁ := by
    rw [hheader]
    rfl
  unfold frameHeader
  rw [if_neg (by omega)]
  simp only [hget₀, hget₁, hform, hfield, if_neg hroom, hfin, hopcode, hmask, if_true, Option.some.injEq,
    FrameHeader.mk.injEq, true_and]
  split
  · next hzero => exact hshort hzero
  · next hlong => exact bytesNat_natBytes _ _ ((lengthForm_fits hlen).resolve_right hlong)

/-- Masking twice with one key gives the payload back. -/
theorem readPayload_frameBytes (opcode : UInt8) (payload : List UInt8) (mask : Fin 4 → UInt8) (fin : Bool) :
    readPayload (frameBytes opcode payload mask)
      ⟨fin, opcode, true, 2 + lengthForm payload.length + 4, payload.length⟩ = payload := by
  have hheader := length_sendHeader opcode payload.length
  have hmask : (List.ofFn mask).length = 4 := List.length_ofFn
  refine List.ext_getElem (by rw [length_readPayload]) fun i _ hi => ?_
  have hkey : i % 4 < 4 := Nat.mod_lt _ (by decide)
  have hbyte : (frameBytes opcode payload mask)[2 + lengthForm payload.length + 4 + i]? =
      some (payload[i] ^^^ mask (Fin.ofNat 4 i)) := by
    have hfront : (sendHeader opcode payload.length ++ List.ofFn mask).length = 2 + lengthForm payload.length + 4 := by
      rw [List.length_append]
      omega
    rw [frameBytes_eq, ← hfront, List.getElem?_append_right (Nat.le_add_right _ _), Nat.add_sub_cancel_left]
    simp [hi]
  have hkeyByte : (frameBytes opcode payload mask)[2 + lengthForm payload.length + i % 4]? =
      some (mask (Fin.ofNat 4 i)) := by
    rw [frameBytes_eq, List.append_assoc, ← hheader, List.getElem?_append_right (Nat.le_add_right _ _),
      Nat.add_sub_cancel_left, List.getElem?_append_left (by omega), List.getElem?_ofFn, dif_pos hkey]
    rfl
  simp only [readPayload, List.getElem_map, List.getElem_range, if_true, List.getD_eq_getElem?_getD, Nat.add_sub_cancel,
    hbyte, hkeyByte, Option.getD_some]
  rw [UInt8.xor_assoc, UInt8.xor_self, UInt8.xor_zero]

/-- **A frame sent is a frame read**, by a decoder that takes all of it and nothing more. -/
theorem nextFrame_frameBytes (opcode : UInt8) (payload : List UInt8) (mask : Fin 4 → UInt8) (hop : opcode < 16)
    (hlen : payload.length < 2 ^ 63) :
    nextFrame (frameBytes opcode payload mask) =
      .item ⟨true, opcode, payload⟩ (frameBytes opcode payload mask).length := by
  have hheader : frameHeader (frameBytes opcode payload mask) =
      some ⟨true, opcode, true, 2 + lengthForm payload.length + 4, payload.length⟩ := by
    rw [frameBytes_eq, List.append_assoc]
    exact frameHeader_sendHeader opcode payload.length _ hop (by omega)
  have hwhole := length_frameBytes opcode payload mask
  refine nextFrame_item.mpr ⟨_, hheader, ?_, hwhole.ge, ?_, hwhole⟩
  · show payload.length ≤ 2 ^ 63 - 1
    omega
  · rw [readPayload_frameBytes]

theorem drain_frame {wire : List UInt8} {f : Frame} (h : nextFrame wire = .item f wire.length) :
    decoder.drain wire = ⟨[f], [], if f.opcode = 0x8 then some .last else none⟩ := by
  by_cases hclose : f.opcode = 0x8
  · rw [Decoder.drain_last h (by simp [decoder, hclose]), List.drop_length, if_pos hclose]
  · have hnil : decoder.drain [] = ⟨[], [], none⟩ := Decoder.drain_more rfl
    rw [Decoder.drain_item h (by simp [decoder, hclose]), List.drop_length, hnil, if_neg hclose]

/-- A payload length that was read fits its field. -/
theorem payloadLen_fits {buf : List UInt8} {h : FrameHeader} (hh : frameHeader buf = some h) :
    ∃ n, h.headerLen = 2 + n + (if h.masked = true then 4 else 0) ∧
      (n = 0 ∧ h.payloadLen < 126 ∨ n = 2 ∧ h.payloadLen < 256 ^ 2 ∨ n = 8) := by
  unfold frameHeader at hh
  split at hh
  · cases hh
  · simp only at hh
    split at hh
    · cases hh
    · obtain rfl := Option.some.inj hh
      have hsmall : (buf.getD 1 0 &&& 0x7F).toNat < 128 := by
        rw [UInt8.toNat_and]
        exact Nat.lt_succ_of_le Nat.and_le_right
      refine ⟨_, rfl, ?_⟩
      dsimp only
      by_cases hmiddle : (buf.getD 1 0 &&& 0x7F).toNat = 126
      · have hform : lengthBytes (buf.getD 1 0 &&& 0x7F).toNat = 2 := by rw [lengthBytes, if_pos hmiddle]
        rw [hform, if_neg (by decide)]
        refine .inr (.inl ⟨rfl, (bytesNat_lt _).trans_le (Nat.pow_le_pow_right (by decide) ?_)⟩)
        exact List.length_take_le _ _
      · by_cases hlong : (buf.getD 1 0 &&& 0x7F).toNat = 127
        · exact .inr (.inr (by rw [lengthBytes, if_neg hmiddle, if_pos hlong]))
        · have hform : lengthBytes (buf.getD 1 0 &&& 0x7F).toNat = 0 := by
            rw [lengthBytes, if_neg hmiddle, if_neg hlong]
          rw [hform, if_pos rfl]
          exact .inl ⟨rfl, by omega⟩

/-- **No masked header that says as much is shorter.** -/
theorem lengthForm_least {buf : List UInt8} {h : FrameHeader} (hh : frameHeader buf = some h)
    (hmask : h.masked = true) : 2 + lengthForm h.payloadLen + 4 ≤ h.headerLen := by
  obtain ⟨n, hlen, hfits⟩ := payloadLen_fits hh
  rw [hlen, if_pos hmask, lengthForm]
  split
  · omega
  · split <;> omega

/-- **What is sent is one frame for the read loop, however `send` takes it and the reads cut
it**: the same opcode and payload, all of the bytes, and no header would have been shorter. -/
theorem sendFrame_parsed (opcode : UInt8) (payload : List UInt8) (mask : Fin 4 → UInt8) (results : ℕ → ℤ)
    (hop : opcode < 16) (hlen : payload.length < 2 ^ 63) (hsend : ∀ k, 0 < results k) :
    ∃ wire, sendFrame opcode payload mask results = some ⟨wire, true⟩ ∧
      nextFrame wire = .item ⟨true, opcode, payload⟩ wire.length ∧
      (∀ chunks, chunks.flatten = wire → ∃ s, readFrames [] chunks = some s ∧
        s.frames = [⟨true, opcode, payload⟩] ∧ s.buf = [] ∧ s.halt ≠ some .fault) ∧
      ∀ buf h, frameHeader buf = some h → h.masked = true → h.payloadLen = payload.length →
        wire.length ≤ h.headerLen + h.payloadLen := by
  have hframe := nextFrame_frameBytes opcode payload mask hop hlen
  refine ⟨frameBytes opcode payload mask, sendAll_positive _ results hsend, hframe, ?_, ?_⟩
  · intro chunks hwire
    cases chunks with
    | nil =>
      have hempty := congrArg List.length hwire
      rw [length_frameBytes, List.flatten_nil, List.length_nil] at hempty
      omega
    | cons c cs =>
      obtain ⟨s, hs, hframes, hbuf, hhalt⟩ := readFrames_run [] (c :: cs)
      obtain ⟨unread, hdrain, -⟩ := ReadLoop.run_drain decoder [] c cs
      rw [List.nil_append, hwire, drain_frame hframe, Drained.mk.injEq] at hdrain
      obtain ⟨hitems, hrest, hstop⟩ := hdrain
      refine ⟨s, hs, hframes.trans hitems.symm, hbuf.trans (List.append_eq_nil_iff.mp hrest.symm).1, ?_⟩
      rw [hhalt, ← hstop]
      split <;> simp
  · intro buf h hh hmask hsame
    have hleast := lengthForm_least hh hmask
    rw [hsame] at hleast ⊢
    rw [length_frameBytes]
    omega

/-- 126 bytes of text, the first length of two bytes, taken a byte at a time. -/
theorem sendFrame_parsed_text :
    ∃ wire, sendFrame 0x1 (List.replicate 126 65) (fun i => UInt8.ofNat i) (fun _ => 1) = some ⟨wire, true⟩ ∧
      nextFrame wire = .item ⟨true, 0x1, List.replicate 126 65⟩ wire.length := by
  obtain ⟨wire, hsent, hframe, -⟩ :=
    sendFrame_parsed 0x1 (List.replicate 126 65) (fun i => UInt8.ofNat i) (fun _ => 1) (by decide)
      (by rw [List.length_replicate]; decide) (fun _ => by decide)
  exact ⟨wire, hsent, hframe⟩

end VrxServer.WebSocket
