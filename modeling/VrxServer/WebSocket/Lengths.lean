import VrxServer.Base.Loops
import VrxServer.WebSocket.Handshake

/-! Frame lengths in 64-bit arithmetic.

`scanFrames` is the inner loop with the source's offset into the buffer, every read of the
buffer checked, and with a record of what the completeness check let through. The check
adds header and payload length modulo 2^64, so that a declared length just below 2^64
passes as one of a few bytes; the vector for the payload then throws, on the read thread.
`lengths_safe_iff` says for which streams that does not happen. -/
namespace VrxServer.WebSocket
open Base

/-- What the completeness check compared when it let a frame through. -/
structure PassedCheck where
  bufSize : ℕ
  offset : ℕ
  headerLen : ℕ
  payloadLen : ℕ

/-- The frame is in the buffer. -/
def PassedCheck.InBounds (c : PassedCheck) : Prop := c.offset + c.headerLen + c.payloadLen ≤ c.bufSize

/-- The payload loop, with the indices the source computes. -/
def readPayloadAt (buf : List UInt8) (offset : ℕ) (h : FrameHeader) : Option (List UInt8) :=
  (List.range h.payloadLen).mapM fun i => do
    let b ← buf[offset + h.headerLen + i]?
    if h.masked then do
      let k ← buf[offset + h.headerLen - 4 + i % 4]?
      some (b ^^^ k)
    else some (b ^^^ 0)

/-- What one pass over the buffer has made of it. -/
structure FrameScan where
  frames : List Frame
  passed : List PassedCheck
  offset : ℕ
  halt : Option Halt

/-- The inner loop, from `offset` on, for as many rounds as the fuel lasts. `none`: an unsigned
subtraction wraps, or a read leaves the buffer. -/
def scanFrames (buf : List UInt8) : ℕ → ℕ → Option FrameScan
  | 0, _ => none
  | fuel + 1, offset =>
    if buf.length < offset then none
    else
      match frameHeader (buf.drop offset) with
      | none => some ⟨[], [], offset, none⟩
      | some h =>
        if buf.length - offset < (h.headerLen + h.payloadLen) % 2 ^ 64 then some ⟨[], [], offset, none⟩
        else
          let check : PassedCheck := ⟨buf.length, offset, h.headerLen, h.payloadLen⟩
          -- the payload's vector throws
          if maxSize < h.payloadLen then some ⟨[], [check], offset, some .fault⟩
          else do
            let payload ← readPayloadAt buf offset h
            let f : Frame := ⟨h.fin, h.opcode, payload⟩
            let next := offset + (h.headerLen + h.payloadLen)
            if f.opcode == 0x8 then some ⟨[f], [check], next, some .last⟩
            else do
              let r ← scanFrames buf fuel next
              some {r with frames := f :: r.frames, passed := check :: r.passed}

/-- The read loop between two reads. -/
structure FrameLoop where
  frames : List Frame
  passed : List PassedCheck
  buf : List UInt8
  halt : Option Halt

/-- One `recv` that returned `chunk`. A loop that is over receives nothing. -/
def FrameLoop.recv (s : FrameLoop) (chunk : List UInt8) : Option FrameLoop :=
  match s.halt with
  | some _ => some s
  | none => do
    let buf := s.buf ++ chunk
    let r ← scanFrames buf (buf.length + 1) 0
    some ⟨s.frames ++ r.frames, s.passed ++ r.passed, buf.drop r.offset, r.halt⟩

/-- The read loop on what `connect` saved and the reads that return bytes. -/
def readFrames (pendingBytes : List UInt8) (chunks : List (List UInt8)) : Option FrameLoop :=
  chunks.foldlM FrameLoop.recv ⟨[], [], pendingBytes, none⟩

/-! ### The pass is the decoder's -/

theorem readPayloadAt_eq {buf : List UInt8} {offset : ℕ} {h : FrameHeader}
    (hmask : h.masked = true → 4 ≤ h.headerLen) (hlen : offset + (h.headerLen + h.payloadLen) ≤ buf.length) :
    readPayloadAt buf offset h = some (readPayload (buf.drop offset) h) := by
  refine mapM_eq_map fun i hi => ?_
  rw [List.mem_range] at hi
  have hget : ∀ j, offset + j < buf.length → buf[offset + j]? = some ((buf.drop offset).getD j 0) := by
    intro j hj
    rw [List.getD_eq_getElem?_getD, List.getElem?_drop, List.getElem?_eq_getElem hj]
    rfl
  rw [Nat.add_assoc, hget _ (by omega)]
  cases hm : h.masked with
  | false => rfl
  | true =>
    have := hmask hm
    have hkey := hget (h.headerLen - 4 + i % 4) (by omega)
    rw [← Nat.add_assoc, ← Nat.add_sub_assoc this] at hkey
    simp only [Option.bind_eq_bind, Option.bind_some, if_true, hkey]

/-- The vector has thrown over a frame that is not in the buffer. -/
def Overrun (r : Drained UInt8 Frame) : Prop :=
  r.halt = some .fault ∧ ∃ h, frameHeader r.rest = some h ∧ r.rest.length < h.headerLen + h.payloadLen

/-- A pass from `offset` on is what the decoder makes of the bytes there, and lets nothing
through that is not in the buffer unless the decoder overruns. -/
structure FrameScan.Agrees (buf : List UInt8) (offset : ℕ) (r : FrameScan) : Prop where
  offset_le : r.offset ≤ buf.length
  drain_eq : decoder.drain (buf.drop offset) = ⟨r.frames, buf.drop r.offset, r.halt⟩
  inBounds_iff : (∀ c ∈ r.passed, c.InBounds) ↔ ¬ Overrun (decoder.drain (buf.drop offset))

namespace FrameScan.Agrees
variable {buf : List UInt8} {offset : ℕ}

theorem more (hoffset : offset ≤ buf.length) (hn : decoder.next (buf.drop offset) = .more) :
    Agrees buf offset ⟨[], [], offset, none⟩ := by
  have hdrain := Decoder.drain_more hn
  refine ⟨hoffset, hdrain, iff_of_true (by simp) ?_⟩
  simp [hdrain, Overrun]

theorem fault (hoffset : offset ≤ buf.length) (hn : decoder.next (buf.drop offset) = .fault) {h : FrameHeader}
    (hh : frameHeader (buf.drop offset) = some h) :
    Agrees buf offset ⟨[], [⟨buf.length, offset, h.headerLen, h.payloadLen⟩], offset, some .fault⟩ := by
  have hdrain := Decoder.drain_fault hn
  refine ⟨hoffset, hdrain, ?_⟩
  rw [hdrain]
  simp only [List.mem_singleton, forall_eq, PassedCheck.InBounds, Overrun, true_and, hh, Option.some.injEq,
    exists_eq_left', List.length_drop]
  omega

theorem last {f : Frame} {n : ℕ} (hn : decoder.next (buf.drop offset) = .item f n) (hclose : (f.opcode == 0x8) = true)
    (hwhole : offset + n ≤ buf.length) {check : PassedCheck} (hok : check.InBounds) :
    Agrees buf offset ⟨[f], [check], offset + n, some .last⟩ := by
  have hdrain := Decoder.drain_last hn hclose
  rw [List.drop_drop] at hdrain
  refine ⟨hwhole, hdrain, iff_of_true (by simpa using hok) ?_⟩
  simp [hdrain, Overrun]

theorem item {f : Frame} {n : ℕ} (hn : decoder.next (buf.drop offset) = .item f n) (hopen : (f.opcode == 0x8) = false)
    {check : PassedCheck} (hok : check.InBounds) {r : FrameScan} (hr : Agrees buf (offset + n) r) :
    Agrees buf offset {r with frames := f :: r.frames, passed := check :: r.passed} := by
  have hdrain := Decoder.drain_item hn hopen
  rw [List.drop_drop] at hdrain
  have hpassed := hr.inBounds_iff
  rw [hr.drain_eq] at hdrain hpassed
  refine ⟨hr.offset_le, hdrain, ?_⟩
  rw [List.forall_mem_cons, hpassed, hdrain]
  exact and_iff_right hok

end FrameScan.Agrees

theorem scanFrames_eq (buf : List UInt8) (fuel offset : ℕ) (hoffset : offset ≤ buf.length)
    (hfuel : buf.length - offset < fuel) : ∃ r, scanFrames buf fuel offset = some r ∧ r.Agrees buf offset := by
  induction fuel generalizing offset with
  | zero => exact absurd hfuel (Nat.not_lt_zero _)
  | succ fuel ih =>
    rw [scanFrames, if_neg (Nat.not_lt.mpr hoffset)]
    cases hh : frameHeader (buf.drop offset) with
    | none =>
      have hmore : decoder.next (buf.drop offset) = .more := by
        show nextFrame _ = _
        simp only [nextFrame, hh]
      exact ⟨_, rfl, .more hoffset hmore⟩
    | some h =>
      obtain ⟨-, hlow, hhigh, hmask⟩ := frameHeader_bounds hh
      have hnext : decoder.next (buf.drop offset) = nextFrame (buf.drop offset) := rfl
      simp only [nextFrame, hh, List.length_drop] at hnext
      by_cases hwait : buf.length - offset < (h.headerLen + h.payloadLen) % 2 ^ 64
      · rw [if_pos hwait] at hnext
        simp only [if_pos hwait]
        exact ⟨_, rfl, .more hoffset hnext⟩
      · rw [if_neg hwait] at hnext
        simp only [if_neg hwait]
        by_cases hmax : maxSize < h.payloadLen
        · rw [if_pos hmax] at hnext
          simp only [if_pos hmax]
          exact ⟨_, rfl, .fault hoffset hnext hh⟩
        · rw [if_neg hmax] at hnext
          simp only [if_neg hmax]
          -- A payload that a vector can hold does not wrap the sum.
          have hwhole : offset + (h.headerLen + h.payloadLen) ≤ buf.length := by
            rw [maxSize] at hmax
            rw [Nat.mod_eq_of_lt (by omega)] at hwait
            omega
          have hok : PassedCheck.InBounds ⟨buf.length, offset, h.headerLen, h.payloadLen⟩ := by
            show offset + h.headerLen + h.payloadLen ≤ buf.length
            omega
          rw [readPayloadAt_eq hmask hwhole, Option.bind_eq_bind, Option.bind_some]
          by_cases hclose : (h.opcode == 0x8) = true
          · rw [if_pos hclose]
            exact ⟨_, rfl, .last hnext hclose hwhole hok⟩
          · rw [if_neg hclose]
            obtain ⟨r, hr, hagrees⟩ := ih (offset + (h.headerLen + h.payloadLen)) hwhole (by omega)
            rw [hr, Option.bind_eq_bind, Option.bind_some]
            exact ⟨_, rfl, .item hnext (Bool.eq_false_of_not_eq_true hclose) hok hagrees⟩

/-! ### The loop is the decoder's -/

/-- Bytes that arrive when the loop is over change nothing about how it ended. -/
theorem overrun_append {x y : List UInt8} (hover : (decoder.drain x).halt ≠ none)
    (h : Overrun (decoder.drain (x ++ y))) : Overrun (decoder.drain x) := by
  obtain ⟨hhalt, hd, hh, hlen⟩ := h
  rw [Decoder.drain_append, Decoder.resume] at hhalt hh hlen
  cases hx : (decoder.drain x).halt with
  | none => exact absurd hx hover
  | some halt =>
    simp only [hx] at hhalt hh hlen
    obtain ⟨hd', hh', -⟩ := nextFrame_fault.mp ((decoder.next_rest_cases x).2 (hx.trans hhalt))
    rw [frameHeader_append y hh'] at hh
    obtain rfl := Option.some.inj hh
    rw [List.length_append] at hlen
    exact ⟨hx.trans hhalt, hd', hh', by omega⟩

/-- Bytes that arrive while the loop waits do what they would have done at once. -/
theorem overrun_rest {x : List UInt8} (hwaits : (decoder.drain x).halt = none) (y : List UInt8) :
    Overrun (decoder.drain (x ++ y)) ↔ Overrun (decoder.drain ((decoder.drain x).rest ++ y)) := by
  rw [Decoder.drain_append, Decoder.resume, hwaits]
  rfl

theorem FrameLoop.recv_halted {s : FrameLoop} {halt : Halt} (hs : s.halt = some halt) (chunk : List UInt8) :
    s.recv chunk = some s := by
  simp only [FrameLoop.recv, hs]

theorem forall_prefix_cons {α : Type} {P : List α → Prop} {x : α} {xs : List α} :
    (∀ done, done <+: x :: xs → done ≠ [] → P done) ↔
      P [x] ∧ ∀ done, done <+: xs → done ≠ [] → P (x :: done) := by
  constructor
  · intro h
    refine ⟨h [x] (by simp) (by simp), fun done hd _ => ?_⟩
    exact h (x :: done) ((List.prefix_cons_inj x).mpr hd) (by simp)
  · intro h done hd hne
    obtain ⟨hone, hmore⟩ := h
    cases done with
    | nil => exact absurd rfl hne
    | cons y done =>
      obtain ⟨rfl, htail⟩ := List.cons_prefix_cons.mp hd
      cases done with
      | nil => exact hone
      | cons z done => exact hmore (z :: done) htail (by simp)

/-- What the loop lets through is in the buffer as long as none of its reads overruns. -/
theorem foldlM_recv_inBounds (frames : List Frame) (passed : List PassedCheck) (buf : List UInt8)
    (chunks : List (List UInt8)) :
    ∃ s, chunks.foldlM FrameLoop.recv ⟨frames, passed, buf, none⟩ = some s ∧
      ((∀ c ∈ s.passed, c.InBounds) ↔ (∀ c ∈ passed, c.InBounds) ∧
        ∀ done, done <+: chunks → done ≠ [] → ¬ Overrun (decoder.drain (buf ++ done.flatten))) := by
  induction chunks generalizing frames passed buf with
  | nil =>
    refine ⟨_, rfl, (and_iff_left ?_).symm⟩
    intro done hd hne
    exact absurd (List.prefix_nil.mp hd) hne
  | cons chunk chunks ih =>
    obtain ⟨r, hscan, -, hdrain, hpassed⟩ :=
      scanFrames_eq (buf ++ chunk) ((buf ++ chunk).length + 1) 0 (Nat.zero_le _) (by omega)
    rw [List.drop_zero] at hdrain hpassed
    have hrecv : FrameLoop.recv ⟨frames, passed, buf, none⟩ chunk =
        some ⟨frames ++ r.frames, passed ++ r.passed, (buf ++ chunk).drop r.offset, r.halt⟩ := by
      simp only [FrameLoop.recv, hscan, Option.bind_eq_bind, Option.bind_some]
    have hhalt : (decoder.drain (buf ++ chunk)).halt = r.halt := by rw [hdrain]
    have hrest : (decoder.drain (buf ++ chunk)).rest = (buf ++ chunk).drop r.offset := by rw [hdrain]
    rw [forall_prefix_cons, List.foldlM_cons, hrecv, Option.bind_eq_bind, Option.bind_some]
    simp only [List.flatten_cons, List.flatten_nil, List.append_nil, ← List.append_assoc]
    cases hr : r.halt with
    | some halt =>
      refine ⟨_, foldlM_stays (FrameLoop.recv_halted rfl) chunks, ?_⟩
      rw [List.forall_mem_append, hpassed]
      refine and_congr_right fun _ => (and_iff_left_of_imp ?_).symm
      intro hok done _ _ hover
      exact hok (overrun_append (by rw [hhalt, hr]; simp) hover)
    | none =>
      have hwaits : (decoder.drain (buf ++ chunk)).halt = none := hhalt.trans hr
      have hok : ¬ Overrun (decoder.drain (buf ++ chunk)) := by simp [Overrun, hwaits]
      obtain ⟨s, hs, hiff⟩ := ih (frames ++ r.frames) (passed ++ r.passed) ((buf ++ chunk).drop r.offset)
      refine ⟨s, hs, hiff.trans ?_⟩
      rw [List.forall_mem_append, hpassed, and_assoc]
      simp only [overrun_rest hwaits, hrest]

/-! ### Which streams overrun -/

/-- The loop comes to the bytes `rest` of `bytes` behind whole frames, none of them a Close or
longer than a vector can be. -/
inductive Boundary : List UInt8 → List UInt8 → Prop where
  | here (bytes : List UInt8) : Boundary bytes bytes
  | frame {bytes rest : List UInt8} {f : Frame} {n : ℕ} (hf : wholeFrame bytes = .item f n) (hclose : f.opcode ≠ 0x8)
    (hmax : f.payload.length ≤ maxSize) (hrest : Boundary (bytes.drop n) rest) : Boundary bytes rest

/-- A header the loop comes to declares a length that, with the header's, reaches 2^64, and what
is left of the sum modulo 2^64 is there. No buffer that exists holds the sum itself. -/
def Wraps (bytes : List UInt8) : Prop :=
  ∃ rest h, Boundary bytes rest ∧ frameHeader rest = some h ∧ 2 ^ 64 ≤ h.headerLen + h.payloadLen ∧
    h.headerLen + h.payloadLen - 2 ^ 64 ≤ rest.length ∧ rest.length < h.headerLen + h.payloadLen

theorem Boundary.of_whole {bytes rest : List UInt8} {f : Frame} {n : ℕ} (hb : Boundary bytes rest)
    (hf : wholeFrame bytes = .item f n) :
    rest = bytes ∨ (f.opcode ≠ 0x8 ∧ f.payload.length ≤ maxSize ∧ Boundary (bytes.drop n) rest) := by
  cases hb with
  | here => exact .inl rfl
  | frame hf' hclose hmax hrest =>
    rw [hf] at hf'
    cases hf'
    exact .inr ⟨hclose, hmax, hrest⟩

/-- Where the loop waits, nothing wraps: the bytes of the wrapped sum would be there. -/
theorem not_wraps_of_more {bytes : List UInt8} (hn : nextFrame bytes = .more) : ¬ Wraps bytes := by
  intro hp
  obtain ⟨rest, h, hb, hh, hwrap, hthere, -⟩ := hp
  cases hb with
  | here =>
    simp only [nextFrame, hh] at hn
    split at hn
    · omega
    · split at hn <;> cases hn
  | frame hf =>
    rw [← nextFrame_eq_wholeFrame (by simp [hn]), hn] at hf
    cases hf

/-- Where the vector throws, the sum of this frame has wrapped unless the frame is there. -/
theorem overrun_iff_wraps_of_fault {bytes : List UInt8} (hn : nextFrame bytes = .fault) :
    Overrun (decoder.drain bytes) ↔ Wraps bytes := by
  obtain ⟨h, hh, hmax, hpass⟩ := nextFrame_fault.mp hn
  rw [Decoder.drain_fault hn]
  constructor
  · intro hp
    obtain ⟨-, h', hh', hover⟩ := hp
    obtain rfl := Option.some.inj (hh.symm.trans hh')
    obtain ⟨-, -, hhigh, -⟩ := frameHeader_bounds hh
    have hlt := payloadLen_lt hh
    change bytes.length < h.headerLen + h.payloadLen at hover
    exact ⟨bytes, h, .here bytes, hh, by omega, by omega, hover⟩
  · intro hp
    obtain ⟨rest, h', hb, hh', -, -, hover⟩ := hp
    cases hb with
    | here => exact ⟨rfl, h', hh', hover⟩
    | frame hf hclose hlong =>
      obtain ⟨h'', hh'', -, rfl, -⟩ := wholeFrame_item.mp hf
      obtain rfl := Option.some.inj (hh.symm.trans hh'')
      rw [length_readPayload] at hlong
      omega

section Item
variable {bytes : List UInt8} {f : Frame} {n : ℕ} (hn : nextFrame bytes = .item f n)
include hn

theorem wholeFrame_of_item : wholeFrame bytes = .item f n :=
  (nextFrame_eq_wholeFrame (by simp [hn])).symm.trans hn

/-- A frame that is whole does not wrap; what wraps is behind it. -/
theorem wraps_iff_of_item : Wraps bytes ↔ f.opcode ≠ 0x8 ∧ Wraps (bytes.drop n) := by
  obtain ⟨h, hh, hmax, hin, rfl, -⟩ := nextFrame_item.mp hn
  constructor
  · intro hp
    obtain ⟨rest, h', hb, hh', hwrap, hthere, hover⟩ := hp
    rcases hb.of_whole (wholeFrame_of_item hn) with rfl | ⟨hopen, -, hrest⟩
    · obtain rfl := Option.some.inj (hh.symm.trans hh')
      omega
    · exact ⟨hopen, rest, h', hrest, hh', hwrap, hthere, hover⟩
  · intro hp
    obtain ⟨hopen, rest, h', hb, hwrap⟩ := hp
    refine ⟨rest, h', .frame (wholeFrame_of_item hn) hopen ?_ hb, hwrap⟩
    rw [length_readPayload]
    exact hmax

end Item

theorem overrun_iff_wraps (bytes : List UInt8) : Overrun (decoder.drain bytes) ↔ Wraps bytes := by
  induction hlen : bytes.length using Nat.strongRecOn generalizing bytes with
  | ind n ih =>
    cases hn : nextFrame bytes with
    | more =>
      rw [Decoder.drain_more hn]
      exact iff_of_false (by simp [Overrun]) (not_wraps_of_more hn)
    | fault => exact overrun_iff_wraps_of_fault hn
    | item f k =>
      rw [wraps_iff_of_item hn]
      by_cases hclose : f.opcode = 0x8
      · rw [Decoder.drain_last hn (by simp [decoder, hclose])]
        exact iff_of_false (by simp [Overrun]) fun hp => hp.1 hclose
      · rw [Decoder.drain_item hn (by simp [decoder, hclose]), and_iff_right hclose]
        obtain ⟨hpos, hle⟩ := nextFrame_size hn
        exact ih (bytes.drop k).length (by rw [List.length_drop]; omega) _ rfl

/-- The loop never fails, and every frame its check lets through is in the buffer. -/
def LengthsSafe (pendingBytes : List UInt8) (chunks : List (List UInt8)) : Prop :=
  ∃ s, readFrames pendingBytes chunks = some s ∧ ∀ c ∈ s.passed, c.InBounds

/-- **Every frame let through is in the buffer exactly when no length the loop comes to wraps**
the sum, at any of its reads. -/
theorem lengths_safe_iff (pendingBytes : List UInt8) (chunks : List (List UInt8)) :
    LengthsSafe pendingBytes chunks ↔
      ∀ done, done <+: chunks → done ≠ [] → ¬ Wraps (pendingBytes ++ done.flatten) := by
  obtain ⟨s, hs, hiff⟩ := foldlM_recv_inBounds [] [] pendingBytes chunks
  have hsafe : LengthsSafe pendingBytes chunks ↔ ∀ c ∈ s.passed, c.InBounds := by
    constructor
    · intro hp
      obtain ⟨s', hs', hok⟩ := hp
      obtain rfl := Option.some.inj (hs.symm.trans hs')
      exact hok
    · exact fun hok => ⟨s, hs, hok⟩
  rw [hsafe, hiff, and_iff_right (by simp)]
  simp only [overrun_iff_wraps]

/-- A binary frame that declares 2^64 - 1 bytes, of which none arrives. -/
def hugeFrame : List UInt8 := [0x82, 0x7F, 0xFF, 0xFF, 0xFF, 0xFF, 0xFF, 0xFF, 0xFF, 0xFF]

theorem readFrames_huge :
    readFrames [] [hugeFrame] = some ⟨[], [⟨10, 0, 10, 2 ^ 64 - 1⟩], hugeFrame, some .fault⟩ := rfl

theorem huge_frame_passes : ¬ ∀ pendingBytes chunks, LengthsSafe pendingBytes chunks := by
  intro h
  obtain ⟨s, hs, hok⟩ := h [] [hugeFrame]
  obtain rfl := Option.some.inj (readFrames_huge.symm.trans hs)
  have := hok _ List.mem_cons_self
  simp [PassedCheck.InBounds] at this

end VrxServer.WebSocket
