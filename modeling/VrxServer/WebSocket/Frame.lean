import Mathlib.Data.List.GetD
import VrxServer.Base.Bytes
import VrxServer.Base.ReadLoop

/-! WebSocket frames, as the read loop takes them off its buffer.

`nextFrame` is the body of the inner loop up to the `switch`. Its completeness check adds
the two lengths in 64 bits; a length no vector can have, once the check lets it through,
makes the payload's constructor throw, and the loop is left by the exception. -/
namespace VrxServer.WebSocket
open Base

structure Frame where
  fin : Bool
  opcode : UInt8
  payload : List UInt8
  deriving DecidableEq

structure FrameHeader where
  fin : Bool
  opcode : UInt8
  masked : Bool
  headerLen : ℕ
  payloadLen : ℕ

/-- The most elements a `std::vector<uint8_t>` can be asked for. -/
def maxSize : ℕ := 2 ^ 63 - 1

/-- How many bytes of length follow a 7-bit length of 126 or 127. -/
def lengthBytes (len7 : ℕ) : ℕ := if len7 = 126 then 2 else if len7 = 127 then 8 else 0

/-- The header, once its length field is there; the mask key need not be. -/
def frameHeader (buf : List UInt8) : Option FrameHeader :=
  if buf.length < 2 then none
  else
    let b0 := buf.getD 0 0
    let b1 := buf.getD 1 0
    let masked := b1 &&& 0x80 != 0
    let len7 := (b1 &&& 0x7F).toNat
    if buf.length < 2 + lengthBytes len7 then none
    else some {
      fin := b0 &&& 0x80 != 0
      opcode := b0 &&& 0x0F
      masked := masked
      headerLen := 2 + lengthBytes len7 + if masked then 4 else 0
      payloadLen := if lengthBytes len7 = 0 then len7 else bytesNat ((buf.drop 2).take (lengthBytes len7)) }

/-- The payload loop, over a buffer that holds the frame. -/
def readPayload (buf : List UInt8) (h : FrameHeader) : List UInt8 :=
  (List.range h.payloadLen).map fun i =>
    buf.getD (h.headerLen + i) 0 ^^^ if h.masked then buf.getD (h.headerLen - 4 + i % 4) 0 else 0

@[simp] theorem length_readPayload (buf : List UInt8) (h : FrameHeader) :
    (readPayload buf h).length = h.payloadLen := by
  rw [readPayload, List.length_map, List.length_range]

def nextFrame (buf : List UInt8) : Verdict Frame :=
  match frameHeader buf with
  | none => .more
  | some h =>
    if buf.length < (h.headerLen + h.payloadLen) % 2 ^ 64 then .more
    else if maxSize < h.payloadLen then .fault
    else .item ⟨h.fin, h.opcode, readPayload buf h⟩ (h.headerLen + h.payloadLen)

/-! ### A buffer that grows -/

theorem frameHeader_bounds {buf : List UInt8} {h : FrameHeader} (hh : frameHeader buf = some h) :
    2 ≤ buf.length ∧ 2 ≤ h.headerLen ∧ h.headerLen ≤ 14 ∧ (h.masked = true → 4 ≤ h.headerLen) := by
  unfold frameHeader at hh
  split at hh
  · cases hh
  · simp only at hh
    split at hh
    · cases hh
    · obtain rfl := Option.some.inj hh
      simp only [lengthBytes]
      refine ⟨by omega, by omega, ?_, ?_⟩
      · split <;> split <;> try split
        all_goals omega
      · intro hm
        rw [if_pos hm]
        omega

theorem payloadLen_lt {buf : List UInt8} {h : FrameHeader} (hh : frameHeader buf = some h) :
    h.payloadLen < 2 ^ 64 := by
  unfold frameHeader at hh
  split at hh
  · cases hh
  · simp only at hh
    split at hh
    · cases hh
    · obtain rfl := Option.some.inj hh
      dsimp only
      have hlen7 := (buf.getD 1 0 &&& 0x7F).toNat_lt
      have hlt := bytesNat_lt ((buf.drop 2).take (lengthBytes (buf.getD 1 0 &&& 0x7F).toNat))
      have hle : ((buf.drop 2).take (lengthBytes (buf.getD 1 0 &&& 0x7F).toNat)).length ≤ 8 := by
        rw [List.length_take, lengthBytes]
        split
        · omega
        · split <;> omega
      split
      · omega
      · exact hlt.trans_le (Nat.pow_le_pow_right (by decide) hle)

theorem frameHeader_append {buf : List UInt8} {h : FrameHeader} (rest : List UInt8)
    (hh : frameHeader buf = some h) : frameHeader (buf ++ rest) = some h := by
  unfold frameHeader at hh ⊢
  split at hh
  · cases hh
  · next hlen =>
    rw [if_neg (by rw [List.length_append]; omega), List.getD_append _ _ _ 0 (by omega),
      List.getD_append _ _ _ 1 (by omega)]
    simp only at hh ⊢
    split at hh
    · cases hh
    · next hfull =>
      rw [if_neg (by rw [List.length_append]; omega), List.drop_append_of_le_length (by omega),
        List.take_append_of_le_length (by rw [List.length_drop]; omega)]
      exact hh

theorem readPayload_append {buf : List UInt8} {h : FrameHeader} (rest : List UInt8)
    (hmask : h.masked = true → 4 ≤ h.headerLen) (hlen : h.headerLen + h.payloadLen ≤ buf.length) :
    readPayload (buf ++ rest) h = readPayload buf h := by
  refine List.map_congr_left fun i hi => ?_
  rw [List.mem_range] at hi
  rw [List.getD_append _ _ _ _ (by omega)]
  congr 1
  split
  · next hm =>
    have := hmask hm
    rw [List.getD_append _ _ _ _ (by omega)]
  · rfl

/-- Where the check lets a frame through, the whole of it is in the buffer. -/
theorem nextFrame_item {buf : List UInt8} {f : Frame} {n : ℕ} :
    nextFrame buf = .item f n ↔ ∃ h, frameHeader buf = some h ∧ h.payloadLen ≤ maxSize ∧
      h.headerLen + h.payloadLen ≤ buf.length ∧ f = ⟨h.fin, h.opcode, readPayload buf h⟩ ∧
      n = h.headerLen + h.payloadLen := by
  unfold nextFrame
  cases hh : frameHeader buf with
  | none => simp
  | some h =>
    obtain ⟨-, -, hhigh, -⟩ := frameHeader_bounds hh
    simp only [Option.some.injEq, exists_eq_left']
    split
    · next hshort =>
      refine iff_of_false (by simp) ?_
      intro hp
      obtain ⟨hmax, hlen, -⟩ := hp
      have := Nat.mod_le (h.headerLen + h.payloadLen) (2 ^ 64)
      omega
    · next hlong =>
      split
      · next hmax => exact iff_of_false (by simp) fun hle => absurd hle.1 (by omega)
      · next hmax =>
        rw [maxSize] at hmax ⊢
        rw [Nat.mod_eq_of_lt (by omega)] at hlong
        simp only [Verdict.item.injEq]
        constructor
        · intro hp
          obtain ⟨rfl, rfl⟩ := hp
          exact ⟨by omega, by omega, rfl, rfl⟩
        · intro hp
          obtain ⟨-, -, rfl, rfl⟩ := hp
          exact ⟨rfl, rfl⟩

theorem nextFrame_fault {buf : List UInt8} :
    nextFrame buf = .fault ↔ ∃ h, frameHeader buf = some h ∧ maxSize < h.payloadLen ∧
      (h.headerLen + h.payloadLen) % 2 ^ 64 ≤ buf.length := by
  unfold nextFrame
  cases hh : frameHeader buf with
  | none => simp
  | some h =>
    simp only [Option.some.injEq, exists_eq_left']
    split
    · next hshort => exact iff_of_false (by simp) fun hle => absurd hle.2 (by omega)
    · next hlong =>
      split
      · next hmax => exact iff_of_true rfl ⟨hmax, by omega⟩
      · next hmax => exact iff_of_false (by simp) fun hle => absurd hle.1 hmax

theorem nextFrame_size {buf : List UInt8} {f : Frame} {n : ℕ} (h : nextFrame buf = .item f n) :
    0 < n ∧ n ≤ buf.length := by
  obtain ⟨hd, hh, -, hlen, -, rfl⟩ := nextFrame_item.mp h
  obtain ⟨-, hlow, -, -⟩ := frameHeader_bounds hh
  exact ⟨by omega, hlen⟩

theorem nextFrame_append {buf : List UInt8} {f : Frame} {n : ℕ} (rest : List UInt8)
    (h : nextFrame buf = .item f n) : nextFrame (buf ++ rest) = .item f n := by
  obtain ⟨hd, hh, hmax, hlen, rfl, rfl⟩ := nextFrame_item.mp h
  obtain ⟨-, -, -, hmask⟩ := frameHeader_bounds hh
  refine nextFrame_item.mpr ⟨hd, frameHeader_append rest hh, hmax, ?_, ?_, rfl⟩
  · rw [List.length_append]
    omega
  · rw [readPayload_append rest hmask hlen]

theorem nextFrame_fault_append {buf : List UInt8} (rest : List UInt8) (h : nextFrame buf = .fault) :
    nextFrame (buf ++ rest) = .fault := by
  obtain ⟨hd, hh, hmax, hlen⟩ := nextFrame_fault.mp h
  refine nextFrame_fault.mpr ⟨hd, frameHeader_append rest hh, hmax, ?_⟩
  rw [List.length_append]
  omega

/-- The frames of a stream; a Close is the last the loop looks at. -/
def decoder : Decoder UInt8 Frame where
  next := nextFrame
  last f := f.opcode == 0x8
  item_size := nextFrame_size
  item_append := nextFrame_append
  fault_append := nextFrame_fault_append

end VrxServer.WebSocket
