import VrxServer.Base.Bytes
import VrxServer.Base.Loops

/-! SHA-1, as the handshake computes it.

The message is padded to whole blocks of 64 bytes, and each block is stirred into five
words. A read of the message or of the block's schedule is `none` where it is out of range;
none is (`sha1_defined`). -/
namespace VrxServer.WebSocket
open Base

/-- `h0` to `h4`, and `a` to `e` in the rounds. -/
structure Sha1State where
  a : UInt32
  b : UInt32
  c : UInt32
  d : UInt32
  e : UInt32
  deriving DecidableEq

def Sha1State.initial : Sha1State := ⟨0x67452301, 0xEFCDAB89, 0x98BADCFE, 0x10325476, 0xC3D2E1F0⟩

def rotl (v n : UInt32) : UInt32 := v <<< n ||| v >>> (32 - n)

/-- `while (msg.size() % 64 != 56)`. -/
def padZeros (msg : List UInt8) : List UInt8 :=
  if msg.length % 64 ≠ 56 then padZeros (msg ++ [0x00]) else msg
termination_by (120 - msg.length % 64) % 64
decreasing_by
  rw [List.length_append, List.length_singleton]
  omega

def padMessage (data : List UInt8) : List UInt8 :=
  let bitLen := data.length * 8 % 2 ^ 64
  padZeros (data ++ [0x80]) ++ [7, 6, 5, 4, 3, 2, 1, 0].map fun i => UInt8.ofNat (bitLen >>> (i * 8) &&& 0xFF)

/-- The word whose first byte is at `p`, most significant byte first. -/
def wordAt (msg : List UInt8) (p : ℕ) : Option UInt32 := do
  return (← msg[p]?).toUInt32 <<< 24 ||| (← msg[p + 1]?).toUInt32 <<< 16 ||| (← msg[p + 2]?).toUInt32 <<< 8 |||
    (← msg[p + 3]?).toUInt32

/-- One round of the loop that fills `w[0]` to `w[15]`. -/
def loadWord (msg : List UInt8) (chunk : ℕ) (w : List UInt32) (i : ℕ) : Option (List UInt32) := do
  return w ++ [← wordAt msg (chunk + i * 4)]

/-- One round of the loop that fills the others. -/
def expandWord (w : List UInt32) (i : ℕ) : Option (List UInt32) := do
  return w ++ [rotl ((← w[i - 3]?) ^^^ (← w[i - 8]?) ^^^ (← w[i - 14]?) ^^^ (← w[i - 16]?)) 1]

/-- The array `w`, as far as it has been written. -/
def schedule (msg : List UInt8) (chunk : ℕ) : Option (List UInt32) := do
  let w ← (List.range' 0 16).foldlM (loadWord msg chunk) []
  (List.range' 16 64).foldlM expandWord w

/-- `f` and `k` of the `i`-th round. -/
def roundFunction (i : ℕ) (b c d : UInt32) : UInt32 × UInt32 :=
  if i < 20 then ((b &&& c) ||| (~~~b &&& d), 0x5A827999)
  else if i < 40 then (b ^^^ c ^^^ d, 0x6ED9EBA1)
  else if i < 60 then ((b &&& c) ||| (b &&& d) ||| (c &&& d), 0x8F1BBCDC)
  else (b ^^^ c ^^^ d, 0xCA62C1D6)

def round (w : List UInt32) (s : Sha1State) (i : ℕ) : Option Sha1State := do
  let fk := roundFunction i s.b s.c s.d
  let temp := rotl s.a 5 + fk.1 + s.e + fk.2 + (← w[i]?)
  return ⟨temp, s.a, rotl s.b 30, s.c, s.d⟩

/-- One round of the loop over the blocks. -/
def compress (msg : List UInt8) (h : Sha1State) (chunk : ℕ) : Option Sha1State := do
  let w ← schedule msg chunk
  let s ← (List.range' 0 80).foldlM (round w) h
  return ⟨h.a + s.a, h.b + s.b, h.c + s.c, h.d + s.d, h.e + s.e⟩

/-- `put`. -/
def putWord (v : UInt32) : List UInt8 := [(v >>> 24).toUInt8, (v >>> 16).toUInt8, (v >>> 8).toUInt8, v.toUInt8]

def sha1 (data : List UInt8) : Option (List UInt8) := do
  let msg := padMessage data
  let h ← (List.range' 0 ((msg.length + 63) / 64) 64).foldlM (compress msg) .initial
  return putWord h.a ++ putWord h.b ++ putWord h.c ++ putWord h.d ++ putWord h.e

/-! ### No read is out of range -/

/-- The loop ends, with the zeros that are missing. -/
theorem padZeros_eq (msg : List UInt8) :
    padZeros msg = msg ++ List.replicate ((120 - msg.length % 64) % 64) 0x00 := by
  induction msg using padZeros.induct with
  | case1 msg h ih =>
    have hzeros : (120 - msg.length % 64) % 64 = (120 - (msg ++ [0x00]).length % 64) % 64 + 1 := by
      rw [List.length_append, List.length_singleton]
      omega
    rw [padZeros, if_pos h, ih, hzeros, List.replicate_succ, List.append_assoc]
    rfl
  | case2 msg h =>
    have hzeros : (120 - msg.length % 64) % 64 = 0 := by omega
    rw [padZeros, if_neg h, hzeros, List.replicate_zero, List.append_nil]

/-- The padded message is whole blocks. -/
theorem length_padMessage (data : List UInt8) : (padMessage data).length % 64 = 0 := by
  simp only [padMessage, padZeros_eq, List.length_append, List.length_replicate, List.length_map, List.length_cons,
    List.length_nil]
  omega

theorem wordAt_defined {msg : List UInt8} {p : ℕ} (h : p + 3 < msg.length) : ∃ v, wordAt msg p = some v := by
  have h0 : p < msg.length := by omega
  have h1 : p + 1 < msg.length := by omega
  have h2 : p + 2 < msg.length := by omega
  simp only [wordAt, List.getElem?_eq_getElem h0, List.getElem?_eq_getElem h1, List.getElem?_eq_getElem h2,
    List.getElem?_eq_getElem h]
  exact ⟨_, rfl⟩

theorem expandWord_defined {w : List UInt32} {i : ℕ} (hlow : 16 ≤ i) (hlen : w.length = i) :
    ∃ v, expandWord w i = some (w ++ [v]) := by
  have h3 : i - 3 < w.length := by omega
  have h8 : i - 8 < w.length := by omega
  have h14 : i - 14 < w.length := by omega
  have h16 : i - 16 < w.length := by omega
  simp only [expandWord, List.getElem?_eq_getElem h3, List.getElem?_eq_getElem h8, List.getElem?_eq_getElem h14,
    List.getElem?_eq_getElem h16]
  exact ⟨_, rfl⟩

theorem schedule_defined {msg : List UInt8} {chunk : ℕ} (h : chunk + 64 ≤ msg.length) :
    ∃ w, schedule msg chunk = some w ∧ w.length = 80 := by
  have hload : ∃ w, (List.range' 0 16).foldlM (loadWord msg chunk) [] = some w ∧ w.length = 16 := by
    refine foldlM_defined (fun k (w : List UInt32) => w.length = k) rfl ?_
    intro k w hk hlen
    have hin : chunk + (0 + 1 * k) * 4 + 3 < msg.length := by omega
    obtain ⟨v, hv⟩ := wordAt_defined hin
    refine ⟨w ++ [v], ?_, by rw [List.length_append, hlen, List.length_singleton]⟩
    rw [loadWord, hv]
    rfl
  obtain ⟨w, hw, hlen⟩ := hload
  have hexpand : ∃ w', (List.range' 16 64).foldlM expandWord w = some w' ∧ w'.length = 16 + 64 := by
    refine foldlM_defined (fun k (w : List UInt32) => w.length = 16 + k) hlen ?_
    intro k w _ hlen
    rw [Nat.one_mul]
    obtain ⟨v, hv⟩ := expandWord_defined (by omega) hlen
    exact ⟨w ++ [v], hv, by rw [List.length_append, hlen, List.length_singleton, Nat.add_assoc]⟩
  obtain ⟨w', hw', hlen'⟩ := hexpand
  refine ⟨w', ?_, hlen'⟩
  rw [schedule, hw]
  exact hw'

theorem compress_defined {msg : List UInt8} {chunk : ℕ} (h : chunk + 64 ≤ msg.length) (s : Sha1State) :
    ∃ s', compress msg s chunk = some s' := by
  obtain ⟨w, hw, hlen⟩ := schedule_defined h
  have hrounds : ∃ s', (List.range' 0 80).foldlM (round w) s = some s' ∧ True := by
    refine foldlM_defined (fun _ _ => True) trivial ?_
    intro k s hk _
    have hin : 0 + 1 * k < w.length := by omega
    simp only [round, List.getElem?_eq_getElem hin]
    exact ⟨_, rfl, trivial⟩
  obtain ⟨s', hs, -⟩ := hrounds
  simp only [compress, hw, Option.bind_eq_bind, Option.bind_some, hs]
  exact ⟨_, rfl⟩

/-- **Every message has a digest**, of 20 bytes. -/
theorem sha1_defined (data : List UInt8) : ∃ digest, sha1 data = some digest ∧ digest.length = 20 := by
  have hblocks := length_padMessage data
  have hrun : ∃ s, (List.range' 0 (((padMessage data).length + 63) / 64) 64).foldlM (compress (padMessage data))
      Sha1State.initial = some s ∧ True := by
    refine foldlM_defined (fun _ _ => True) trivial ?_
    intro k s hk _
    have hblock : 0 + 64 * k + 64 ≤ (padMessage data).length := by omega
    obtain ⟨s', hs⟩ := compress_defined hblock s
    exact ⟨s', hs, trivial⟩
  obtain ⟨s, hs, -⟩ := hrun
  simp only [sha1, hs, Option.bind_eq_bind, Option.bind_some]
  exact ⟨_, rfl, rfl⟩

example : sha1 [0x61, 0x62, 0x63] = some [0xA9, 0x99, 0x3E, 0x36, 0x47, 0x06, 0x81, 0x6A, 0xBA, 0x3E, 0x25, 0x71, 0x78,
    0x50, 0xC2, 0x6C, 0x9C, 0xD0, 0xD8, 0x9D] := by
  simp only [sha1, padMessage, padZeros_eq]
  decide +kernel

end VrxServer.WebSocket
