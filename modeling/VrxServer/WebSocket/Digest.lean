import VrxServer.Base.Fips180
import VrxServer.WebSocket.Sha1

/-! The digest is the standard's.

The standard hashes strings of bits. The program hashes bytes, with a padding loop, a table
filled by two loops and eighty rounds on five variables: each of them computes on bytes and
`uint32_t` what the standard says of bits and words, up to the longest message whose length
in bits the standard can write down (`sha1_standard`). -/
namespace VrxServer.WebSocket
open Base

/-! ### The padded message -/

/-- **The padded message is the standard's**, for every length it can write down. -/
theorem bytesBits_padMessage {data : List UInt8} (h : data.length < 2 ^ 61) :
    bytesBits (padMessage data) = Fips180.pad (bytesBits data) := by
  have hlen : data.length * 8 % 2 ^ 64 = (bytesBits data).length := by
    rw [length_bytesBits, Nat.mod_eq_of_lt (by omega), Nat.mul_comm]
  have hzeros : Fips180.zeros (bytesBits data).length = 7 + 8 * ((120 - (data.length + 1) % 64) % 64) := by
    apply Fips180.zeros_eq
    · rw [length_bytesBits]
      omega
    · omega
  have hone : bytesBits [0x80] = true :: List.replicate 7 false := by decide
  have hlength : ([7, 6, 5, 4, 3, 2, 1, 0].map fun i => UInt8.ofNat ((data.length * 8 % 2 ^ 64) >>> (i * 8) &&& 0xFF)) =
      natBytes 8 (data.length * 8 % 2 ^ 64) := (natBytes_eq_shifts 8 _).symm
  rw [padMessage, padZeros_eq, hlength, hlen, bytesBits_append, bytesBits_append, bytesBits_append, hone,
    bytesBits_replicate, bytesBits_natBytes, Fips180.pad, hzeros, List.length_append, List.length_singleton,
    List.replicate_add]
  simp only [List.append_assoc, List.cons_append]

/-! ### Words -/

theorem toBitVec_rotl {v n : UInt32} {j : ℕ} (hj : n.toNat = j) (hlow : 0 < j) (hlt : j < 32) :
    (rotl v n).toBitVec = v.toBitVec.rotateLeft j := by
  have hleft : (n.toBitVec % 32).toNat = j := by
    rw [BitVec.toNat_umod, UInt32.toNat_toBitVec, hj]
    exact Nat.mod_eq_of_lt hlt
  have hright : ((32 - n).toBitVec % 32).toNat = 32 - j := by
    have hle : n ≤ 32 := UInt32.le_iff_toNat_le.mpr (hj ▸ hlt.le)
    rw [BitVec.toNat_umod, UInt32.toNat_toBitVec, UInt32.toNat_sub_of_le _ _ hle, hj]
    exact Nat.mod_eq_of_lt (Nat.sub_lt (by decide) hlow)
  rw [rotl, UInt32.toBitVec_or, UInt32.toBitVec_shiftLeft, UInt32.toBitVec_shiftRight, BitVec.rotateLeft_def,
    Nat.mod_eq_of_lt hlt, BitVec.shiftLeft_eq', BitVec.ushiftRight_eq', hleft, hright]

/-- A word that is read is the standard's, at a position of whole words. -/
theorem wordAt_word {msg : List UInt8} (i : ℕ) (h : 4 * i + 3 < msg.length) :
    ∃ v, wordAt msg (4 * i) = some v ∧ v.toBitVec = Fips180.word (bytesBits msg) i := by
  have h0 : 4 * i < msg.length := by omega
  have h1 : 4 * i + 1 < msg.length := by omega
  have h2 : 4 * i + 2 < msg.length := by omega
  have hbytes : (msg.drop (4 * i)).take 4 = [msg[4 * i], msg[4 * i + 1], msg[4 * i + 2], msg[4 * i + 3]] := by
    rw [List.drop_eq_getElem_cons h0, List.drop_eq_getElem_cons h1, List.drop_eq_getElem_cons h2,
      List.drop_eq_getElem_cons h]
    rfl
  have hword : Fips180.word (bytesBits msg) i =
      BitVec.ofNat 32 (bytesNat [msg[4 * i], msg[4 * i + 1], msg[4 * i + 2], msg[4 * i + 3]]) := by
    have htake : ∀ bytes, (bytesBits bytes).take 32 = bytesBits (bytes.take 4) := fun bytes => bytesBits_take bytes 4
    rw [Fips180.word, show 32 * i = 8 * (4 * i) by ring, bytesBits_drop, htake, hbytes, bitsNat_bytesBits]
  simp only [wordAt, List.getElem?_eq_getElem h0, List.getElem?_eq_getElem h1, List.getElem?_eq_getElem h2,
    List.getElem?_eq_getElem h]
  refine ⟨_, rfl, ?_⟩
  rw [hword, ← toNat_wordBytes, ← UInt32.toNat_toBitVec, BitVec.ofNat_toNat, BitVec.setWidth_eq]

/-- What is read from a table that has been filled as far as that. -/
theorem read_filled {w : List UInt32} {g : ℕ → Fips180.Word} {n i : ℕ}
    (h : w.map UInt32.toBitVec = (List.range n).map g) (hi : i < n) : ∃ v, w[i]? = some v ∧ v.toBitVec = g i := by
  have hread : (w.map UInt32.toBitVec)[i]? = some (g i) := by
    rw [h, List.getElem?_map, List.getElem?_range hi, Option.map_some]
  rw [List.getElem?_map] at hread
  exact Option.map_eq_some_iff.mp hread

/-- One more word in the table. -/
theorem filled_succ {w : List UInt32} {g : ℕ → Fips180.Word} {n : ℕ} {v : UInt32}
    (h : w.map UInt32.toBitVec = (List.range n).map g) (hv : v.toBitVec = g n) :
    (w ++ [v]).map UInt32.toBitVec = (List.range (n + 1)).map g := by
  rw [List.map_append, h, List.range_succ, List.map_append, List.map_singleton, List.map_singleton, hv]

/-- **The table is the standard's schedule** of the block. -/
theorem schedule_standard {msg : List UInt8} {i : ℕ} (h : 64 * i + 64 ≤ msg.length) :
    ∃ w, schedule msg (64 * i) = some w ∧
      w.map UInt32.toBitVec = (List.range 80).map (Fips180.W fun t => Fips180.word (bytesBits msg) (16 * i + t)) := by
  obtain ⟨M, hM⟩ : ∃ M, M = fun t => Fips180.word (bytesBits msg) (16 * i + t) := ⟨_, rfl⟩
  rw [← hM]
  have hload : ∃ w, (List.range' 0 16).foldlM (loadWord msg (64 * i)) [] = some w ∧
      w.map UInt32.toBitVec = (List.range 16).map (Fips180.W M) := by
    apply foldlM_defined (fun k (w : List UInt32) => w.map UInt32.toBitVec = (List.range k).map (Fips180.W M)) rfl
    intro k w hk hw
    obtain ⟨v, hread, hv⟩ := wordAt_word (16 * i + k) (show 4 * (16 * i + k) + 3 < msg.length by omega)
    refine ⟨w ++ [v], ?_, filled_succ hw ?_⟩
    · rw [loadWord, show 64 * i + (0 + 1 * k) * 4 = 4 * (16 * i + k) by ring, hread]
      rfl
    · rw [hv, Fips180.W_low hk, hM]
  obtain ⟨w, hw, hfilled⟩ := hload
  have hexpand : ∃ w', (List.range' 16 64).foldlM expandWord w = some w' ∧
      w'.map UInt32.toBitVec = (List.range (16 + 64)).map (Fips180.W M) := by
    apply foldlM_defined (fun k (w : List UInt32) => w.map UInt32.toBitVec = (List.range (16 + k)).map (Fips180.W M)) hfilled
    intro k w hk hw
    rw [Nat.one_mul]
    obtain ⟨a, ha, hWa⟩ := read_filled hw (i := 16 + k - 3) (by omega)
    obtain ⟨b, hb, hWb⟩ := read_filled hw (i := 16 + k - 8) (by omega)
    obtain ⟨c, hc, hWc⟩ := read_filled hw (i := 16 + k - 14) (by omega)
    obtain ⟨d, hd, hWd⟩ := read_filled hw (i := 16 + k - 16) (by omega)
    have hnew : (rotl (a ^^^ b ^^^ c ^^^ d) 1).toBitVec = Fips180.W M (16 + k) := by
      rw [toBitVec_rotl (j := 1) rfl (by decide) (by decide), Fips180.W_high (Nat.le_add_right 16 k)]
      simp only [UInt32.toBitVec_xor, hWa, hWb, hWc, hWd]
    refine ⟨w ++ [rotl (a ^^^ b ^^^ c ^^^ d) 1], ?_, filled_succ hw hnew⟩
    rw [expandWord, ha, hb, hc, hd]
    rfl
  obtain ⟨w', hw', hfilled'⟩ := hexpand
  refine ⟨w', ?_, hfilled'⟩
  rw [schedule, hw]
  exact hw'

/-! ### Rounds and blocks -/

/-- The state, as the standard's variables. -/
def Sha1State.working (s : Sha1State) : Fips180.Working :=
  ⟨s.a.toBitVec, s.b.toBitVec, s.c.toBitVec, s.d.toBitVec, s.e.toBitVec⟩

theorem roundFunction_standard (t : ℕ) (b c d : UInt32) :
    (roundFunction t b c d).1.toBitVec = Fips180.f t b.toBitVec c.toBitVec d.toBitVec ∧
      (roundFunction t b c d).2.toBitVec = Fips180.K t := by
  have h20 : t < 20 ↔ t ≤ 19 := Nat.lt_succ_iff
  have h40 : t < 40 ↔ t ≤ 39 := Nat.lt_succ_iff
  have h60 : t < 60 ↔ t ≤ 59 := Nat.lt_succ_iff
  unfold roundFunction Fips180.f Fips180.K
  simp only [h20, h40, h60]
  split_ifs
  · rw [Fips180.Ch_eq_or]
    exact ⟨rfl, rfl⟩
  · exact ⟨rfl, rfl⟩
  · rw [Fips180.Maj_eq_or]
    exact ⟨rfl, rfl⟩
  · exact ⟨rfl, rfl⟩

theorem round_standard {w : List UInt32} {g : ℕ → Fips180.Word} {t : ℕ} (s : Sha1State)
    (hw : w.map UInt32.toBitVec = (List.range 80).map g) (ht : t < 80) :
    ∃ s', round w s t = some s' ∧ s'.working = Fips180.round g s.working t := by
  obtain ⟨v, hread, hv⟩ := read_filled hw ht
  obtain ⟨hf, hK⟩ := roundFunction_standard t s.b s.c s.d
  rw [round, hread]
  refine ⟨_, rfl, ?_⟩
  simp only [Sha1State.working, Fips180.round, UInt32.toBitVec_add, hf, hK, hv,
    toBitVec_rotl (n := 5) (j := 5) rfl (by decide) (by decide), toBitVec_rotl (n := 30) (j := 30) rfl (by decide) (by decide)]

/-- **A block is stirred in as the standard says.** -/
theorem compress_standard {msg : List UInt8} {i : ℕ} (s : Sha1State) (h : 64 * i + 64 ≤ msg.length) :
    ∃ s', compress msg s (64 * i) = some s' ∧
      s'.working = Fips180.block (fun t => Fips180.word (bytesBits msg) (16 * i + t)) s.working := by
  obtain ⟨w, hw, hfilled⟩ := schedule_standard h
  have hrounds : ∃ s', (List.range' 0 80).foldlM (round w) s = some s' ∧ s'.working = (List.range 80).foldl
      (Fips180.round (Fips180.W fun t => Fips180.word (bytesBits msg) (16 * i + t))) s.working := by
    apply foldlM_viewed
    intro k s hk
    rw [Nat.zero_add, Nat.one_mul]
    exact round_standard s hfilled hk
  obtain ⟨s', hs', hworking⟩ := hrounds
  rw [compress, hw]
  refine ⟨⟨s.a + s'.a, s.b + s'.b, s.c + s'.c, s.d + s'.d, s.e + s'.e⟩, ?_, ?_⟩
  · show (List.range' 0 80).foldlM (round w) s >>= _ = _
    rw [hs']
    rfl
  · rw [Fips180.block, ← hworking]
    simp only [Sha1State.working, UInt32.toBitVec_add, BitVec.add_comm]

/-! ### The digest -/

/-- A word of the digest is put in network order. -/
theorem putWord_eq (v : UInt32) : putWord v = natBytes 4 v.toNat := by
  have hbyte : ∀ {k : UInt32} {j : ℕ}, k.toNat = j → j < 32 → (v >>> k).toUInt8 = UInt8.ofNat (v.toNat / 2 ^ j) := by
    intro k j hj hlt
    apply UInt8.toNat_inj.mp
    rw [UInt32.toNat_toUInt8, UInt32.toNat_shiftRight, hj, Nat.mod_eq_of_lt hlt, Nat.shiftRight_eq_div_pow,
      UInt8.toNat_ofNat']
  have hlast : v.toUInt8 = UInt8.ofNat v.toNat := by
    apply UInt8.toNat_inj.mp
    rw [UInt32.toNat_toUInt8, UInt8.toNat_ofNat']
  rw [putWord, hbyte (k := 24) (j := 24) rfl (by decide), hbyte (k := 16) (j := 16) rfl (by decide),
    hbyte (k := 8) (j := 8) rfl (by decide), hlast]
  simp only [natBytes, List.nil_append, List.cons_append, Nat.div_div_eq_div_mul]
  rfl

theorem bytesBits_putWord (v : UInt32) : bytesBits (putWord v) = natBits 32 v.toBitVec.toNat := by
  rw [putWord_eq, bytesBits_natBytes]
  rfl

/-- **The digest is the one the standard defines**, for every message it defines one for. -/
theorem sha1_standard (data : List UInt8) (h : data.length < 2 ^ 61) :
    ∃ digest, sha1 data = some digest ∧ digest.length = 20 ∧ bytesBits digest = Fips180.sha1 (bytesBits data) := by
  have hwhole := length_padMessage data
  have hblocks : ∃ s, (List.range' 0 (((padMessage data).length + 63) / 64) 64).foldlM (compress (padMessage data))
      Sha1State.initial = some s ∧ s.working = (List.range (((padMessage data).length + 63) / 64)).foldl
        (fun H i => Fips180.block (fun t => Fips180.word (bytesBits (padMessage data)) (16 * i + t)) H) Fips180.initial := by
    apply foldlM_viewed Sha1State.working
    intro k s hk
    rw [Nat.zero_add]
    exact compress_standard s (by omega)
  obtain ⟨s, hs, hworking⟩ := hblocks
  have hcount : (bytesBits (padMessage data)).length / 512 = ((padMessage data).length + 63) / 64 := by
    rw [length_bytesBits]
    omega
  refine ⟨putWord s.a ++ putWord s.b ++ putWord s.c ++ putWord s.d ++ putWord s.e, ?_, rfl, ?_⟩
  · rw [sha1, hs]
    rfl
  · rw [Fips180.sha1, ← bytesBits_padMessage h, Fips180.hash, hcount, ← hworking]
    simp only [bytesBits_append, bytesBits_putWord]
    rfl

/-- The message of the standard's first example. -/
theorem sha1_standard_abc : ∃ digest, sha1 [0x61, 0x62, 0x63] = some digest ∧ digest.length = 20 ∧
    bytesBits digest = Fips180.sha1 (bytesBits [0x61, 0x62, 0x63]) :=
  sha1_standard [0x61, 0x62, 0x63] (by norm_num)

end VrxServer.WebSocket
