import Mathlib.Data.List.Basic
import Mathlib.Data.List.Induction
import Mathlib.Algebra.Order.Group.Nat
import Mathlib.Tactic.NormNum
import Mathlib.Tactic.Ring

/-! Bytes in memory and on the wire: little-endian words, big-endian numerals, block copies. -/
namespace VrxServer.Base

/-- A word as it lies in memory, least significant byte first. -/
def u32Bytes (v : UInt32) : List UInt8 :=
  [UInt8.ofNat v.toNat, UInt8.ofNat (v.toNat / 256), UInt8.ofNat (v.toNat / 65536),
    UInt8.ofNat (v.toNat / 16777216)]

/-- The word that lies at `offset`, if its four bytes do. -/
def readU32 (buf : List UInt8) (offset : ℕ) : Option UInt32 :=
  match buf.drop offset with
  | a :: b :: c :: d :: _ =>
    some (UInt32.ofNat (a.toNat + 256 * b.toNat + 65536 * c.toNat + 16777216 * d.toNat))
  | _ => none

@[simp] theorem length_u32Bytes (v : UInt32) : (u32Bytes v).length = 4 := rfl

theorem readU32_u32Bytes (v : UInt32) (rest : List UInt8) :
    readU32 (u32Bytes v ++ rest) 0 = some v := by
  have hv : v.toNat < 4294967296 := v.toNat_lt
  simp only [readU32, u32Bytes, List.drop_zero, List.cons_append, List.nil_append, Option.some.injEq]
  apply UInt32.toNat_inj.mp
  simp only [UInt8.toNat_ofNat', UInt32.toNat_ofNat', Nat.reducePow]
  omega

theorem readU32_append {buf : List UInt8} {offset : ℕ} {v : UInt32} (rest : List UInt8)
    (h : readU32 buf offset = some v) : readU32 (buf ++ rest) offset = some v := by
  have hlen : offset ≤ buf.length := by
    by_contra hlt
    rw [readU32, List.drop_eq_nil_of_le (by omega)] at h
    cases h
  unfold readU32 at h ⊢
  rw [List.drop_append_of_le_length hlen]
  split at h
  · next heq =>
    rw [heq]
    exact h
  · cases h

theorem readU32_of_length {buf : List UInt8} {offset : ℕ} (h : offset + 4 ≤ buf.length) :
    ∃ v, readU32 buf offset = some v := by
  have hlen : 4 ≤ (buf.drop offset).length := by
    rw [List.length_drop]
    omega
  unfold readU32
  match hb : buf.drop offset with
  | a :: b :: c :: d :: _ => exact ⟨_, rfl⟩
  | [] | [_] | [_, _] | [_, _, _] =>
    rw [hb] at hlen
    simp at hlen

theorem length_of_readU32 {buf : List UInt8} {offset : ℕ} {v : UInt32} (h : readU32 buf offset = some v) :
    offset + 4 ≤ buf.length := by
  by_contra hlt
  unfold readU32 at h
  split at h
  · next heq =>
    have hlen := congrArg List.length heq
    rw [List.length_drop] at hlen
    simp only [List.length_cons] at hlen
    omega
  · cases h

theorem readU32_drop (buf : List UInt8) (n offset : ℕ) : readU32 (buf.drop n) offset = readU32 buf (n + offset) := by
  rw [readU32, readU32, List.drop_drop]

/-- A word read is a word that lies there. -/
theorem take_of_readU32 {buf : List UInt8} {v : UInt32} (h : readU32 buf 0 = some v) :
    buf.take 4 = u32Bytes v := by
  unfold readU32 at h
  split at h
  · next a b c d _ heq =>
    rw [List.drop_zero] at heq
    obtain rfl := Option.some.inj h
    have ha := a.toNat_lt
    have hb := b.toNat_lt
    have hc := c.toNat_lt
    have hd := d.toNat_lt
    simp only [heq, List.take_succ_cons, List.take_zero, u32Bytes, UInt32.toNat_ofNat', List.cons.injEq, and_true]
    refine ⟨?_, ?_, ?_, ?_⟩ <;> apply UInt8.toNat_inj.mp <;> rw [UInt8.toNat_ofNat'] <;> omega
  · cases h

theorem readU32_skip (front rest : List UInt8) (offset : ℕ) :
    readU32 (front ++ rest) (front.length + offset) = readU32 rest offset := by
  unfold readU32
  rw [List.drop_append, List.drop_eq_nil_of_le (Nat.le_add_right _ _), Nat.add_sub_cancel_left,
    List.nil_append]

/-- Words one after the other, as a struct of them lies in memory. -/
def wordsBytes (ws : List UInt32) : List UInt8 := ws.flatMap u32Bytes

@[simp] theorem length_wordsBytes (ws : List UInt32) : (wordsBytes ws).length = 4 * ws.length := by
  induction ws with
  | nil => rfl
  | cons w ws ih =>
    rw [wordsBytes, List.flatMap_cons, List.length_append, ← wordsBytes, ih, List.length_cons, length_u32Bytes]
    omega

/-- The `i`-th word of a struct, whatever follows it. -/
theorem readU32_wordsBytes (ws : List UInt32) (rest : List UInt8) (i : ℕ) (h : i < ws.length) :
    readU32 (wordsBytes ws ++ rest) (4 * i) = some ws[i] := by
  induction ws generalizing i with
  | nil => exact absurd h (Nat.not_lt_zero _)
  | cons w ws ih =>
    have happ : wordsBytes (w :: ws) ++ rest = u32Bytes w ++ (wordsBytes ws ++ rest) := by
      rw [wordsBytes, List.flatMap_cons, List.append_assoc, ← wordsBytes]
    rw [happ]
    cases i with
    | zero => exact readU32_u32Bytes w _
    | succ i =>
      have hoff : 4 * (i + 1) = (u32Bytes w).length + 4 * i := by
        rw [length_u32Bytes]
        omega
      rw [hoff, readU32_skip, List.getElem_cons_succ]
      exact ih i (Nat.lt_of_succ_lt_succ h)

/-! ### Network order -/

/-- The last `n` base-256 digits of a number, most significant first. -/
def natBytes : ℕ → ℕ → List UInt8
  | 0, _ => []
  | n + 1, v => natBytes n (v / 256) ++ [UInt8.ofNat v]

/-- The digits as they are shifted out, the highest first. -/
theorem natBytes_eq_shifts (n v : ℕ) :
    natBytes n v = (List.range n).reverse.map fun i => UInt8.ofNat (v >>> (i * 8) &&& 0xFF) := by
  induction n generalizing v with
  | zero => rfl
  | succ n ih =>
    have hlast : UInt8.ofNat (v >>> (0 * 8) &&& 0xFF) = UInt8.ofNat v := by
      apply UInt8.toNat_inj.mp
      rw [Nat.zero_mul, Nat.shiftRight_zero, UInt8.toNat_ofNat', UInt8.toNat_ofNat',
        show v &&& 0xFF = v % 2 ^ 8 from Nat.and_two_pow_sub_one_eq_mod v 8, Nat.mod_mod]
    have hshift : ∀ i, (v / 256) >>> (i * 8) = v >>> ((i + 1) * 8) := by
      intro i
      rw [Nat.shiftRight_eq_div_pow, Nat.shiftRight_eq_div_pow, Nat.div_div_eq_div_mul, Nat.add_mul, Nat.pow_add,
        Nat.mul_comm (2 ^ (i * 8))]
    rw [natBytes, ih, List.range_succ_eq_map, List.reverse_cons, List.map_append, List.map_singleton, hlast,
      ← List.map_reverse, List.map_map]
    congr 1
    apply List.map_congr_left
    intro i _
    rw [hshift, Function.comp_apply]

/-- The number whose base-256 digits these are, most significant first. -/
def bytesNat (bytes : List UInt8) : ℕ := bytes.foldl (fun v b => v * 256 + b.toNat) 0

theorem bytesNat_concat (bytes : List UInt8) (b : UInt8) :
    bytesNat (bytes ++ [b]) = bytesNat bytes * 256 + b.toNat := by
  rw [bytesNat, List.foldl_append, ← bytesNat]
  rfl

theorem bytesNat_natBytes (n v : ℕ) (h : v < 256 ^ n) : bytesNat (natBytes n v) = v := by
  induction n generalizing v with
  | zero =>
    rw [Nat.pow_zero] at h
    rw [natBytes, bytesNat, List.foldl_nil]
    omega
  | succ n ih =>
    rw [Nat.pow_succ] at h
    rw [natBytes, bytesNat_concat, ih _ (Nat.div_lt_of_lt_mul (by omega)), UInt8.toNat_ofNat']
    omega

theorem bytesNat_lt (bytes : List UInt8) : bytesNat bytes < 256 ^ bytes.length := by
  induction bytes using List.reverseRecOn with
  | nil => decide
  | append_singleton bytes b ih =>
    have hb := b.toNat_lt
    rw [bytesNat_concat, List.length_append, List.length_singleton, Nat.pow_succ]
    omega

theorem natBytes_bytesNat (bytes : List UInt8) : natBytes bytes.length (bytesNat bytes) = bytes := by
  induction bytes using List.reverseRecOn with
  | nil => rfl
  | append_singleton bytes b ih =>
    have hb := b.toNat_lt
    have hdiv : (bytesNat bytes * 256 + b.toNat) / 256 = bytesNat bytes := by omega
    have hlast : UInt8.ofNat (bytesNat bytes * 256 + b.toNat) = b := by
      apply UInt8.toNat_inj.mp
      rw [UInt8.toNat_ofNat']
      omega
    rw [bytesNat_concat, List.length_append, List.length_singleton, natBytes, hdiv, ih, hlast]

@[simp] theorem length_natBytes (n v : ℕ) : (natBytes n v).length = n := by
  induction n generalizing v with
  | zero => rfl
  | succ n ih => rw [natBytes, List.length_append, ih, List.length_singleton]

/-- One more digit, as shifting writes it: over the digits already there. -/
theorem shift_or_digit (v b n : ℕ) (h : b < 256) : v <<< (n + 8) ||| b <<< n = (v * 256 + b) <<< n := by
  have hlt : b <<< n < 2 ^ (n + 8) := by
    rw [Nat.shiftLeft_eq, Nat.pow_add, Nat.mul_comm]
    exact Nat.mul_lt_mul_of_pos_left h (Nat.two_pow_pos n)
  rw [← Nat.shiftLeft_add_eq_or_of_lt hlt, Nat.shiftLeft_eq, Nat.shiftLeft_eq, Nat.shiftLeft_eq, Nat.pow_add]
  ring

/-- A byte that is shifted to its place in a word loses nothing. -/
theorem toNat_byte_shiftLeft (b : UInt8) {k : UInt32} {j : ℕ} (hj : k.toNat = j) (hle : j ≤ 24) :
    (b.toUInt32 <<< k).toNat = b.toNat <<< j := by
  have hlt : b.toNat <<< j < 2 ^ 32 := by
    calc b.toNat <<< j = b.toNat * 2 ^ j := Nat.shiftLeft_eq _ _
      _ ≤ b.toNat * 2 ^ 24 := Nat.mul_le_mul_left _ (Nat.pow_le_pow_right (by norm_num) hle)
      _ < 2 ^ 8 * 2 ^ 24 := Nat.mul_lt_mul_of_pos_right b.toNat_lt (by norm_num)
      _ = 2 ^ 32 := by norm_num
  rw [UInt32.toNat_shiftLeft, UInt8.toNat_toUInt32, hj, Nat.mod_eq_of_lt (Nat.lt_of_le_of_lt hle (by norm_num)),
    Nat.mod_eq_of_lt hlt]

/-- Four bytes put together are the word they are in network order. -/
theorem toNat_wordBytes (a b c d : UInt8) :
    (a.toUInt32 <<< 24 ||| b.toUInt32 <<< 16 ||| c.toUInt32 <<< 8 ||| d.toUInt32).toNat = bytesNat [a, b, c, d] := by
  have hfirst : a.toNat <<< 24 ||| b.toNat <<< 16 = (a.toNat * 256 + b.toNat) <<< 16 :=
    shift_or_digit a.toNat b.toNat 16 b.toNat_lt
  have hthird : (a.toNat * 256 + b.toNat) <<< 16 ||| c.toNat <<< 8 = ((a.toNat * 256 + b.toNat) * 256 + c.toNat) <<< 8 :=
    shift_or_digit (a.toNat * 256 + b.toNat) c.toNat 8 c.toNat_lt
  have hlast := shift_or_digit ((a.toNat * 256 + b.toNat) * 256 + c.toNat) d.toNat 0 d.toNat_lt
  rw [Nat.shiftLeft_zero, Nat.shiftLeft_zero, Nat.zero_add] at hlast
  rw [UInt32.toNat_or, UInt32.toNat_or, UInt32.toNat_or, toNat_byte_shiftLeft a (j := 24) rfl (by decide),
    toNat_byte_shiftLeft b (j := 16) rfl (by decide), toNat_byte_shiftLeft c (j := 8) rfl (by decide),
    UInt8.toNat_toUInt32, hfirst, hthird, hlast]
  simp only [bytesNat, List.foldl_cons, List.foldl_nil, Nat.zero_mul, Nat.zero_add]

/-! ### Blocks -/

/-- The `n` values from `offset` on, if they are all there. -/
def slice {β : Type} (buf : List β) (offset n : ℕ) : Option (List β) :=
  if offset + n ≤ buf.length then some ((buf.drop offset).take n) else none

/-- `std::vector::resize`: cut, or filled with zeros. -/
def resize {β : Type} (zero : β) (buf : List β) (n : ℕ) : List β :=
  buf.take n ++ List.replicate (n - buf.length) zero

/-- `std::memcpy` of `src` to `offset` of a buffer that has room for it. -/
def memcpy {β : Type} (buf : List β) (offset : ℕ) (src : List β) : List β :=
  buf.take offset ++ src ++ buf.drop (offset + src.length)

@[simp] theorem length_resize {β : Type} (zero : β) (buf : List β) (n : ℕ) :
    (resize zero buf n).length = n := by
  simp only [resize, List.length_append, List.length_take, List.length_replicate]
  omega

theorem length_memcpy {β : Type} (buf src : List β) (offset : ℕ)
    (h : offset + src.length ≤ buf.length) : (memcpy buf offset src).length = buf.length := by
  simp only [memcpy, List.length_append, List.length_take, List.length_drop]
  omega

/-- A block that fills the buffer from `offset` on. -/
theorem drop_memcpy {β : Type} (buf src : List β) (offset : ℕ)
    (h : offset + src.length = buf.length) : (memcpy buf offset src).drop offset = src := by
  have hlen : (buf.take offset).length = offset := by
    rw [List.length_take]
    omega
  have hend : buf.drop (offset + src.length) = [] := List.drop_eq_nil_of_le (by omega)
  rw [memcpy, hend, List.append_nil]
  exact List.drop_left' hlen

/-- A block at the front of the buffer. -/
theorem memcpy_front {β : Type} (buf src : List β) :
    memcpy buf 0 src = src ++ buf.drop src.length := by
  simp [memcpy]

/-- A loop that writes `f i` behind the first `offset` values, for `i` from 0 to `n`. -/
theorem foldl_set_range {β : Type} (front room : List β) (f : ℕ → β) (n : ℕ) (h : n ≤ room.length) :
    (List.range n).foldl (fun buf i => buf.set (front.length + i) (f i)) (front ++ room) =
      front ++ (List.range n).map f ++ room.drop n := by
  induction n with
  | zero => simp
  | succ n ih =>
    have hdrop := List.drop_eq_getElem_cons h
    rw [List.range_succ, List.foldl_append, ih (by omega), List.map_append, List.append_assoc, hdrop]
    simp only [List.foldl_cons, List.foldl_nil, List.map_cons, List.map_nil]
    rw [List.append_assoc, List.set_append_right _ _ (by omega), List.set_append_right _ _ (by simp)]
    simp only [List.length_map, List.length_range, Nat.add_sub_cancel_left, Nat.sub_self, List.set_cons_zero,
      List.append_assoc, List.cons_append, List.nil_append]

end VrxServer.Base
