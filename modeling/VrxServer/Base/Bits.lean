import VrxServer.Base.Bytes

/-! Bytes as the bits they are made of, most significant first. -/
namespace VrxServer.Base

/-- The last `n` binary digits of a number. -/
def natBits : ℕ → ℕ → List Bool
  | 0, _ => []
  | n + 1, v => natBits n (v / 2) ++ [v % 2 == 1]

/-- The number with these binary digits. -/
def bitsNat (bits : List Bool) : ℕ := bits.foldl (fun v b => v * 2 + b.toNat) 0

def bytesBits (bytes : List UInt8) : List Bool := bytes.flatMap fun b => natBits 8 b.toNat

/-! ### Numbers -/

@[simp] theorem length_natBits (n v : ℕ) : (natBits n v).length = n := by
  induction n generalizing v with
  | zero => rfl
  | succ n ih => rw [natBits, List.length_append, ih, List.length_singleton]

/-- The digits of a number are those of its upper part and those of its lower part. -/
theorem natBits_add (m n v : ℕ) : natBits (m + n) v = natBits m (v / 2 ^ n) ++ natBits n v := by
  induction n generalizing v with
  | zero => rw [Nat.pow_zero, Nat.div_one, natBits, List.append_nil, Nat.add_zero]
  | succ n ih =>
    rw [← Nat.add_assoc, natBits, natBits, ih, Nat.div_div_eq_div_mul, ← Nat.pow_succ', List.append_assoc]

theorem natBits_mod (n v : ℕ) : natBits n (v % 2 ^ n) = natBits n v := by
  induction n generalizing v with
  | zero => rfl
  | succ n ih =>
    have hlow : v % 2 ^ (n + 1) % 2 = v % 2 := Nat.mod_mod_of_dvd v (Dvd.intro_left (2 ^ n) rfl)
    have hhigh : v % 2 ^ (n + 1) / 2 = v / 2 % 2 ^ n := by
      rw [Nat.pow_succ', Nat.mod_mul_right_div_self]
    rw [natBits, natBits, hlow, hhigh, ih]

theorem bitsNat_concat (bits : List Bool) (b : Bool) : bitsNat (bits ++ [b]) = bitsNat bits * 2 + b.toNat := by
  rw [bitsNat, List.foldl_append, ← bitsNat]
  rfl

theorem bitsNat_append (a b : List Bool) : bitsNat (a ++ b) = bitsNat a * 2 ^ b.length + bitsNat b := by
  induction b using List.reverseRecOn with
  | nil => rw [List.append_nil, List.length_nil, Nat.pow_zero, Nat.mul_one, bitsNat, bitsNat, List.foldl_nil, Nat.add_zero]
  | append_singleton b c ih =>
    rw [← List.append_assoc, bitsNat_concat, bitsNat_concat, ih, List.length_append, List.length_singleton, Nat.pow_succ]
    ring

theorem bitsNat_natBits (n v : ℕ) : bitsNat (natBits n v) = v % 2 ^ n := by
  induction n generalizing v with
  | zero => rw [natBits, Nat.pow_zero, Nat.mod_one]; rfl
  | succ n ih =>
    have hbit : (v % 2 == 1).toNat = v % 2 := by
      rcases Nat.mod_two_eq_zero_or_one v with h | h <;> rw [h] <;> rfl
    rw [natBits, bitsNat_concat, ih, hbit, Nat.pow_succ', Nat.mod_mul]
    ring

/-! ### Bytes -/

theorem bytesBits_append (a b : List UInt8) : bytesBits (a ++ b) = bytesBits a ++ bytesBits b := List.flatMap_append

@[simp] theorem length_bytesBits (bytes : List UInt8) : (bytesBits bytes).length = 8 * bytes.length := by
  induction bytes with
  | nil => rfl
  | cons b bytes ih =>
    rw [bytesBits, List.flatMap_cons, List.length_append, ← bytesBits, ih, length_natBits, List.length_cons]
    ring

theorem bytesBits_replicate (n : ℕ) : bytesBits (List.replicate n 0) = List.replicate (8 * n) false := by
  induction n with
  | zero => rfl
  | succ n ih =>
    rw [List.replicate_succ', bytesBits_append, ih, Nat.mul_succ, List.replicate_add]
    rfl

theorem bytesBits_drop (bytes : List UInt8) (n : ℕ) : (bytesBits bytes).drop (8 * n) = bytesBits (bytes.drop n) := by
  conv_lhs => rw [← List.take_append_drop n bytes]
  rcases Nat.le_total n bytes.length with h | h
  · rw [bytesBits_append, List.drop_left' (by rw [length_bytesBits, List.length_take_of_le h])]
  · rw [List.drop_eq_nil_of_le h, List.append_nil, List.drop_eq_nil_of_le (by
      rw [length_bytesBits, List.length_take]
      exact Nat.mul_le_mul_left 8 (Nat.min_le_left ..))]
    rfl

theorem bytesBits_take (bytes : List UInt8) (n : ℕ) : (bytesBits bytes).take (8 * n) = bytesBits (bytes.take n) := by
  conv_lhs => rw [← List.take_append_drop n bytes]
  rcases Nat.le_total n bytes.length with h | h
  · rw [bytesBits_append, List.take_left' (by rw [length_bytesBits, List.length_take_of_le h])]
  · rw [List.drop_eq_nil_of_le h, List.append_nil, List.take_of_length_le (by
      rw [length_bytesBits, List.length_take]
      exact Nat.mul_le_mul_left 8 (Nat.min_le_left ..))]

/-- Bytes in network order are the same number as bytes and as bits. -/
theorem bitsNat_bytesBits (bytes : List UInt8) : bitsNat (bytesBits bytes) = bytesNat bytes := by
  induction bytes using List.reverseRecOn with
  | nil => rfl
  | append_singleton bytes b ih =>
    have hone : bytesBits [b] = natBits 8 b.toNat := List.append_nil _
    rw [bytesBits_append, hone, bitsNat_append, ih, length_natBits, bitsNat_natBits, bytesNat_concat,
      Nat.mod_eq_of_lt b.toNat_lt]
    rfl

/-- The digits to the base 256 have the binary digits in them. -/
theorem bytesBits_natBytes (n v : ℕ) : bytesBits (natBytes n v) = natBits (8 * n) v := by
  induction n generalizing v with
  | zero => rfl
  | succ n ih =>
    have hone : bytesBits [UInt8.ofNat v] = natBits 8 v := by
      show natBits 8 (UInt8.ofNat v).toNat ++ [] = _
      rw [List.append_nil, UInt8.toNat_ofNat', natBits_mod]
    rw [natBytes, bytesBits_append, ih, hone, Nat.mul_succ, natBits_add]
    rfl

end VrxServer.Base
