import VrxServer.Base.Bits
import Mathlib.Order.Basic

/-! SHA-1 as the standard has it (FIPS 180-4).

The message is a string of bits. It is padded with a one, with as many zeros as bring it
to 64 short of whole blocks of 512, and with its length; each block is sixteen words, from
which the schedule of the eighty rounds is made. Sections are the standard's. -/
namespace VrxServer.Base.Fips180

abbrev Word := BitVec 32

/-! ### Padding (5.1.1) -/

theorem exists_zeros (l : ℕ) : ∃ k, (l + 1 + k) % 512 = 448 := ⟨(959 - l % 512) % 512, by omega⟩

/-- The least number of zeros that will do. -/
def zeros (l : ℕ) : ℕ := Nat.find (exists_zeros l)

def pad (message : List Bool) : List Bool :=
  message ++ true :: List.replicate (zeros message.length) false ++ natBits 64 message.length

/-! ### Functions and constants (4.1.1, 4.2.1) -/

def Ch (x y z : Word) : Word := (x &&& y) ^^^ (~~~x &&& z)

def Parity (x y z : Word) : Word := x ^^^ y ^^^ z

def Maj (x y z : Word) : Word := (x &&& y) ^^^ (x &&& z) ^^^ (y &&& z)

def f (t : ℕ) (x y z : Word) : Word :=
  if t ≤ 19 then Ch x y z else if t ≤ 39 then Parity x y z else if t ≤ 59 then Maj x y z else Parity x y z

def K (t : ℕ) : Word :=
  if t ≤ 19 then 0x5A827999 else if t ≤ 39 then 0x6ED9EBA1 else if t ≤ 59 then 0x8F1BBCDC else 0xCA62C1D6

/-! ### The hash computation (5.2.1, 5.3.1, 6.1.2) -/

/-- The `i`-th word of a string of bits. -/
def word (bits : List Bool) (i : ℕ) : Word := BitVec.ofNat 32 (bitsNat ((bits.drop (32 * i)).take 32))

/-- The message schedule of a block with these words. -/
def W (M : ℕ → Word) (t : ℕ) : Word :=
  if t < 16 then M t
  else (W M (t - 3) ^^^ W M (t - 8) ^^^ W M (t - 14) ^^^ W M (t - 16)).rotateLeft 1

/-- The working variables, and the five words of the hash value. -/
structure Working where
  a : Word
  b : Word
  c : Word
  d : Word
  e : Word

def initial : Working := ⟨0x67452301, 0xEFCDAB89, 0x98BADCFE, 0x10325476, 0xC3D2E1F0⟩

def round (W : ℕ → Word) (s : Working) (t : ℕ) : Working :=
  ⟨s.a.rotateLeft 5 + f t s.b s.c s.d + s.e + K t + W t, s.a, s.b.rotateLeft 30, s.c, s.d⟩

/-- A block is hashed into the value of those before it. -/
def block (M : ℕ → Word) (H : Working) : Working :=
  let s := (List.range 80).foldl (round (W M)) H
  ⟨s.a + H.a, s.b + H.b, s.c + H.c, s.d + H.d, s.e + H.e⟩

/-- The blocks of the padded message, one after another. -/
def hash (bits : List Bool) : Working :=
  (List.range (bits.length / 512)).foldl (fun H i => block (fun t => word bits (16 * i + t)) H) initial

def digestBits (H : Working) : List Bool :=
  natBits 32 H.a.toNat ++ natBits 32 H.b.toNat ++ natBits 32 H.c.toNat ++ natBits 32 H.d.toNat ++ natBits 32 H.e.toNat

def sha1 (message : List Bool) : List Bool := digestBits (hash (pad message))

/-! ### Other ways to compute it -/

/-- The zeros that are missing, in closed form. -/
theorem zeros_eq {l k : ℕ} (h : (l + 1 + k) % 512 = 448) (hlt : k < 512) : zeros l = k := by
  apply (Nat.find_eq_iff (exists_zeros l)).mpr
  exact ⟨h, fun n hn => by omega⟩

theorem W_low {M : ℕ → Word} {t : ℕ} (h : t < 16) : W M t = M t := by
  rw [W, if_pos h]

theorem W_high {M : ℕ → Word} {t : ℕ} (h : 16 ≤ t) :
    W M t = (W M (t - 3) ^^^ W M (t - 8) ^^^ W M (t - 14) ^^^ W M (t - 16)).rotateLeft 1 := by
  rw [W, if_neg (by omega)]

/-- The two parts of `Ch` have no bit in common. -/
theorem Ch_eq_or (x y z : Word) : Ch x y z = (x &&& y) ||| (~~~x &&& z) := by
  apply BitVec.eq_of_getLsbD_eq
  intro i hi
  simp only [Ch, BitVec.getLsbD_xor, BitVec.getLsbD_and, BitVec.getLsbD_or, BitVec.getLsbD_not]
  cases x.getLsbD i <;> cases y.getLsbD i <;> cases z.getLsbD i <;> simp [hi]

/-- Of three bits that agree in pairs, one pair agrees or all three do. -/
theorem Maj_eq_or (x y z : Word) : Maj x y z = (x &&& y) ||| (x &&& z) ||| (y &&& z) := by
  apply BitVec.eq_of_getLsbD_eq
  intro i _
  simp only [Maj, BitVec.getLsbD_xor, BitVec.getLsbD_and, BitVec.getLsbD_or]
  cases x.getLsbD i <;> cases y.getLsbD i <;> cases z.getLsbD i <;> rfl

end VrxServer.Base.Fips180
