import Mathlib.Algebra.Order.Floor.Ring
import Mathlib.Data.List.TakeWhile
import Mathlib.Data.Rat.Floor
import Mathlib.Tactic.FieldSimp
import Mathlib.Tactic.Linarith
import Mathlib.Tactic.Positivity
import Mathlib.Tactic.Ring

/-! Numbers in decimal, as they are written and as they are read.

Whole numbers are written exactly. A number with a fixed count of places is the nearest one that
has them, the even one of two as near; so what is read back is off by half a unit of the last
place at most (`readNumber_fixed_error`), and not at all where the number has no more places. -/
namespace VrxServer.Base

/-! ### Writing -/

/-- `std::to_string`, of an unsigned number. -/
def decimal (n : ℕ) : List UInt8 := (Nat.toDigits 10 n).map fun c => UInt8.ofNat c.toNat

/-- `std::to_string`, of a signed number. -/
def signedDecimal (z : ℤ) : List UInt8 := (if z < 0 then [0x2D] else []) ++ decimal z.natAbs

/-- Exactly this many digits, for a number that has no more. -/
def padded (digits n : ℕ) : List UInt8 := List.replicate (digits - (decimal n).length) 0x30 ++ decimal n

section
variable {K : Type} [Field K] [LinearOrder K] [FloorRing K]

/-- The nearest whole number, of two the even one. -/
def roundHalfEven (x : K) : ℤ :=
  if Int.fract x < 1 / 2 then ⌊x⌋
  else if 1 / 2 < Int.fract x then ⌊x⌋ + 1
  else if Even ⌊x⌋ then ⌊x⌋ else ⌊x⌋ + 1

/-- With this many places behind the point. -/
def fixed (places : ℕ) (x : K) : List UInt8 :=
  let n := (roundHalfEven (|x| * 10 ^ places)).toNat
  (if x < 0 then [0x2D] else []) ++ decimal (n / 10 ^ places) ++ 0x2E :: padded places (n % 10 ^ places)

end

/-! ### Reading -/

def readNat (text : List UInt8) : ℕ := Nat.ofDigitChars 10 (text.map fun c => Char.ofNat c.toNat) 0

section
variable {K : Type} [Field K]

/-- Digits, and maybe a point and more digits. -/
def readMagnitude (text : List UInt8) : K :=
  let places := (text.dropWhile (· != 0x2E)).tail
  readNat (text.takeWhile (· != 0x2E)) + readNat places / 10 ^ places.length

def readNumber : List UInt8 → K
  | [] => readMagnitude []
  | c :: text => if c = 0x2D then -readMagnitude text else readMagnitude (c :: text)

end

/-! ### Whole numbers -/

theorem decimal_digit {n : ℕ} {c : UInt8} (h : c ∈ decimal n) : 0x30 ≤ c ∧ c ≤ 0x39 := by
  obtain ⟨d, hd, rfl⟩ := List.mem_map.mp h
  have hdigit := Nat.isDigit_of_mem_toDigits (by decide) (by decide) hd
  simp only [Char.isDigit, Bool.and_eq_true, decide_eq_true_eq, UInt32.le_iff_toNat_le, ge_iff_le] at hdigit
  obtain ⟨hlow, hhigh⟩ : 48 ≤ d.toNat ∧ d.toNat ≤ 57 := hdigit
  rw [UInt8.le_iff_toNat_le, UInt8.le_iff_toNat_le, UInt8.toNat_ofNat']
  simp only [UInt8.reduceToNat]
  omega

/-- The digits as characters, read off their bytes. -/
theorem map_decimal (n : ℕ) : (decimal n).map (fun c => Char.ofNat c.toNat) = Nat.toDigits 10 n := by
  rw [decimal, List.map_map]
  conv_rhs => rw [← List.map_id (Nat.toDigits 10 n)]
  refine List.map_congr_left fun c hc => ?_
  have hdigit := Nat.isDigit_of_mem_toDigits (by decide) (by decide) hc
  simp only [Char.isDigit, Bool.and_eq_true, decide_eq_true_eq, UInt32.le_iff_toNat_le, ge_iff_le] at hdigit
  obtain ⟨-, hhigh⟩ : 48 ≤ c.toNat ∧ c.toNat ≤ 57 := hdigit
  rw [Function.comp_apply, UInt8.toNat_ofNat', Nat.mod_eq_of_lt (by omega), Char.ofNat_toNat, id]

theorem readNat_decimal (n : ℕ) : readNat (decimal n) = n := by
  rw [readNat, map_decimal, Nat.ofDigitChars_ten_toDigits]

theorem readNat_padded (digits n : ℕ) : readNat (padded digits n) = n := by
  have hzero : ∀ k, (List.replicate k (0x30 : UInt8)).map (fun c => Char.ofNat c.toNat) = List.replicate k '0' := by
    intro k
    rw [List.map_replicate]
    rfl
  rw [readNat, padded, List.map_append, hzero, map_decimal, Nat.ofDigitChars_append, Nat.ofDigitChars_replicate_zero,
    Nat.mul_zero, Nat.ofDigitChars_ten_toDigits]

theorem length_padded {digits n : ℕ} (hdigits : 0 < digits) (h : n < 10 ^ digits) : (padded digits n).length = digits := by
  have hlen : (decimal n).length ≤ digits := by
    rw [decimal, List.length_map, Nat.length_toDigits_le_iff (by decide) hdigits]
    exact h
  rw [padded, List.length_append, List.length_replicate]
  omega

theorem padded_digit {digits n : ℕ} {c : UInt8} (h : c ∈ padded digits n) : 0x30 ≤ c ∧ c ≤ 0x39 := by
  rcases List.mem_append.mp h with h | h
  · rw [List.eq_of_mem_replicate h]
    decide
  · exact decimal_digit h

theorem padded_zero_digit {places n : ℕ} (hplaces : 0 < places) :
    (padded places (n % 10 ^ places)).length = places :=
  length_padded hplaces (Nat.mod_lt _ (by positivity))

theorem no_point {text : List UInt8} (h : ∀ c ∈ text, 0x30 ≤ c ∧ c ≤ 0x39) : ∀ c ∈ text, (c != 0x2E) = true := by
  intro c hc
  rw [bne_iff_ne]
  rintro rfl
  exact absurd (h _ hc) (by decide)

section
variable {K : Type} [Field K]

/-- Digits alone are a whole number. -/
theorem readMagnitude_digits {text : List UInt8} (h : ∀ c ∈ text, 0x30 ≤ c ∧ c ≤ 0x39) :
    (readMagnitude text : K) = readNat text := by
  have hwhole : text.takeWhile (· != 0x2E) = text := List.takeWhile_eq_self_iff.mpr (no_point h)
  have hnone : text.dropWhile (· != 0x2E) = [] := List.dropWhile_eq_nil_iff.mpr (no_point h)
  simp only [readMagnitude, hwhole, hnone, List.tail_nil, List.length_nil, pow_zero, div_one]
  simp [readNat]

theorem readMagnitude_point {whole places : List UInt8} (hwhole : ∀ c ∈ whole, 0x30 ≤ c ∧ c ≤ 0x39) :
    (readMagnitude (whole ++ 0x2E :: places) : K) = readNat whole + readNat places / 10 ^ places.length := by
  have htake : (whole ++ 0x2E :: places).takeWhile (· != 0x2E) = whole := by
    rw [List.takeWhile_append_of_pos (no_point hwhole)]
    simp
  have hdrop : (whole ++ 0x2E :: places).dropWhile (· != 0x2E) = 0x2E :: places := by
    rw [List.dropWhile_append_of_pos (no_point hwhole)]
    simp
  simp only [readMagnitude, htake, hdrop, List.tail_cons]

/-- A sign in front of digits. -/
theorem readNumber_sign (negative : Prop) [Decidable negative] {text : List UInt8}
    (hhead : ∀ c, text.head? = some c → 0x30 ≤ c ∧ c ≤ 0x39) :
    (readNumber ((if negative then [0x2D] else []) ++ text) : K) =
      if negative then -readMagnitude text else readMagnitude text := by
  split
  · rw [List.singleton_append, readNumber, if_pos rfl]
  · rw [List.nil_append]
    cases text with
    | nil => rfl
    | cons c text =>
      rw [readNumber, if_neg]
      rintro rfl
      exact absurd (hhead _ rfl) (by decide)

theorem decimal_head (n : ℕ) (rest : List UInt8) :
    ∀ c, (decimal n ++ rest).head? = some c → 0x30 ≤ c ∧ c ≤ 0x39 := by
  intro c hc
  have hne : decimal n ≠ [] := by
    rw [decimal, Ne, List.map_eq_nil_iff]
    exact Nat.toDigits_ne_nil
  rw [List.head?_append_of_ne_nil _ hne] at hc
  exact decimal_digit (List.mem_of_head? hc)

/-- **A whole number is read as it was written.** -/
theorem readNumber_signedDecimal (z : ℤ) : (readNumber (signedDecimal z) : K) = z := by
  have hhead := decimal_head z.natAbs []
  rw [List.append_nil] at hhead
  rw [signedDecimal, readNumber_sign _ hhead, readMagnitude_digits fun _ => decimal_digit, readNat_decimal]
  split
  · next hneg =>
    have habs : (z.natAbs : ℤ) = -z := Int.ofNat_natAbs_of_nonpos hneg.le
    have hcast : ((z.natAbs : ℤ) : K) = ((-z : ℤ) : K) := congrArg _ habs
    rw [Int.cast_natCast, Int.cast_neg] at hcast
    rw [hcast, neg_neg]
  · next hpos =>
    have habs : (z.natAbs : ℤ) = z := Int.natAbs_of_nonneg (not_lt.mp hpos)
    have hcast : ((z.natAbs : ℤ) : K) = (z : K) := congrArg _ habs
    rwa [Int.cast_natCast] at hcast

theorem readNumber_decimal (n : ℕ) : (readNumber (decimal n) : K) = n := by
  have hsigned : signedDecimal n = decimal n := by
    rw [signedDecimal, if_neg (by omega), List.nil_append, Int.natAbs_natCast]
  rw [← hsigned, readNumber_signedDecimal, Int.cast_natCast]

end

/-! ### Places -/

section
variable {K : Type} [Field K] [LinearOrder K] [IsStrictOrderedRing K] [FloorRing K]

theorem roundHalfEven_error (x : K) : |(roundHalfEven x : K) - x| ≤ 1 / 2 := by
  have hfract := Int.self_sub_floor x
  have hnonneg := Int.fract_nonneg x
  have hlt := Int.fract_lt_one x
  unfold roundHalfEven
  split
  · rw [abs_le]
    constructor <;> linarith
  · next hlow =>
    split
    · rw [Int.cast_add, Int.cast_one, abs_le]
      constructor <;> linarith
    · next hhigh =>
      split
      · rw [abs_le]
        constructor <;> linarith
      · rw [Int.cast_add, Int.cast_one, abs_le]
        constructor <;> linarith

@[simp] theorem roundHalfEven_intCast (z : ℤ) : roundHalfEven (z : K) = z := by
  rw [roundHalfEven, Int.fract_intCast, if_pos (by norm_num), Int.floor_intCast]

omit [IsStrictOrderedRing K] in
theorem roundHalfEven_nonneg {x : K} (h : 0 ≤ x) : 0 ≤ roundHalfEven x := by
  have hfloor : 0 ≤ ⌊x⌋ := Int.floor_nonneg.mpr h
  unfold roundHalfEven
  split
  · exact hfloor
  · split
    · omega
    · split <;> omega

/-- What is read is the number that was rounded to. -/
theorem readNumber_fixed {places : ℕ} (hplaces : 0 < places) (x : K) :
    (readNumber (fixed places x) : K) =
      (if x < 0 then -1 else 1) * (roundHalfEven (|x| * 10 ^ places) / 10 ^ places) := by
  have hscale : (0 : K) < 10 ^ places := by positivity
  have hnonneg : 0 ≤ roundHalfEven (|x| * 10 ^ places) := roundHalfEven_nonneg (by positivity)
  obtain ⟨n, hn⟩ := Int.eq_ofNat_of_zero_le hnonneg
  have hsplit : ((n / 10 ^ places : ℕ) : K) + ((n % 10 ^ places : ℕ) : K) / 10 ^ places = n / 10 ^ places := by
    have hdiv : ((10 ^ places * (n / 10 ^ places) + n % 10 ^ places : ℕ) : K) = n := by rw [Nat.div_add_mod]
    rw [Nat.cast_add, Nat.cast_mul, Nat.cast_pow, Nat.cast_ofNat] at hdiv
    rw [eq_div_iff hscale.ne', add_mul, div_mul_cancel₀ _ hscale.ne', mul_comm]
    exact hdiv
  simp only [fixed, hn, Int.toNat_natCast, List.append_assoc]
  rw [readNumber_sign _ (decimal_head _ _), readMagnitude_point fun _ => decimal_digit, readNat_decimal, readNat_padded,
    padded_zero_digit hplaces, hsplit, Int.cast_natCast]
  split
  · rw [neg_one_mul]
  · rw [one_mul]

/-- **What is read is off by half a unit of the last place at most.** -/
theorem readNumber_fixed_error {places : ℕ} (hplaces : 0 < places) (x : K) :
    |(readNumber (fixed places x) : K) - x| ≤ 1 / 2 / 10 ^ places := by
  have hscale : (0 : K) < 10 ^ places := by positivity
  have herror := roundHalfEven_error (|x| * 10 ^ places)
  have hmagnitude : abs ((roundHalfEven (|x| * 10 ^ places) : K) / 10 ^ places - |x|) ≤ 1 / 2 / 10 ^ places := by
    rw [le_div_iff₀ hscale]
    calc abs ((roundHalfEven (|x| * 10 ^ places) : K) / 10 ^ places - |x|) * 10 ^ places
        = |((roundHalfEven (|x| * 10 ^ places) : K) / 10 ^ places - |x|) * 10 ^ places| := by
          rw [abs_mul, abs_of_pos hscale]
      _ = |(roundHalfEven (|x| * 10 ^ places) : K) - |x| * 10 ^ places| := by
          rw [sub_mul, div_mul_cancel₀ _ hscale.ne']
      _ ≤ 1 / 2 := herror
  rw [readNumber_fixed hplaces]
  split
  · next hneg =>
    rw [abs_of_neg hneg] at hmagnitude ⊢
    rw [← abs_neg]
    calc |-(-1 * ((roundHalfEven (-x * 10 ^ places) : K) / 10 ^ places) - x)|
        = |(roundHalfEven (-x * 10 ^ places) : K) / 10 ^ places - -x| := by
          congr 1
          ring
      _ ≤ 1 / 2 / 10 ^ places := hmagnitude
  · next hpos =>
    rw [abs_of_nonneg (not_lt.mp hpos)] at hmagnitude ⊢
    rwa [one_mul]

end

end VrxServer.Base
