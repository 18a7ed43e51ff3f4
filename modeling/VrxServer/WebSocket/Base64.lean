import VrxServer.Base.Rfc4648
import VrxServer.WebSocket.Sha1

/-! Base64, and the value a server proves with that it read the client's key.

The encoder takes its digits out of one 24-bit number with shifts and masks, whatever is
left of the data. It is the standard's encoding all the same (`base64Encode_eq`), so that
the value can be compared in place of the digest (`base64Encode_standard`). -/
namespace VrxServer.WebSocket
open Base

/-- A string's bytes. -/
def ascii (s : String) : List UInt8 := s.toUTF8.data.toList

def kTable : List UInt8 := ascii "ABCDEFGHIJKLMNOPQRSTUVWXYZabcdefghijklmnopqrstuvwxyz0123456789+/"

/-- `kTable[(n >> k) & 0x3F]`. -/
def sextet (n k : UInt32) : UInt8 := kTable.getD (n >>> k &&& 0x3F).toNat 0

def base64Encode : List UInt8 → List UInt8
  | a :: b :: c :: data =>
    let n := a.toUInt32 <<< 16 ||| b.toUInt32 <<< 8 ||| c.toUInt32
    sextet n 18 :: sextet n 12 :: sextet n 6 :: sextet n 0 :: base64Encode data
  | [a, b] =>
    let n := a.toUInt32 <<< 16 ||| b.toUInt32 <<< 8
    [sextet n 18, sextet n 12, sextet n 6] ++ ascii "="
  | [a] =>
    let n := a.toUInt32 <<< 16
    [sextet n 18, sextet n 12] ++ ascii "=="
  | [] => []

def kMagicGuid : List UInt8 := ascii "258EAFA5-E914-47DA-95CA-C5AB0DC85B11"

/-- `expected`, in `connect`. -/
def expectedAccept (key : List UInt8) : Option (List UInt8) := (sha1 (key ++ kMagicGuid)).map base64Encode

theorem base64Encode_ne_nil {data : List UInt8} (h : data ≠ []) : base64Encode data ≠ [] := by
  match data with
  | [] => exact absurd rfl h
  | [_] | [_, _] | _ :: _ :: _ :: _ => exact List.cons_ne_nil _ _

/-- Whatever the key, there is a value to compare with, and it is not empty. -/
theorem expectedAccept_defined (key : List UInt8) : ∃ expected, expectedAccept key = some expected ∧ expected ≠ [] := by
  obtain ⟨digest, hdigest, hlen⟩ := sha1_defined (key ++ kMagicGuid)
  refine ⟨base64Encode digest, by rw [expectedAccept, hdigest, Option.map_some], base64Encode_ne_nil ?_⟩
  intro hnil
  rw [hnil] at hlen
  cases hlen

/-- The key of the standard's example. -/
def sampleKey : List UInt8 := ascii "dGhlIHNhbXBsZSBub25jZQ=="

theorem expectedAccept_sample : expectedAccept sampleKey = some (ascii "s3pPLMBiTxaQ9kYGzzhZRbK+xOo=") := by
  simp only [expectedAccept, sha1, padMessage, padZeros_eq]
  decide +kernel

/-! ### The standard's encoding -/

theorem kTable_getD {i : ℕ} (h : i < 64) : kTable.getD i 0 = Rfc4648.digit i := by
  have hall : ∀ i < 64, kTable.getD i 0 = Rfc4648.digit i := by decide +kernel
  exact hall i h

/-- A digit of the number, counted in bits from the right. -/
theorem sextet_eq {n k : UInt32} {j : ℕ} (hj : k.toNat = j) (hlt : j < 32) :
    sextet n k = Rfc4648.digit (n.toNat / 2 ^ j % 64) := by
  have hmask : (n >>> k &&& 0x3F).toNat = n.toNat / 2 ^ j % 64 := by
    rw [UInt32.toNat_and, UInt32.toNat_shiftRight, hj, Nat.mod_eq_of_lt hlt, Nat.shiftRight_eq_div_pow]
    exact Nat.and_two_pow_sub_one_eq_mod _ 6
  rw [sextet, hmask, kTable_getD (Nat.mod_lt _ (by norm_num))]

/-- Three bytes put together. -/
theorem toNat_group (a b c : UInt8) : (a.toUInt32 <<< 16 ||| b.toUInt32 <<< 8 ||| c.toUInt32).toNat =
    a.toNat * 65536 + b.toNat * 256 + c.toNat := by
  have hword := toNat_wordBytes 0 a b c
  rw [show (0 : UInt8).toUInt32 <<< 24 = 0 from rfl, UInt32.zero_or] at hword
  rw [hword]
  simp only [bytesNat, List.foldl_cons, List.foldl_nil, UInt8.toNat_zero, Nat.zero_mul, Nat.zero_add]
  ring

theorem toNat_pair (a b : UInt8) : (a.toUInt32 <<< 16 ||| b.toUInt32 <<< 8).toNat = a.toNat * 65536 + b.toNat * 256 := by
  have hgroup := toNat_group a b 0
  rwa [show (0 : UInt8).toUInt32 = 0 from rfl, UInt32.or_zero, UInt8.toNat_zero, Nat.add_zero] at hgroup

theorem toNat_single (a : UInt8) : (a.toUInt32 <<< 16).toNat = a.toNat * 65536 := by
  have hpair := toNat_pair a 0
  rwa [show (0 : UInt8).toUInt32 <<< 8 = 0 from rfl, UInt32.or_zero, UInt8.toNat_zero, Nat.zero_mul, Nat.add_zero] at hpair

/-- **The encoder is the standard's.** -/
theorem base64Encode_eq (data : List UInt8) : base64Encode data = Rfc4648.encode data := by
  have h18 : ∀ n, sextet n 18 = Rfc4648.digit (n.toNat / 2 ^ 18 % 64) := fun _ => sextet_eq rfl (by norm_num)
  have h12 : ∀ n, sextet n 12 = Rfc4648.digit (n.toNat / 2 ^ 12 % 64) := fun _ => sextet_eq rfl (by norm_num)
  have h6 : ∀ n, sextet n 6 = Rfc4648.digit (n.toNat / 2 ^ 6 % 64) := fun _ => sextet_eq rfl (by norm_num)
  have h0 : ∀ n, sextet n 0 = Rfc4648.digit (n.toNat / 2 ^ 0 % 64) := fun _ => sextet_eq rfl (by norm_num)
  induction data using base64Encode.induct with
  | case1 a b c data ih =>
    have ha := a.toNat_lt
    have hb := b.toNat_lt
    have hc := c.toNat_lt
    simp only [base64Encode, Rfc4648.encode, ih, h18, h12, h6, h0, toNat_group, List.cons.injEq, and_true]
    exact ⟨congrArg _ (by omega), congrArg _ (by omega), congrArg _ (by omega), congrArg _ (by omega)⟩
  | case2 a b =>
    have ha := a.toNat_lt
    have hb := b.toNat_lt
    simp only [base64Encode, Rfc4648.encode, h18, h12, h6, toNat_pair, List.cons_append, List.cons.injEq]
    exact ⟨congrArg _ (by omega), congrArg _ (by omega), congrArg _ (by omega), by decide +kernel⟩
  | case3 a =>
    have ha := a.toNat_lt
    simp only [base64Encode, Rfc4648.encode, h18, h12, toNat_single, List.cons_append, List.cons.injEq]
    exact ⟨congrArg _ (by omega), congrArg _ (by omega), by decide +kernel⟩
  | case4 => rfl

/-- **The encoder is base64**: whole groups of digits with the padding at the end, which the
standard's decoder takes back, so that the value the server is to send is compared as the
digest in it would be. -/
theorem base64Encode_standard (data : List UInt8) :
    (base64Encode data).length = 4 * ((data.length + 2) / 3) ∧
      (∃ digits, base64Encode data = digits ++ List.replicate ((3 - data.length % 3) % 3) Rfc4648.pad ∧
        ∀ c ∈ digits, Rfc4648.value c ≠ none) ∧
      Rfc4648.decode (base64Encode data) = some data ∧
      (∀ other, base64Encode other = base64Encode data ↔ other = data) ∧
      ∀ key accept, expectedAccept key = some accept ↔ Rfc4648.decode accept = sha1 (key ++ kMagicGuid) := by
  rw [base64Encode_eq]
  refine ⟨Rfc4648.length_encode data, Rfc4648.encode_padded data, Rfc4648.decode_encode data, ?_, ?_⟩
  · intro other
    rw [base64Encode_eq, Rfc4648.encode_injective.eq_iff]
  · intro key accept
    obtain ⟨digest, hdigest, -⟩ := sha1_defined (key ++ kMagicGuid)
    rw [expectedAccept, hdigest, Option.map_some, Option.some_inj, base64Encode_eq]
    constructor
    · intro h
      rw [← h]
      exact Rfc4648.decode_encode digest
    · exact Rfc4648.encode_decode

end VrxServer.WebSocket
