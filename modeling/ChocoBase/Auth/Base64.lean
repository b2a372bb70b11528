import ChocoBase.Foundation.Bytes

/-!
# Base64 for URLs

Three bytes are written as four characters, six bits each, without padding.
-/

namespace ChocoBase.Auth

open ChocoBase.Foundation

def charset : List Char :=
  "ABCDEFGHIJKLMNOPQRSTUVWXYZabcdefghijklmnopqrstuvwxyz0123456789-_".toList

/-- The character of six bits. -/
def encodeChar (n : Nat) : Char := charset.getD n 'A'

def tripleOf (b0 b1 b2 : UInt8) : Nat := b0.toNat <<< 16 ||| b1.toNat <<< 8 ||| b2.toNat

def sextet (triple shift : Nat) : Char := encodeChar ((triple >>> shift) &&& 0x3F)

def encodeChars : Bytes → List Char
  | [] => []
  | [b0] => let triple := tripleOf b0 0 0; [sextet triple 18, sextet triple 12]
  | [b0, b1] =>
      let triple := tripleOf b0 b1 0
      [sextet triple 18, sextet triple 12, sextet triple 6]
  | b0 :: b1 :: b2 :: rest =>
      let triple := tripleOf b0 b1 b2
      sextet triple 18 :: sextet triple 12 :: sextet triple 6 :: sextet triple 0 ::
        encodeChars rest

def base64UrlEncode (input : Bytes) : String := String.ofList (encodeChars input)

def decodeChar (c : Char) : Option Nat :=
  if 'A' ≤ c ∧ c ≤ 'Z' then some (c.toNat - 65)
  else if 'a' ≤ c ∧ c ≤ 'z' then some (c.toNat - 97 + 26)
  else if '0' ≤ c ∧ c ≤ '9' then some (c.toNat - 48 + 52)
  else if c = '-' then some 62
  else if c = '_' then some 63
  else none

def quadOf (c0 c1 c2 c3 : Nat) : Nat := c0 <<< 18 ||| c1 <<< 12 ||| c2 <<< 6 ||| c3

def octet (triple shift : Nat) : UInt8 := UInt8.ofNat ((triple >>> shift) &&& 0xFF)

def decodeChars : List Char → Option Bytes
  | [] => some []
  | [x0] => do
      let c0 ← decodeChar x0
      return [octet (quadOf c0 0 0 0) 16]
  | [x0, x1] => do
      let c0 ← decodeChar x0
      let c1 ← decodeChar x1
      return [octet (quadOf c0 c1 0 0) 16]
  | [x0, x1, x2] => do
      let c0 ← decodeChar x0
      let c1 ← decodeChar x1
      let c2 ← decodeChar x2
      let triple := quadOf c0 c1 c2 0
      return [octet triple 16, octet triple 8]
  | x0 :: x1 :: x2 :: x3 :: rest => do
      let c0 ← decodeChar x0
      let c1 ← decodeChar x1
      let c2 ← decodeChar x2
      let c3 ← decodeChar x3
      let triple := quadOf c0 c1 c2 c3
      return octet triple 16 :: octet triple 8 :: octet triple 0 :: (← decodeChars rest)

def base64UrlDecode (input : String) : Option Bytes := decodeChars input.toList

/-! ## Round trip -/

set_option maxRecDepth 8000 in
theorem decodeChar_encodeChar {n : Nat} (h : n < 64) : decodeChar (encodeChar n) = some n := by
  have hall : ∀ n < 64, decodeChar (encodeChar n) = some n := by decide
  exact hall n h

theorem tripleOf_eq (b0 b1 b2 : UInt8) :
    tripleOf b0 b1 b2 = b0.toNat * 65536 + b1.toNat * 256 + b2.toNat := by
  have h1 := b1.toNat_lt
  have h2 := b2.toNat_lt
  have low : b1.toNat <<< 8 ||| b2.toNat = b1.toNat * 256 + b2.toNat := by
    rw [← Nat.shiftLeft_add_eq_or_of_lt h2, Nat.shiftLeft_eq]
  rw [tripleOf, Nat.or_assoc, low, ← Nat.shiftLeft_add_eq_or_of_lt (by omega), Nat.shiftLeft_eq]
  omega

theorem quadOf_eq {c0 c1 c2 c3 : Nat} (h1 : c1 < 64) (h2 : c2 < 64) (h3 : c3 < 64) :
    quadOf c0 c1 c2 c3 = c0 * 262144 + c1 * 4096 + c2 * 64 + c3 := by
  have low : c2 <<< 6 ||| c3 = c2 * 64 + c3 := by
    rw [← Nat.shiftLeft_add_eq_or_of_lt h3, Nat.shiftLeft_eq]
  have mid : c1 <<< 12 ||| (c2 * 64 + c3) = c1 * 4096 + (c2 * 64 + c3) := by
    rw [← Nat.shiftLeft_add_eq_or_of_lt (by omega), Nat.shiftLeft_eq]
  rw [quadOf, Nat.or_assoc, Nat.or_assoc, low, mid, ← Nat.shiftLeft_add_eq_or_of_lt (by omega),
    Nat.shiftLeft_eq]
  omega

theorem sextet_eq (triple shift : Nat) :
    sextet triple shift = encodeChar (triple / 2 ^ shift % 64) := by
  rw [sextet, Nat.shiftRight_eq_div_pow, Nat.and_two_pow_sub_one_eq_mod _ 6]

theorem decodeChar_sextet (triple shift : Nat) :
    decodeChar (sextet triple shift) = some (triple / 2 ^ shift % 64) := by
  rw [sextet_eq, decodeChar_encodeChar (Nat.mod_lt _ (by omega))]

theorem octet_eq {triple shift : Nat} {b : UInt8} (h : triple / 2 ^ shift % 256 = b.toNat) :
    octet triple shift = b := by
  rw [octet, Nat.shiftRight_eq_div_pow, Nat.and_two_pow_sub_one_eq_mod _ 8, h]
  exact UInt8.ofNat_toNat

theorem decodeChars_encodeChars (input : Bytes) : decodeChars (encodeChars input) = some input := by
  induction input using encodeChars.induct with
  | case1 => rfl
  | case2 b0 =>
      have h0 := b0.toNat_lt
      have hz : (0 : UInt8).toNat = 0 := rfl
      simp only [encodeChars, decodeChars, decodeChar_sextet, Option.bind_eq_bind,
        Option.bind_some, Option.pure_def]
      rw [octet_eq]
      rw [quadOf_eq (by omega) (by omega) (by omega), tripleOf_eq]
      omega
  | case3 b0 b1 =>
      have h0 := b0.toNat_lt
      have h1 := b1.toNat_lt
      have hz : (0 : UInt8).toNat = 0 := rfl
      simp only [encodeChars, decodeChars, decodeChar_sextet, Option.bind_eq_bind,
        Option.bind_some, Option.pure_def]
      rw [octet_eq (b := b0), octet_eq (b := b1)] <;>
        rw [quadOf_eq (by omega) (by omega) (by omega), tripleOf_eq] <;> omega
  | case4 b0 b1 b2 rest ih =>
      have h0 := b0.toNat_lt
      have h1 := b1.toNat_lt
      have h2 := b2.toNat_lt
      simp only [encodeChars, decodeChars, decodeChar_sextet, Option.bind_eq_bind,
        Option.bind_some, Option.pure_def, ih]
      rw [octet_eq (b := b0), octet_eq (b := b1), octet_eq (b := b2)] <;>
        rw [quadOf_eq (by omega) (by omega) (by omega), tripleOf_eq] <;> omega

theorem base64UrlDecode_encode (input : Bytes) :
    base64UrlDecode (base64UrlEncode input) = some input := by
  rw [base64UrlDecode, base64UrlEncode, String.toList_ofList, decodeChars_encodeChars]

theorem base64UrlEncode_injective : Function.Injective base64UrlEncode := by
  intro input input' h
  have hdecode := congrArg base64UrlDecode h
  rw [base64UrlDecode_encode, base64UrlDecode_encode] at hdecode
  exact Option.some.inj hdecode

theorem dot_not_mem_encode (input : Bytes) : '.' ∉ (base64UrlEncode input).toList := by
  have hchar : ∀ n < 64, encodeChar n ≠ '.' := by
    intro n hn heq
    have hdecode := decodeChar_encodeChar hn
    rw [heq] at hdecode
    cases hdecode
  have hsextet : ∀ triple shift, '.' ≠ sextet triple shift := by
    intro triple shift
    rw [sextet_eq]
    exact (hchar _ (Nat.mod_lt _ (by omega))).symm
  rw [base64UrlEncode, String.toList_ofList]
  induction input using encodeChars.induct with
  | case1 => simp [encodeChars]
  | case2 b0 => simp [encodeChars, hsextet]
  | case3 b0 b1 => simp [encodeChars, hsextet]
  | case4 b0 b1 b2 rest ih => simp [encodeChars, hsextet, ih]

end ChocoBase.Auth
