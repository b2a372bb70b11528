import ChocoBase.Error
import ChocoBase.Foundation.Bytes

/-!
# Claims of a session

What an access token says about its holder.  The time and the random bytes that
the code takes from the system are arguments.
-/

namespace ChocoBase.Auth

open ChocoBase.Foundation

def hexDigit (n : Nat) : Char := if n < 10 then Char.ofNat (48 + n) else Char.ofNat (87 + n)

/-- Two digits a byte, as `{b:02x}` writes them. -/
def hexEncode (data : Bytes) : String :=
  String.ofList (data.flatMap fun b => [hexDigit (b.toNat / 16), hexDigit (b.toNat % 16)])

theorem hexDigit_injective {a b : Nat} (ha : a < 16) (hb : b < 16)
    (h : hexDigit a = hexDigit b) : a = b := by
  have hdigits : ∀ a < 16, ∀ b < 16, hexDigit a = hexDigit b → a = b := by decide
  exact hdigits a ha b hb h

theorem hexEncode_injective : Function.Injective hexEncode := by
  intro data data' h
  replace h := String.ofList_injective h
  induction data generalizing data' with
  | nil =>
      cases data' with
      | nil => rfl
      | cons b' rest' => simp at h
  | cons b rest ih =>
      cases data' with
      | nil => simp at h
      | cons b' rest' =>
          simp only [List.flatMap_cons, List.cons_append, List.nil_append, List.cons.injEq] at h
          obtain ⟨hhigh, hlow, hrest⟩ := h
          have hb := b.toNat_lt
          have hb' := b'.toNat_lt
          have hdiv := hexDigit_injective (by omega) (by omega) hhigh
          have hmod := hexDigit_injective (by omega) (by omega) hlow
          rw [UInt8.toNat_inj.mp (by omega : b.toNat = b'.toNat), ih hrest]

def defaultJwtIssuer : String := "chocobase-auth"

def defaultJwtAudience : String := "authenticated"

structure SessionClaims where
  iss : String
  aud : String
  sub : Int64
  username : String
  role : String
  exp : UInt64
  iat : UInt64
  nbf : UInt64
  jti : Option String
  deriving DecidableEq

def SessionClaims.new (userId : Int64) (username role : String) (exp now : UInt64)
    (random : Bytes) : SessionClaims where
  iss := defaultJwtIssuer
  aud := defaultJwtAudience
  sub := userId
  username := username
  role := role
  exp := exp
  iat := now
  nbf := now
  jti := some (hexEncode random)

/-- The error of every check of a token. -/
def invalidValue (message : String) : DbError := .exec (.invalidValue message)

end ChocoBase.Auth
