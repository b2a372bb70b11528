import ChocoBase.Auth.Claims
import ChocoBase.Auth.Jwt
import ChocoBase.Foundation.Separated
import ChocoBase.Http.StorageRoutes

/-!
# Signed download URLs

A token is the code of bucket, key and expiry, joined by colons.  Buckets and keys may have
colons of their own, and then another bucket and key have the same token.
-/

namespace ChocoBase.Http

open ChocoBase.Foundation ChocoBase.Auth ChocoBase.Types

section Tokens

variable (hmacSha256 : (data secret : Bytes) → Bytes)

def signedPayload (bucket key : String) (expiresAt : UInt64) : String :=
  bucket ++ ":" ++ key ++ ":" ++ toString expiresAt.toNat

def signDownloadToken (bucket key : String) (expiresAt : UInt64) (secret : Bytes) : String :=
  hexEncode (hmacSha256 (utf8 (signedPayload bucket key expiresAt)) secret)

def verifyDownloadSignature (now : UInt64) (bucket key : String) (expiresAt : UInt64)
    (token : String) (secret : Bytes) : Bool :=
  if expiresAt ≤ now then false
  else utf8 token = utf8 (signDownloadToken hmacSha256 bucket key expiresAt secret)

/-- Under one secret, no two texts have the same code. -/
def CollisionFree (secret : Bytes) : Prop :=
  Function.Injective fun data => hmacSha256 data secret

/-- The token of one object and expiry opens no other. -/
def OpensOnlyItself (now : UInt64) (secret : Bytes) (bucket key : String) (expiresAt : UInt64) :
    Prop :=
  ∀ bucket' key' expiresAt', verifyDownloadSignature hmacSha256 now bucket' key' expiresAt'
      (signDownloadToken hmacSha256 bucket key expiresAt secret) secret = true →
    bucket' = bucket ∧ key' = key ∧ expiresAt' = expiresAt

end Tokens

/-! ## What a payload says -/

theorem signedPayload_toList (bucket key : String) (expiresAt : UInt64) :
    (signedPayload bucket key expiresAt).toList =
      (bucket.toList ++ ':' :: key.toList) ++ ':' :: (toString expiresAt.toNat).toList := by
  simp [signedPayload]

/-- The expiry stands behind the last colon. -/
theorem signedPayload_inj {bucket key bucket' key' : String} {expiresAt expiresAt' : UInt64} :
    signedPayload bucket' key' expiresAt' = signedPayload bucket key expiresAt ↔
      bucket'.toList ++ ':' :: key'.toList = bucket.toList ++ ':' :: key.toList ∧
        expiresAt' = expiresAt := by
  rw [← String.toList_inj, signedPayload_toList, signedPayload_toList]
  constructor
  · intro h
    obtain ⟨hfront, htime⟩ := Separated.append_last_inj
      (Separated.notMem_toString (by decide) _) (Separated.notMem_toString (by decide) _) h
    exact ⟨hfront, UInt64.toNat_inj.mp (Separated.toString_inj htime)⟩
  · rintro ⟨hfront, rfl⟩
    rw [hfront]

section Tokens

variable {hmacSha256 : (data secret : Bytes) → Bytes} {secret : Bytes}

theorem verify_iff (h : CollisionFree hmacSha256 secret) {now expiresAt expiresAt' : UInt64}
    {bucket key bucket' key' : String} :
    verifyDownloadSignature hmacSha256 now bucket' key' expiresAt'
        (signDownloadToken hmacSha256 bucket key expiresAt secret) secret = true ↔
      ¬expiresAt ≤ now ∧ bucket'.toList ++ ':' :: key'.toList = bucket.toList ++ ':' :: key.toList ∧
        expiresAt' = expiresAt := by
  have htoken : utf8 (signDownloadToken hmacSha256 bucket key expiresAt secret) =
      utf8 (signDownloadToken hmacSha256 bucket' key' expiresAt' secret) ↔
        signedPayload bucket' key' expiresAt' = signedPayload bucket key expiresAt := by
    refine ⟨fun heq => ?_, fun heq => by rw [signDownloadToken, signDownloadToken, heq]⟩
    exact utf8_injective (h (hexEncode_injective (utf8_injective heq))).symm
  rw [verifyDownloadSignature]
  split
  · next hexpired =>
      refine iff_of_false Bool.false_ne_true ?_
      rintro ⟨hvalid, -, hsame⟩
      exact hvalid (hsame ▸ hexpired)
  · next hvalid =>
      rw [decide_eq_true_eq, htoken, signedPayload_inj]
      refine ⟨fun hboth => ⟨?_, hboth⟩, fun hall => hall.2⟩
      rw [← hboth.2]
      exact hvalid

/-- A token opens nothing else if it has expired, or has no colon in bucket and key. -/
theorem signed_url_separate_iff (h : CollisionFree hmacSha256 secret) (now : UInt64)
    (bucket key : String) (expiresAt : UInt64) :
    OpensOnlyItself hmacSha256 now secret bucket key expiresAt ↔
      expiresAt ≤ now ∨ ':' ∉ bucket.toList ∧ ':' ∉ key.toList := by
  by_cases hexpired : expiresAt ≤ now
  · refine iff_of_true (fun bucket' key' expiresAt' hverify => ?_) (.inl hexpired)
    exact absurd hexpired ((verify_iff h).mp hverify).1
  · rw [or_iff_right hexpired, ← Separated.joinsUniquely_iff]
    constructor
    · intro honly x y hxy
      obtain ⟨hbucket, hkey, -⟩ := honly (String.ofList x) (String.ofList y) expiresAt
        ((verify_iff h).mpr ⟨hexpired, by simpa using hxy, rfl⟩)
      exact ⟨by rw [← hbucket, String.toList_ofList], by rw [← hkey, String.toList_ofList]⟩
    · intro hunique bucket' key' expiresAt' hverify
      obtain ⟨-, hjoined, htime⟩ := (verify_iff h).mp hverify
      obtain ⟨hbucket, hkey⟩ := hunique _ _ hjoined
      exact ⟨String.toList_inj.mp hbucket, String.toList_inj.mp hkey, htime⟩

/-- HMAC-SHA256 of one payload under the secret of development builds. -/
def sampleHmac (data secret : Bytes) : Bytes :=
  if data = utf8 "photos:cat.png:1700003600" ∧ secret = defaultDevJwtSecret then
    [183, 209, 186, 227, 26, 129, 122, 44, 108, 27, 60, 111, 224, 174, 244, 241, 59, 154, 200, 21,
      105, 140, 102, 138, 245, 242, 36, 234, 144, 163, 71, 56]
  else List.replicate 33 0 ++ data

theorem sampleHmac_collisionFree : CollisionFree sampleHmac defaultDevJwtSecret := by
  intro data data' h
  have hlength : ∀ data : Bytes, 33 ≤ (List.replicate 33 (0 : UInt8) ++ data).length := by simp
  simp only [sampleHmac, and_true] at h
  split_ifs at h with hdata hdata' hdata'
  · exact hdata.trans hdata'.symm
  · exact absurd (hlength data') (by rw [← h]; decide)
  · exact absurd (hlength data) (by rw [h]; decide)
  · exact List.append_cancel_left h

theorem signed_url_separate_photo :
    CollisionFree sampleHmac defaultDevJwtSecret ∧
      OpensOnlyItself sampleHmac 1700000000 defaultDevJwtSecret "photos" "cat.png" 1700003600 :=
  ⟨sampleHmac_collisionFree, (signed_url_separate_iff sampleHmac_collisionFree 1700000000 "photos"
    "cat.png" 1700003600).mpr (.inr ⟨by decide, by decide⟩)⟩

/-- The token for `c` in the bucket `a:b` opens `b:c` in the bucket `a`, whatever the code. -/
theorem signed_url_opens_other :
    sanitizeObjectPath "a:b".toList = "a:b".toList ∧
      sanitizeObjectPath "b:c".toList = "b:c".toList ∧
      ∀ hmacSha256 secret, verifyDownloadSignature hmacSha256 1700000000 "a" "b:c" 1700003600
        (signDownloadToken hmacSha256 "a:b" "c" 1700003600 secret) secret = true := by
  refine ⟨by decide +kernel, by decide +kernel, fun hmacSha256 secret => ?_⟩
  have hpayload : signedPayload "a:b" "c" 1700003600 = signedPayload "a" "b:c" 1700003600 :=
    signedPayload_inj.mpr ⟨by decide, rfl⟩
  rw [verifyDownloadSignature, if_neg (by decide), signDownloadToken, signDownloadToken, hpayload]
  exact decide_eq_true rfl

end Tokens

end ChocoBase.Http
