import ChocoBase.Auth.Base64
import ChocoBase.Auth.Claims
import ChocoBase.Types.Value
import Mathlib.Data.List.AList

/-!
# Access tokens

A token is signed with the key that is active; its header names that key.  Keys
are rotated, and older ones are kept under their names.
-/

namespace ChocoBase.Auth

open ChocoBase.Foundation ChocoBase.Types

def defaultDevJwtSecret : Bytes := utf8 "chocobase-development-secret-key-32b!"

/-! ## The key ring -/

structure KeyStore where
  activeKid : String
  keys : AList fun _ : String => Bytes
  active_mem : activeKid ∈ keys

namespace KeyStore

/-- The store of a process; in production a secret must be set. -/
def new (jwtSecret chocobaseEnv : Option String) : Option KeyStore :=
  let secret :=
    match jwtSecret with
    | some s => some (if s ≠ "" then utf8 s else defaultDevJwtSecret)
    | none => if chocobaseEnv.getD "" = "production" then none else some defaultDevJwtSecret
  secret.map fun secret =>
    { activeKid := "k1"
      keys := (∅ : AList fun _ : String => Bytes).insert "k1" secret
      active_mem := (AList.mem_insert _).mpr (.inl rfl) }

def activeKey (store : KeyStore) : String × Bytes :=
  (store.activeKid, (store.keys.lookup store.activeKid).get
    (AList.lookup_isSome.mpr store.active_mem))

def getKey (store : KeyStore) (kid : Option String) : Option Bytes :=
  match kid with
  | some k => store.keys.lookup k
  | none => store.keys.lookup store.activeKid

def rotateKey (store : KeyStore) (newKid : String) (newSecret : Bytes) : KeyStore where
  activeKid := newKid
  keys := store.keys.insert newKid newSecret
  active_mem := (AList.mem_insert _).mpr (.inl rfl)

def jwtSecret (store : KeyStore) : Bytes := store.activeKey.2

/-- Any number of rotations, each with a key id and a secret. -/
def rotateAll (store : KeyStore) (rotations : List (String × Bytes)) : KeyStore :=
  rotations.foldl (fun store r => store.rotateKey r.1 r.2) store

end KeyStore

structure JwtHeader where
  alg : String
  typ : String
  kid : Option String
  deriving DecidableEq

/-- The crates that sign and that write and read JSON. -/
structure Jose where
  hmacSha256 : (data secret : Bytes) → Bytes
  headerToVec : JwtHeader → Bytes
  headerFromSlice : Bytes → Option JwtHeader
  claimsToVec : SessionClaims → Bytes
  claimsFromSlice : Bytes → Option SessionClaims

section Jwt

variable (jose : Jose)

def signature (toSign : String) (secret : Bytes) : String :=
  base64UrlEncode (jose.hmacSha256 (utf8 toSign) secret)

def KeyStore.header (store : KeyStore) : JwtHeader where
  alg := "HS256"
  typ := "JWT"
  kid := some store.activeKey.1

/-- The first two parts of the token that `sign_jwt` makes. -/
def signedParts (store : KeyStore) (claims : SessionClaims) : String × String :=
  (base64UrlEncode (jose.headerToVec store.header), base64UrlEncode (jose.claimsToVec claims))

def signJwt (store : KeyStore) (claims : SessionClaims) (secret : Bytes) : String :=
  let (headerEncoded, payloadEncoded) := signedParts jose store claims
  let toSign := headerEncoded ++ "." ++ payloadEncoded
  toSign ++ "." ++ signature jose toSign secret

/-- `token.split('.')` -/
def splitDots (token : String) : List String := (token.toList.splitOn '.').map String.ofList

def saturatingAdd (a b : UInt64) : UInt64 := if a.toNat + b.toNat < 2 ^ 64 then a + b else 0 - 1

/-- The checks that follow the signature. -/
def checkClaims (claims : SessionClaims) (now : UInt64) : Except DbError SessionClaims := do
  if claims.exp < now then
    throw (invalidValue "JWT token has expired")
  if claims.nbf > saturatingAdd now 5 then
    throw (invalidValue "JWT token not yet valid (nbf in future)")
  if claims.iat > saturatingAdd now 60 then
    throw (invalidValue "JWT token issued in the future (iat in future)")
  if claims.iss ≠ "" ∧ claims.iss ≠ defaultJwtIssuer then
    throw (invalidValue ("invalid JWT issuer: expected " ++ defaultJwtIssuer ++ ", got " ++
      claims.iss))
  if claims.aud ≠ "" ∧ claims.aud ≠ defaultJwtAudience then
    throw (invalidValue ("invalid JWT audience: expected " ++ defaultJwtAudience ++ ", got " ++
      claims.aud))
  return claims

/-- The secret that the signature is compared with first. -/
def resolveSecret (store : KeyStore) (kid : Option String) (fallbackSecret : Bytes) : Bytes :=
  match kid with
  | some kid =>
      match store.getKey (some kid) with
      | some k =>
          if fallbackSecret ≠ defaultDevJwtSecret ∧ fallbackSecret ≠ k then fallbackSecret else k
      | none => fallbackSecret
  | none => fallbackSecret

def orInvalid {α : Type} (message : String) : Option α → Except DbError α
  | some a => .ok a
  | none => .error (invalidValue message)

def verifyJwt (store : KeyStore) (now : UInt64) (token : String) (fallbackSecret : Bytes) :
    Except DbError SessionClaims :=
  match splitDots token with
  | [part0, part1, part2] => do
      let headerBytes ← orInvalid "invalid JWT base64 header" (base64UrlDecode part0)
      let header ← orInvalid "invalid JWT header json" (jose.headerFromSlice headerBytes)
      if header.alg ≠ "HS256" then
        throw (invalidValue ("unsupported or forbidden JWT algorithm: " ++ header.alg))
      let secret := resolveSecret store header.kid fallbackSecret
      let toSign := part0 ++ "." ++ part1
      if signature jose toSign secret ≠ part2 ∧ signature jose toSign fallbackSecret ≠ part2 then
        throw (invalidValue "invalid JWT signature")
      let payloadBytes ← orInvalid "invalid JWT base64 payload" (base64UrlDecode part1)
      let claims ← orInvalid "invalid JWT claims json" (jose.claimsFromSlice payloadBytes)
      checkClaims claims now
  | _ => .error (invalidValue "invalid JWT structure (expected header.payload.signature)")

end Jwt

/-! ## The parts of a token -/

theorem splitDots_of_notMem {a b c : String} (ha : '.' ∉ a.toList) (hb : '.' ∉ b.toList)
    (hc : '.' ∉ c.toList) : splitDots (a ++ "." ++ b ++ "." ++ c) = [a, b, c] := by
  have hdot : (".".toList : List Char) = ['.'] := rfl
  simp only [splitDots, String.toList_append, hdot, List.append_assoc, List.nil_append,
    List.cons_append]
  rw [List.splitOn_append_cons_self_of_not_mem ha, List.splitOn_append_cons_self_of_not_mem hb,
    List.splitOn_eq_singleton hc]
  simp

/-- Three parts are joined again by dots. -/
theorem eq_of_splitDots {token a b c : String} (h : splitDots token = [a, b, c]) :
    token = a ++ "." ++ b ++ "." ++ c := by
  have hparts : token.toList.splitOn '.' = [a.toList, b.toList, c.toList] := by
    have hmap := congrArg (List.map String.toList) h
    simpa [splitDots, Function.comp_def] using hmap
  have hjoin : ['.'].intercalate (token.toList.splitOn '.') = token.toList :=
    List.intercalate_splitOn '.'
  rw [hparts] at hjoin
  apply String.toList_injective
  rw [← hjoin]
  simp [List.intercalate]

/-- What stands before the last dot. -/
theorem append_dot_inj {x y c d : String} (hc : '.' ∉ c.toList) (hd : '.' ∉ d.toList)
    (h : x ++ "." ++ c = y ++ "." ++ d) : x = y ∧ c = d := by
  have hdot : (".".toList : List Char) = ['.'] := rfl
  have hsplit := congrArg (fun s : String => s.toList.splitOn '.') h
  simp only [String.toList_append, hdot, List.append_assoc, List.singleton_append,
    List.splitOn_append_cons_self, List.splitOn_eq_singleton hc,
    List.splitOn_eq_singleton hd] at hsplit
  obtain ⟨hleft, hright⟩ := List.append_inj' hsplit rfl
  refine ⟨String.toList_injective ?_, String.toList_injective (List.singleton_inj.mp hright)⟩
  calc x.toList = ['.'].intercalate (x.toList.splitOn '.') := (List.intercalate_splitOn '.').symm
    _ = ['.'].intercalate (y.toList.splitOn '.') := by rw [hleft]
    _ = y.toList := List.intercalate_splitOn '.'

theorem dot_append_inj {a b x y : String} (ha : '.' ∉ a.toList) (hb : '.' ∉ b.toList)
    (h : x ++ "." ++ y = a ++ "." ++ b) : x = a ∧ y = b := by
  have hdot : (".".toList : List Char) = ['.'] := rfl
  have hy : '.' ∉ y.toList := by
    have hsplit := congrArg (fun s : String => s.toList.splitOn '.') h
    simp only [String.toList_append, hdot, List.append_assoc, List.singleton_append,
      List.splitOn_append_cons_self, List.splitOn_eq_singleton ha,
      List.splitOn_eq_singleton hb] at hsplit
    intro hmem
    obtain ⟨l, r, hlr⟩ := List.append_of_mem hmem
    have hlen := congrArg List.length hsplit
    rw [hlr, List.splitOn_append_cons_self, List.length_append, List.length_append] at hlen
    have hx := List.length_pos_iff.mpr (List.splitOn_ne_nil '.' x.toList)
    have hl := List.length_pos_iff.mpr (List.splitOn_ne_nil '.' l)
    have hr := List.length_pos_iff.mpr (List.splitOn_ne_nil '.' r)
    simp only [List.length_cons, List.length_nil] at hlen
    omega
  exact append_dot_inj hy hb h

/-! ## Verification -/

namespace KeyStore

/-- A secret that the store had at some time of a history. -/
def Held (start : KeyStore) (rotations : List (String × Bytes)) (secret : Bytes) : Prop :=
  (∃ kid, start.keys.lookup kid = some secret) ∨ secret ∈ rotations.map Prod.snd

theorem held_of_lookup {start : KeyStore} {rotations : List (String × Bytes)} {kid : String}
    {secret : Bytes} (h : (start.rotateAll rotations).keys.lookup kid = some secret) :
    start.Held rotations secret := by
  induction rotations generalizing start with
  | nil => exact .inl ⟨kid, h⟩
  | cons r rest ih =>
      have hrest : (start.rotateKey r.1 r.2).Held rest secret := ih h
      rcases hrest with ⟨kid', hkid'⟩ | hmem
      · by_cases heq : kid' = r.1
        · subst heq
          cases (AList.lookup_insert start.keys).symm.trans hkid'
          exact .inr (by simp)
        · exact .inl ⟨kid', (AList.lookup_insert_ne heq).symm.trans hkid'⟩
      · exact .inr (List.mem_cons_of_mem _ hmem)

theorem lookup_active (store : KeyStore) :
    store.keys.lookup store.activeKid = some store.jwtSecret := by
  simp [jwtSecret, activeKey]

end KeyStore

section Verify

variable {jose : Jose} {store : KeyStore} {now : UInt64} {claims : SessionClaims}

theorem dot_not_mem_signature (toSign : String) (secret : Bytes) :
    '.' ∉ (signature jose toSign secret).toList :=
  dot_not_mem_encode _

theorem resolveSecret_held {kid : Option String} {fallback : Bytes} :
    resolveSecret store kid fallback = fallback ∨
      ∃ kid', store.keys.lookup kid' = some (resolveSecret store kid fallback) := by
  cases kid with
  | none => exact .inl rfl
  | some kid =>
      cases hk : store.keys.lookup kid with
      | none => simp [resolveSecret, KeyStore.getKey, hk]
      | some k =>
          simp only [resolveSecret, KeyStore.getKey, hk]
          split
          · exact .inl rfl
          · exact .inr ⟨kid, hk⟩

/-- An accepted token carries the signature of its first two parts by a secret of the store,
or by the fallback. -/
theorem signed_of_accepted {token : String} {fallback : Bytes}
    (h : verifyJwt jose store now token fallback = .ok claims) :
    ∃ part0 part1 secret,
      token = part0 ++ "." ++ part1 ++ "." ++ signature jose (part0 ++ "." ++ part1) secret ∧
      (secret = fallback ∨ ∃ kid, store.keys.lookup kid = some secret) := by
  unfold verifyJwt at h
  split at h
  · next part0 part1 part2 hsplit =>
      rw [eq_of_splitDots hsplit]
      cases hbytes : base64UrlDecode part0 with
      | none => simp [hbytes, orInvalid, bind, Except.bind] at h
      | some headerBytes =>
          cases hheader : jose.headerFromSlice headerBytes with
          | none => simp [hbytes, hheader, orInvalid, bind, Except.bind] at h
          | some header =>
              by_cases hsig :
                signature jose (part0 ++ "." ++ part1)
                  (resolveSecret store header.kid fallback) = part2
              · exact ⟨part0, part1, _, by rw [hsig], resolveSecret_held⟩
              · by_cases hfall : signature jose (part0 ++ "." ++ part1) fallback = part2
                · exact ⟨part0, part1, fallback, by rw [hfall], .inl rfl⟩
                · exfalso
                  by_cases halg : header.alg = "HS256" <;>
                    simp [hbytes, hheader, hsig, hfall, halg, orInvalid, bind, Except.bind,
                      throw, throwThe, MonadExceptOf.throw] at h
  · cases h

end Verify

section Rotation

variable {jose : Jose} {store : KeyStore} {now : UInt64} {claims : SessionClaims}

/-- The verdict on a token of three well-formed parts. -/
theorem verifyJwt_parts {header : JwtHeader} {secret fallback : Bytes} {toSign : String}
    (hheader : jose.headerFromSlice (jose.headerToVec header) = some header)
    (hclaims : jose.claimsFromSlice (jose.claimsToVec claims) = some claims)
    (halg : header.alg = "HS256")
    (htoSign : toSign = base64UrlEncode (jose.headerToVec header) ++ "." ++
      base64UrlEncode (jose.claimsToVec claims)) :
    verifyJwt jose store now (toSign ++ "." ++ signature jose toSign secret) fallback =
      if signature jose toSign (resolveSecret store header.kid fallback) ≠
          signature jose toSign secret ∧
          signature jose toSign fallback ≠ signature jose toSign secret then
        .error (invalidValue "invalid JWT signature")
      else checkClaims claims now := by
  subst htoSign
  simp only [verifyJwt, splitDots_of_notMem (dot_not_mem_encode _) (dot_not_mem_encode _)
    (dot_not_mem_signature _ _), base64UrlDecode_encode, orInvalid, bind, Except.bind, hheader,
    hclaims, halg]
  split <;> simp_all [throw, throwThe, MonadExceptOf.throw]

/-- Every byte string is read back, and so are the parts of every token that is signed. -/
theorem signed_parts_decode (jose : Jose) (store : KeyStore) (claims : SessionClaims)
    (secret : Bytes) :
    (∀ input, base64UrlDecode (base64UrlEncode input) = some input) ∧
      ∃ part0 part1 part2, splitDots (signJwt jose store claims secret) = [part0, part1, part2] ∧
        base64UrlDecode part0 = some (jose.headerToVec store.header) ∧
        base64UrlDecode part1 = some (jose.claimsToVec claims) ∧
        base64UrlDecode part2 = some (jose.hmacSha256 (utf8 (part0 ++ "." ++ part1)) secret) := by
  refine ⟨base64UrlDecode_encode, _, _, _, ?_, base64UrlDecode_encode _, base64UrlDecode_encode _,
    base64UrlDecode_encode _⟩
  exact splitDots_of_notMem (dot_not_mem_encode _) (dot_not_mem_encode _) (dot_not_mem_signature _ _)

/-- Claims of this server that have not expired pass unless they lie in the future. -/
theorem checkClaims_ok_iff (hiss : claims.iss = defaultJwtIssuer)
    (haud : claims.aud = defaultJwtAudience) (hexp : ¬claims.exp < now) :
    checkClaims claims now = .ok claims ↔
      claims.nbf ≤ saturatingAdd now 5 ∧ claims.iat ≤ saturatingAdd now 60 := by
  by_cases hnbf : claims.nbf > saturatingAdd now 5
  · simp [checkClaims, hexp, hnbf, bind, Except.bind, throw, throwThe, MonadExceptOf.throw]
  · by_cases hiat : claims.iat > saturatingAdd now 60
    · simp [checkClaims, hexp, hnbf, hiat, bind, Except.bind, throw, throwThe,
        MonadExceptOf.throw]
    · simp [checkClaims, hexp, hnbf, hiat, hiss, haud, pure, Except.pure,
        UInt64.not_lt.mp hnbf, UInt64.not_lt.mp hiat]

/-- The signature tells data and secrets apart. -/
def Jose.CollisionFree (jose : Jose) : Prop :=
  ∀ data secret data' secret', jose.hmacSha256 data secret = jose.hmacSha256 data' secret' →
    data = data' ∧ secret = secret'

theorem signature_inj (hjose : jose.CollisionFree) {toSign toSign' : String}
    {secret secret' : Bytes} (h : signature jose toSign secret = signature jose toSign' secret') :
    toSign = toSign' ∧ secret = secret' := by
  obtain ⟨hdata, hsecret⟩ := hjose _ _ _ _ (base64UrlEncode_injective h)
  exact ⟨utf8_injective hdata, hsecret⟩

/-- No token passes that is signed with a secret the store never had. -/
theorem forgery_rejected (hjose : jose.CollisionFree) {start : KeyStore}
    {rotations : List (String × Bytes)} {secret : Bytes}
    (hsecret : ¬start.Held rotations secret) (header payload : String) :
    verifyJwt jose (start.rotateAll rotations) now
      (header ++ "." ++ payload ++ "." ++ signature jose (header ++ "." ++ payload) secret)
      (start.rotateAll rotations).jwtSecret ≠ .ok claims := by
  intro hok
  obtain ⟨part0, part1, secret', htoken, hheld⟩ := signed_of_accepted hok
  obtain ⟨-, hsig⟩ := append_dot_inj (dot_not_mem_signature _ _) (dot_not_mem_signature _ _) htoken
  obtain ⟨-, rfl⟩ := signature_inj hjose hsig
  refine hsecret ?_
  rcases hheld with rfl | ⟨kid, hkid⟩
  · exact KeyStore.held_of_lookup (KeyStore.lookup_active _)
  · exact KeyStore.held_of_lookup hkid

/-- No token passes whose header or payload is not the one that was signed. -/
theorem alteration_rejected (hjose : jose.CollisionFree) {signer : KeyStore}
    {signed claims' : SessionClaims} {secret fallback : Bytes} {header payload : String}
    (haltered : (header, payload) ≠ signedParts jose signer signed) :
    verifyJwt jose store now
      (header ++ "." ++ payload ++ "." ++ signature jose ((signedParts jose signer signed).1 ++
        "." ++ (signedParts jose signer signed).2) secret) fallback ≠ .ok claims' := by
  intro hok
  obtain ⟨part0, part1, secret', htoken, -⟩ := signed_of_accepted hok
  obtain ⟨hparts, hsig⟩ :=
    append_dot_inj (dot_not_mem_signature _ _) (dot_not_mem_signature _ _) htoken
  obtain ⟨hsigned, -⟩ := signature_inj hjose hsig
  obtain ⟨hheader, hpayload⟩ := dot_append_inj (dot_not_mem_encode _) (dot_not_mem_encode _)
    (hparts.trans hsigned.symm)
  exact haltered (Prod.ext hheader hpayload)

/--
A token that has not expired and whose key id still names its secret is accepted, and
forged and altered tokens are not, exactly if the active secret is the token's own or
the one of development builds, and the token's times are not in the future.
-/
theorem rotated_token_iff (hjose : jose.CollisionFree) (start : KeyStore)
    (past later : List (String × Bytes)) (hiss : claims.iss = defaultJwtIssuer)
    (haud : claims.aud = defaultJwtAudience) (hexp : ¬claims.exp < now)
    (hheader : jose.headerFromSlice (jose.headerToVec (start.rotateAll past).header) =
      some (start.rotateAll past).header)
    (hclaims : jose.claimsFromSlice (jose.claimsToVec claims) = some claims)
    (hkid : (start.rotateAll (past ++ later)).keys.lookup (start.rotateAll past).activeKid =
      some (start.rotateAll past).jwtSecret) :
    (verifyJwt jose (start.rotateAll (past ++ later)) now
        (signJwt jose (start.rotateAll past) claims (start.rotateAll past).jwtSecret)
        (start.rotateAll (past ++ later)).jwtSecret = .ok claims ∧
      (∀ header payload secret claims', ¬start.Held (past ++ later) secret →
        verifyJwt jose (start.rotateAll (past ++ later)) now
          (header ++ "." ++ payload ++ "." ++ signature jose (header ++ "." ++ payload) secret)
          (start.rotateAll (past ++ later)).jwtSecret ≠ .ok claims') ∧
      ∀ header payload claims',
        (header, payload) ≠ signedParts jose (start.rotateAll past) claims →
        verifyJwt jose (start.rotateAll (past ++ later)) now
          (header ++ "." ++ payload ++ "." ++
            signature jose ((signedParts jose (start.rotateAll past) claims).1 ++ "." ++
              (signedParts jose (start.rotateAll past) claims).2)
              (start.rotateAll past).jwtSecret)
          (start.rotateAll (past ++ later)).jwtSecret ≠ .ok claims') ↔
      ((start.rotateAll (past ++ later)).jwtSecret = (start.rotateAll past).jwtSecret ∨
        (start.rotateAll (past ++ later)).jwtSecret = defaultDevJwtSecret) ∧
      claims.nbf ≤ saturatingAdd now 5 ∧ claims.iat ≤ saturatingAdd now 60 := by
  rw [and_iff_left ⟨fun header payload secret claims' hsecret =>
    forgery_rejected hjose hsecret header payload,
    fun header payload claims' haltered => alteration_rejected hjose haltered⟩]
  have hverdict : verifyJwt jose (start.rotateAll (past ++ later)) now
      (signJwt jose (start.rotateAll past) claims (start.rotateAll past).jwtSecret)
      (start.rotateAll (past ++ later)).jwtSecret = _ :=
    verifyJwt_parts hheader hclaims rfl rfl
  rw [hverdict]
  have hsig : ∀ toSign secret secret',
      signature jose toSign secret ≠ signature jose toSign secret' ↔ secret ≠ secret' :=
    fun toSign secret secret' => not_congr ⟨fun h => (signature_inj hjose h).2, fun h => h ▸ rfl⟩
  simp only [hsig, resolveSecret, KeyStore.getKey, KeyStore.header, KeyStore.activeKey, hkid]
  by_cases hown : (start.rotateAll (past ++ later)).jwtSecret = (start.rotateAll past).jwtSecret
  · simp [hown, checkClaims_ok_iff hiss haud hexp]
  · by_cases hdev : (start.rotateAll (past ++ later)).jwtSecret = defaultDevJwtSecret
    · simp [hdev, checkClaims_ok_iff hiss haud hexp]
    · simp [hown, hdev]

end Rotation

/-! A token of the first key, after the key is rotated. -/

section Sample

def rotatorClaims : SessionClaims :=
  .new 100 "rotator" "admin" 1700003600 1700000000 (List.replicate 16 9)

def firstHeader : JwtHeader where
  alg := "HS256"
  typ := "JWT"
  kid := some "k1"

def firstHeaderJson : Bytes :=
  utf8 "\x7b\"alg\":\"HS256\",\"typ\":\"JWT\",\"kid\":\"k1\"\x7d"

def rotatorJson : Bytes :=
  utf8 ("\x7b\"iss\":\"chocobase-auth\",\"aud\":\"authenticated\",\"sub\":100," ++
    "\"username\":\"rotator\",\"role\":\"admin\",\"exp\":1700003600,\"iat\":1700000000," ++
    "\"nbf\":1700000000,\"jti\":\"09090909090909090909090909090909\"\x7d")

def rotatorText : Bytes :=
  utf8 (base64UrlEncode firstHeaderJson ++ "." ++ base64UrlEncode rotatorJson)

def rotatedSecret : Bytes := utf8 "chocobase-new-rotated-secret-key-32b!"

/-- Longer than every digest. -/
def pairCode (data secret : Bytes) : Bytes :=
  List.replicate 33 0 ++ (data.flatMap (fun b => [1, b]) ++ 0 :: secret)

theorem pairCode_injective {data data' secret secret' : Bytes}
    (h : pairCode data secret = pairCode data' secret') : data = data' ∧ secret = secret' := by
  replace h := List.append_cancel_left h
  induction data generalizing data' with
  | nil =>
      cases data' with
      | nil => exact ⟨rfl, by simpa using h⟩
      | cons b' rest' => simp at h
  | cons b rest ih =>
      cases data' with
      | nil => simp at h
      | cons b' rest' =>
          simp only [List.flatMap_cons, List.cons_append, List.nil_append, List.cons.injEq,
            true_and] at h
          obtain ⟨hrest, hsecret⟩ := ih h.2
          exact ⟨by rw [h.1, hrest], hsecret⟩

/-- HMAC-SHA256 of the token under the two secrets, and the JSON of its parts. -/
def sampleJose : Jose where
  hmacSha256 data secret :=
    if data = rotatorText ∧ secret = defaultDevJwtSecret then
      [27, 1, 50, 131, 187, 129, 81, 98, 208, 52, 138, 216, 162, 181, 95, 31, 216, 228, 81, 48,
        179, 205, 202, 25, 251, 186, 28, 36, 229, 101, 17, 222]
    else if data = rotatorText ∧ secret = rotatedSecret then
      [79, 6, 226, 44, 15, 3, 140, 208, 64, 40, 130, 31, 100, 6, 35, 89, 108, 154, 205, 237, 95,
        185, 27, 32, 244, 228, 114, 64, 225, 113, 10, 8]
    else pairCode data secret
  headerToVec header := if header = firstHeader then firstHeaderJson else []
  headerFromSlice bytes := if bytes = firstHeaderJson then some firstHeader else none
  claimsToVec claims := if claims = rotatorClaims then rotatorJson else []
  claimsFromSlice bytes := if bytes = rotatorJson then some rotatorClaims else none

theorem sampleJose_collisionFree : sampleJose.CollisionFree := by
  intro data secret data' secret' h
  have hlen : ∀ data secret, 33 ≤ (pairCode data secret).length := by simp [pairCode]
  simp only [sampleJose] at h
  split_ifs at h with h1 h2 h3 h4 h5 h6 h7 h8
  · exact ⟨h1.1.trans h2.1.symm, h1.2.trans h2.2.symm⟩
  · simp at h
  · exact absurd (hlen data' secret') (by rw [← h]; decide)
  · simp at h
  · exact ⟨h4.1.trans h6.1.symm, h4.2.trans h6.2.symm⟩
  · exact absurd (hlen data' secret') (by rw [← h]; decide)
  · exact absurd (hlen data secret) (by rw [h]; decide)
  · exact absurd (hlen data secret) (by rw [h]; decide)
  · exact pairCode_injective h

def devStore : KeyStore where
  activeKid := "k1"
  keys := (∅ : AList fun _ : String => Bytes).insert "k1" defaultDevJwtSecret
  active_mem := (AList.mem_insert _).mpr (.inl rfl)

theorem new_devStore : KeyStore.new none none = some devStore := rfl

set_option maxRecDepth 20000 in
/-- Accepted again once the secret of development builds is active. -/
theorem rotated_token_iff_dev :
    verifyJwt sampleJose (devStore.rotateAll [("k2", rotatedSecret), ("k3", defaultDevJwtSecret)])
      1700000060 (signJwt sampleJose devStore rotatorClaims defaultDevJwtSecret)
      defaultDevJwtSecret = .ok rotatorClaims :=
  ((@rotated_token_iff sampleJose 1700000060 rotatorClaims sampleJose_collisionFree devStore []
    [("k2", rotatedSecret), ("k3", defaultDevJwtSecret)] rfl rfl (by decide)
    (by decide) (by decide) (by decide)).mpr (by decide)).1

/-- The key id still names the secret, and the token has not expired. -/
theorem rotation_logs_out :
    (devStore.rotateKey "k2" rotatedSecret).keys.lookup "k1" = some defaultDevJwtSecret ∧
    ¬rotatorClaims.exp < 1700000060 ∧
    verifyJwt sampleJose (devStore.rotateKey "k2" rotatedSecret) 1700000060
      (signJwt sampleJose devStore rotatorClaims devStore.jwtSecret)
      (devStore.rotateKey "k2" rotatedSecret).jwtSecret =
        .error (invalidValue "invalid JWT signature") := by
  refine ⟨by decide, by decide, ?_⟩
  have hheader : sampleJose.headerFromSlice (sampleJose.headerToVec devStore.header) =
      some devStore.header := by
    have hfirst : devStore.header = firstHeader := rfl
    simp only [hfirst, sampleJose, if_pos]
  have hclaims : sampleJose.claimsFromSlice (sampleJose.claimsToVec rotatorClaims) =
      some rotatorClaims := by
    simp only [sampleJose, if_pos]
  have hsecrets : rotatedSecret ≠ devStore.jwtSecret := by decide
  have hother : ∀ toSign, signature sampleJose toSign rotatedSecret ≠
      signature sampleJose toSign devStore.jwtSecret :=
    fun _ heq => hsecrets (signature_inj sampleJose_collisionFree heq).2
  have hresolve : resolveSecret (devStore.rotateKey "k2" rotatedSecret) devStore.header.kid
      rotatedSecret = rotatedSecret := by decide
  have hverdict := @verifyJwt_parts sampleJose (devStore.rotateKey "k2" rotatedSecret) 1700000060
    rotatorClaims devStore.header devStore.jwtSecret rotatedSecret _ hheader hclaims rfl rfl
  rw [hresolve, if_pos ⟨hother _, hother _⟩] at hverdict
  exact hverdict

end Sample

end ChocoBase.Auth
