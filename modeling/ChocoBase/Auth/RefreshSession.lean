import ChocoBase.Auth.Claims
import ChocoBase.Types.Value
import Mathlib.Data.List.AList

/-!
# Refresh sessions

A refresh token is used once: rotation revokes it and puts a successor into its
family.  A revoked token that is presented again takes the whole family with it.
The store knows tokens by their hashes only.
-/

namespace ChocoBase.Auth

open ChocoBase.Foundation ChocoBase.Types

structure RefreshTokenRecord where
  userId : Int64
  username : String
  role : String
  familyId : String
  expiresAt : UInt64
  revoked : Bool
  deriving DecidableEq

structure RefreshSessionStore where
  tokens : AList fun _ : String => RefreshTokenRecord
  families : AList fun _ : String => List String

def generateOpaqueRefreshToken (random : Bytes) : String := "rt_" ++ hexEncode random

def generateTokenFamilyId (random : Bytes) : String := "tf_" ++ hexEncode random

def thirtyDays : UInt64 := 86400 * 30

def sevenDays : UInt64 := 86400 * 7

/-- What a call takes from the system: the time, and the bytes of each random value. -/
structure Draws where
  now : UInt64
  token : Bytes
  family : Bytes
  /-- `SessionClaims::new` reads the clock again -/
  claimsNow : UInt64
  jti : Bytes

section Operations

variable (sha256 : Bytes → Bytes)

def hashToken (token : String) : String := hexEncode (sha256 (utf8 token))

namespace RefreshSessionStore

def new : RefreshSessionStore where
  tokens := ∅
  families := ∅

def issueToken (s : RefreshSessionStore) (draws : Draws) (userId : Int64)
    (username role : String) : (String × String) × RefreshSessionStore :=
  let rawToken := generateOpaqueRefreshToken draws.token
  let familyId := generateTokenFamilyId draws.family
  let tokenHash := hashToken sha256 rawToken
  let record : RefreshTokenRecord :=
    { userId, username, role, familyId, expiresAt := draws.now + thirtyDays, revoked := false }
  ((rawToken, familyId),
    { tokens := s.tokens.insert tokenHash record
      families := s.families.insert familyId
        ((s.families.lookup familyId).getD [] ++ [tokenHash]) })

def revokeFamily (s : RefreshSessionStore) (familyId : String) : RefreshSessionStore :=
  match s.families.lookup familyId with
  | none => s
  | some tokenHashes =>
      { tokens := tokenHashes.foldl (fun tokens h => tokens.erase h) s.tokens
        families := s.families.erase familyId }

def rotateToken (s : RefreshSessionStore) (draws : Draws) (rawToken : String) :
    Except DbError (SessionClaims × String) × RefreshSessionStore :=
  let tokenHash := hashToken sha256 rawToken
  match s.tokens.lookup tokenHash with
  | none => (.error (invalidValue "invalid refresh token"), s)
  | some record =>
      if record.expiresAt < draws.now then
        (.error (invalidValue "refresh token has expired"), s)
      else if record.revoked then
        (.error (invalidValue "refresh token reuse detected; session family has been revoked"),
          s.revokeFamily record.familyId)
      else
        let newRawToken := generateOpaqueRefreshToken draws.token
        let newTokenHash := hashToken sha256 newRawToken
        let newRecord : RefreshTokenRecord :=
          { record with expiresAt := draws.now + thirtyDays, revoked := false }
        let tokens := (s.tokens.insert tokenHash { record with revoked := true }).insert
          newTokenHash newRecord
        let families := match s.families.lookup record.familyId with
          | some list => s.families.insert record.familyId (list ++ [newTokenHash])
          | none => s.families
        let claims := SessionClaims.new record.userId record.username record.role
          (draws.now + sevenDays) draws.claimsNow draws.jti
        (.ok (claims, newRawToken), { tokens, families })

def revokeToken (s : RefreshSessionStore) (rawToken : String) : Bool × RefreshSessionStore :=
  let tokenHash := hashToken sha256 rawToken
  match s.tokens.lookup tokenHash with
  | some record =>
      (true, { s with tokens := s.tokens.insert tokenHash { record with revoked := true } })
  | none => (false, s)

end RefreshSessionStore

end Operations

/-! ## The store -/

namespace RefreshSessionStore

def give (s : RefreshSessionStore) (h : String) (record : RefreshTokenRecord) :
    RefreshSessionStore where
  tokens := s.tokens.insert h record
  families := s.families.insert record.familyId
    ((s.families.lookup record.familyId).getD [] ++ [h])

def mark (s : RefreshSessionStore) (h : String) (record : RefreshTokenRecord) :
    RefreshSessionStore :=
  { s with tokens := s.tokens.insert h { record with revoked := true } }

/-- The lists of the families index the records. -/
structure Kept (s : RefreshSessionStore) : Prop where
  listed : ∀ {h r}, s.tokens.lookup h = some r →
    ∃ list, s.families.lookup r.familyId = some list ∧ h ∈ list
  entries : ∀ {f list h}, s.families.lookup f = some list → h ∈ list →
    ∃ r, s.tokens.lookup h = some r ∧ r.familyId = f
  single : ∀ {h h' r r'}, s.tokens.lookup h = some r → s.tokens.lookup h' = some r' →
    r.familyId = r'.familyId → r.revoked = false → r'.revoked = false → h = h'

theorem lookup_give {s : RefreshSessionStore} {h h' : String} {record : RefreshTokenRecord} :
    (s.give h record).tokens.lookup h' = if h' = h then some record else s.tokens.lookup h' := by
  split
  · next heq => rw [heq]; exact AList.lookup_insert _
  · next hne => exact AList.lookup_insert_ne hne

theorem lookup_mark {s : RefreshSessionStore} {h h' : String} {record : RefreshTokenRecord} :
    (s.mark h record).tokens.lookup h' =
      if h' = h then some { record with revoked := true } else s.tokens.lookup h' := by
  split
  · next heq => rw [heq]; exact AList.lookup_insert _
  · next hne => exact AList.lookup_insert_ne hne

theorem lookup_erase_foldl {list : List String} {h : String}
    {tokens : AList fun _ : String => RefreshTokenRecord} :
    (list.foldl (fun tokens h => tokens.erase h) tokens).lookup h =
      if h ∈ list then none else tokens.lookup h := by
  induction list generalizing tokens with
  | nil => simp
  | cons x rest ih =>
      rw [List.foldl_cons, ih]
      by_cases hx : h = x
      · subst hx
        rw [if_pos List.mem_cons_self, AList.lookup_erase, ite_self]
      · simp [hx, AList.lookup_erase_ne hx]

theorem lookup_revokeFamily {s : RefreshSessionStore} (hs : s.Kept) {f h : String}
    {r : RefreshTokenRecord} :
    (s.revokeFamily f).tokens.lookup h = some r ↔
      s.tokens.lookup h = some r ∧ r.familyId ≠ f := by
  unfold revokeFamily
  cases hf : s.families.lookup f with
  | none =>
      refine ⟨fun hr => ⟨hr, ?_⟩, And.left⟩
      rintro rfl
      obtain ⟨list, hlist, -⟩ := hs.listed hr
      rw [hf] at hlist
      cases hlist
  | some list =>
      simp only [lookup_erase_foldl]
      constructor
      · intro hr
        split at hr
        · cases hr
        · next hmem =>
            refine ⟨hr, ?_⟩
            rintro rfl
            obtain ⟨list', hlist', hmem'⟩ := hs.listed hr
            rw [hf] at hlist'
            exact hmem (Option.some.inj hlist' ▸ hmem')
      · rintro ⟨hr, hne⟩
        rw [if_neg, hr]
        intro hmem
        obtain ⟨r', hr', rfl⟩ := hs.entries hf hmem
        exact hne (congrArg RefreshTokenRecord.familyId (Option.some.inj (hr.symm.trans hr')))

namespace Kept

theorem new : RefreshSessionStore.new.Kept where
  listed h := by simp [RefreshSessionStore.new] at h
  entries h := by simp [RefreshSessionStore.new] at h
  single h := by simp [RefreshSessionStore.new] at h

variable {s : RefreshSessionStore} {h : String} {r : RefreshTokenRecord}

protected theorem mark (hs : s.Kept) (hr : s.tokens.lookup h = some r) : (s.mark h r).Kept where
  listed {h' r'} hr' := by
    rw [lookup_mark] at hr'
    split at hr'
    · next heq =>
        cases hr'
        rw [heq]
        exact hs.listed (r := r) hr
    · exact hs.listed hr'
  entries {f list h'} hf hmem := by
    rw [lookup_mark]
    obtain ⟨r', hr', rfl⟩ := hs.entries hf hmem
    split
    · next heq =>
        rw [heq, hr] at hr'
        cases hr'
        exact ⟨_, rfl, rfl⟩
    · exact ⟨r', hr', rfl⟩
  single {h₁ h₂ r₁ r₂} hr₁ hr₂ hf hu₁ hu₂ := by
    rw [lookup_mark] at hr₁ hr₂
    split at hr₁
    · cases hr₁; cases hu₁
    · split at hr₂
      · cases hr₂; cases hu₂
      · exact hs.single hr₁ hr₂ hf hu₁ hu₂

protected theorem give (hs : s.Kept) (hnew : s.tokens.lookup h = none)
    (hrest : ∀ h' r', s.tokens.lookup h' = some r' → r'.familyId = r.familyId →
      r'.revoked = true) : (s.give h r).Kept where
  listed {h' r'} hr' := by
    rw [lookup_give] at hr'
    by_cases hf : r'.familyId = r.familyId
    · rw [hf]
      refine ⟨_, AList.lookup_insert _, ?_⟩
      split at hr'
      · next heq => simp [heq]
      · obtain ⟨list, hlist, hmem⟩ := hs.listed hr'
        rw [hf] at hlist
        simp [hlist, hmem]
    · split at hr'
      · cases hr'; exact absurd rfl hf
      · obtain ⟨list, hlist, hmem⟩ := hs.listed hr'
        exact ⟨list, (AList.lookup_insert_ne hf).trans hlist, hmem⟩
  entries {f list h'} hf hmem := by
    rw [lookup_give]
    have hold : ∀ {list'}, s.families.lookup f = some list' → h' ∈ list' →
        ∃ r', (if h' = h then some r else s.tokens.lookup h') = some r' ∧ r'.familyId = f := by
      intro list' hlist' hmem'
      obtain ⟨r', hr', hf'⟩ := hs.entries hlist' hmem'
      rw [if_neg (fun heq => by rw [heq, hnew] at hr'; cases hr')]
      exact ⟨r', hr', hf'⟩
    by_cases heq : f = r.familyId
    · subst heq
      obtain rfl := Option.some.inj ((AList.lookup_insert s.families).symm.trans hf)
      rcases List.mem_append.mp hmem with hmem | hmem
      · cases hlist : s.families.lookup r.familyId with
        | none => simp [hlist] at hmem
        | some list' => exact hold hlist (by simpa [hlist] using hmem)
      · rw [if_pos (List.mem_singleton.mp hmem)]
        exact ⟨r, rfl, rfl⟩
    · exact hold ((AList.lookup_insert_ne heq).symm.trans hf) hmem
  single {h₁ h₂ r₁ r₂} hr₁ hr₂ hf hu₁ hu₂ := by
    rw [lookup_give] at hr₁ hr₂
    split at hr₁ <;> split at hr₂
    · next heq₁ heq₂ => rw [heq₁, heq₂]
    · cases hr₁
      exact absurd (hrest h₂ r₂ hr₂ hf.symm) (by simp [hu₂])
    · cases hr₂
      exact absurd (hrest h₁ r₁ hr₁ hf) (by simp [hu₁])
    · exact hs.single hr₁ hr₂ hf hu₁ hu₂

protected theorem revokeFamily (hs : s.Kept) (f : String) : (s.revokeFamily f).Kept := by
  have hfamilies : ∀ f', f' ≠ f →
      (s.revokeFamily f).families.lookup f' = s.families.lookup f' := by
    intro f' hne
    unfold RefreshSessionStore.revokeFamily
    cases s.families.lookup f with
    | none => rfl
    | some list => exact AList.lookup_erase_ne hne
  have hgone : (s.revokeFamily f).families.lookup f = none := by
    unfold RefreshSessionStore.revokeFamily
    cases hf : s.families.lookup f with
    | none => exact hf
    | some list => exact AList.lookup_erase _ _
  constructor
  · intro h r hr
    obtain ⟨hr, hne⟩ := (lookup_revokeFamily hs).mp hr
    rw [hfamilies _ hne]
    exact hs.listed hr
  · intro f' list h hf' hmem
    have hne : f' ≠ f := by
      rintro rfl
      rw [hgone] at hf'
      cases hf'
    rw [hfamilies _ hne] at hf'
    obtain ⟨r, hr, rfl⟩ := hs.entries hf' hmem
    exact ⟨r, (lookup_revokeFamily hs).mpr ⟨hr, hne⟩, rfl⟩
  · intro h h' r r' hr hr'
    exact hs.single ((lookup_revokeFamily hs).mp hr).1 ((lookup_revokeFamily hs).mp hr').1

end Kept

section Rotate

variable {sha256 : Bytes → Bytes} {s : RefreshSessionStore} {draws : Draws} {raw : String}
  {record : RefreshTokenRecord}

theorem rotateToken_unknown (h : s.tokens.lookup (hashToken sha256 raw) = none) :
    s.rotateToken sha256 draws raw = (.error (invalidValue "invalid refresh token"), s) := by
  simp only [rotateToken, h]

theorem rotateToken_expired (h : s.tokens.lookup (hashToken sha256 raw) = some record)
    (hexpired : record.expiresAt < draws.now) :
    s.rotateToken sha256 draws raw = (.error (invalidValue "refresh token has expired"), s) := by
  simp only [rotateToken, h, if_pos hexpired]

theorem rotateToken_reuse (h : s.tokens.lookup (hashToken sha256 raw) = some record)
    (hexpired : ¬record.expiresAt < draws.now) (hrevoked : record.revoked = true) :
    s.rotateToken sha256 draws raw =
      (.error (invalidValue "refresh token reuse detected; session family has been revoked"),
        s.revokeFamily record.familyId) := by
  simp only [rotateToken, h, if_neg hexpired, if_pos hrevoked]

/-- The token is revoked, and its successor given to the family. -/
theorem rotateToken_ok (hs : s.Kept) (h : s.tokens.lookup (hashToken sha256 raw) = some record)
    (hexpired : ¬record.expiresAt < draws.now) (hrevoked : record.revoked = false) :
    s.rotateToken sha256 draws raw =
      (.ok (SessionClaims.new record.userId record.username record.role
          (draws.now + sevenDays) draws.claimsNow draws.jti,
          generateOpaqueRefreshToken draws.token),
        (s.mark (hashToken sha256 raw) record).give
          (hashToken sha256 (generateOpaqueRefreshToken draws.token))
          { record with expiresAt := draws.now + thirtyDays, revoked := false }) := by
  obtain ⟨list, hlist, -⟩ := hs.listed h
  have hnot : ¬record.revoked = true := by simp [hrevoked]
  simp only [rotateToken, h, if_neg hexpired, if_neg hnot, hlist, give, mark, Option.getD_some]

theorem revokeToken_unknown (h : s.tokens.lookup (hashToken sha256 raw) = none) :
    s.revokeToken sha256 raw = (false, s) := by
  simp only [revokeToken, h]

theorem revokeToken_known (h : s.tokens.lookup (hashToken sha256 raw) = some record) :
    s.revokeToken sha256 raw = (true, s.mark (hashToken sha256 raw) record) := by
  simp only [revokeToken, h, mark]

/-- An accepted token has a live record. -/
theorem lookup_of_rotated {result : SessionClaims × String}
    (hok : (s.rotateToken sha256 draws raw).1 = .ok result) :
    ∃ record, s.tokens.lookup (hashToken sha256 raw) = some record ∧
      ¬record.expiresAt < draws.now ∧ record.revoked = false := by
  cases h : s.tokens.lookup (hashToken sha256 raw) with
  | none => simp [rotateToken_unknown h] at hok
  | some record =>
      refine ⟨record, rfl, ?_, ?_⟩
      · intro hexpired
        simp [rotateToken_expired h hexpired] at hok
      · by_contra hrevoked
        by_cases hexpired : record.expiresAt < draws.now
        · simp [rotateToken_expired h hexpired] at hok
        · simp [rotateToken_reuse h hexpired (by simpa using hrevoked)] at hok

end Rotate

end RefreshSessionStore

end ChocoBase.Auth
