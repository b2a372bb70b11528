import ChocoBase.Auth.RefreshSession
import Mathlib.Data.List.Induction

/-!
# Token families

Over a run of the refresh session store every family has one token that can be
rotated, and the replay of a rotated token ends its family.
-/

namespace ChocoBase.Auth

open ChocoBase.Foundation ChocoBase.Types

inductive SessionCall where
  | issue (userId : Int64) (username role : String)
  | rotate (rawToken : String)
  | revokeFamily (familyId : String)
  | revokeToken (rawToken : String)

def SessionCall.presented : SessionCall → Option String
  | .rotate rawToken | .revokeToken rawToken => some rawToken
  | _ => none

/-- A token that was handed out: it is of the family it was issued with, or of
the family of the token that was rotated for it. -/
structure Member where
  raw : String
  family : String
  expiresAt : UInt64
  deriving DecidableEq

/-- The store, and what its callers have seen. -/
structure Sessions where
  store : RefreshSessionStore
  /-- the tokens generated so far -/
  tokens : List String
  /-- the family ids generated so far -/
  familyIds : List String
  members : List Member
  /-- the tokens rotated successfully -/
  rotated : List String

namespace Sessions

def new : Sessions where
  store := .new
  tokens := []
  familyIds := []
  members := []
  rotated := []

variable (sha256 : Bytes → Bytes)

def step (w : Sessions) (e : Draws × SessionCall) : Sessions :=
  match e.2 with
  | .issue userId username role =>
      let ((raw, family), store) := w.store.issueToken sha256 e.1 userId username role
      { w with
        store
        tokens := w.tokens ++ [raw]
        familyIds := w.familyIds ++ [family]
        members := w.members ++ [⟨raw, family, e.1.now + thirtyDays⟩] }
  | .rotate raw =>
      match w.store.rotateToken sha256 e.1 raw with
      | (.ok (_, next), store) =>
          let successor := (w.members.find? fun m => m.raw = raw).map fun m =>
            { m with raw := next, expiresAt := e.1.now + thirtyDays }
          { w with
            store
            tokens := w.tokens ++ [next]
            members := w.members ++ successor.toList
            rotated := w.rotated ++ [raw] }
      | (.error _, store) => { w with store }
  | .revokeFamily familyId => { w with store := w.store.revokeFamily familyId }
  | .revokeToken raw => { w with store := (w.store.revokeToken sha256 raw).2 }

def run (events : List (Draws × SessionCall)) : Sessions := events.foldl (step sha256) new

/-- Rotation would take the token, at some time. -/
def Accepts (w : Sessions) (raw : String) : Prop :=
  ∃ draws result, (w.store.rotateToken sha256 draws raw).1 = .ok result

def presented (events : List (Draws × SessionCall)) : List String :=
  events.filterMap fun e => e.2.presented

/-- The hash tells these strings apart. -/
def CollisionFree (strings : List String) : Prop :=
  ∀ t ∈ strings, ∀ t' ∈ strings, sha256 (utf8 t) = sha256 (utf8 t') → t = t'

end Sessions

/-! ## The invariant -/

namespace Sessions

variable {sha256 : Bytes → Bytes} {w : Sessions}

theorem CollisionFree.mono {strings strings' : List String}
    (h : CollisionFree sha256 strings') (hsub : strings ⊆ strings') :
    CollisionFree sha256 strings :=
  fun t ht t' ht' => h t (hsub ht) t' (hsub ht')

theorem CollisionFree.eq {strings : List String} {t t' : String}
    (h : CollisionFree sha256 strings) (ht : t ∈ strings) (ht' : t' ∈ strings)
    (heq : hashToken sha256 t = hashToken sha256 t') : t = t' :=
  h t ht t' ht' (hexEncode_injective heq)

/-- No record of the family is left. -/
def Dead (s : RefreshSessionStore) (family : String) : Prop :=
  ∀ h r, s.tokens.lookup h = some r → r.familyId ≠ family

variable (sha256) in
/-- What the store remembers of what its callers have seen. -/
structure Ledger (w : Sessions) : Prop where
  kept : w.store.Kept
  recorded : w.members.map Member.raw = w.tokens
  families : ∀ m ∈ w.members, m.family ∈ w.familyIds
  origin : ∀ {h r}, w.store.tokens.lookup h = some r →
    ∃ m ∈ w.members, hashToken sha256 m.raw = h ∧ m.family = r.familyId
  present : ∀ m ∈ w.members,
    (∃ r, w.store.tokens.lookup (hashToken sha256 m.raw) = some r ∧
      r.familyId = m.family ∧ r.expiresAt = m.expiresAt) ∨ Dead w.store m.family
  used : ∀ raw ∈ w.rotated, ∀ r,
    w.store.tokens.lookup (hashToken sha256 raw) = some r → r.revoked = true
  rotated_given : ∀ raw ∈ w.rotated, raw ∈ w.tokens
  once : w.rotated.Nodup

namespace Ledger

theorem new : Ledger sha256 .new where
  kept := .new
  recorded := rfl
  families := by simp [Sessions.new]
  origin h := by simp [Sessions.new, RefreshSessionStore.new] at h
  present := by simp [Sessions.new]
  used := by simp [Sessions.new]
  rotated_given := by simp [Sessions.new]
  once := List.nodup_nil

theorem raw_mem (hw : Ledger sha256 w) {m : Member} (hm : m ∈ w.members) : m.raw ∈ w.tokens :=
  hw.recorded ▸ List.mem_map_of_mem hm

theorem member_eq (hw : Ledger sha256 w) (hnodup : w.tokens.Nodup) {m m' : Member}
    (hm : m ∈ w.members) (hm' : m' ∈ w.members) (heq : m.raw = m'.raw) : m = m' :=
  List.inj_on_of_nodup_map (hw.recorded ▸ hnodup) hm hm' heq

/-- The token of a record is the member it comes from. -/
theorem family_of_record (hw : Ledger sha256 w) (hnodup : w.tokens.Nodup)
    (hcf : CollisionFree sha256 w.tokens) {m : Member} {r : RefreshTokenRecord}
    (hm : m ∈ w.members) (hr : w.store.tokens.lookup (hashToken sha256 m.raw) = some r) :
    r.familyId = m.family := by
  obtain ⟨m', hm', hhash, hfamily⟩ := hw.origin hr
  have heq := hcf.eq (hw.raw_mem hm') (hw.raw_mem hm) hhash
  rw [← hfamily, hw.member_eq hnodup hm' hm heq]

theorem give (hw : Ledger sha256 w) {raw : String} {record : RefreshTokenRecord}
    {ids : List String} (hfresh : ∀ t ∈ w.tokens, hashToken sha256 t ≠ hashToken sha256 raw)
    (hrest : ∀ h r, w.store.tokens.lookup h = some r → r.familyId = record.familyId →
      r.revoked = true)
    (halive : ∀ m ∈ w.members, Dead w.store m.family → m.family ≠ record.familyId)
    (hids : w.familyIds ⊆ ids) (hfamily : record.familyId ∈ ids) :
    Ledger sha256 { w with
      store := w.store.give (hashToken sha256 raw) record
      tokens := w.tokens ++ [raw]
      familyIds := ids
      members := w.members ++ [⟨raw, record.familyId, record.expiresAt⟩] } := by
  have hnew : w.store.tokens.lookup (hashToken sha256 raw) = none := by
    cases hlookup : w.store.tokens.lookup (hashToken sha256 raw) with
    | none => rfl
    | some r =>
        obtain ⟨m, hm, hhash, -⟩ := hw.origin hlookup
        exact absurd hhash (hfresh _ (hw.raw_mem hm))
  constructor
  · exact hw.kept.give hnew hrest
  · simp [hw.recorded]
  · intro m hm
    rcases List.mem_append.mp hm with hm | hm
    · exact hids (hw.families m hm)
    · rw [List.mem_singleton.mp hm]
      exact hfamily
  · intro h r hr
    rw [RefreshSessionStore.lookup_give] at hr
    split at hr
    · next heq =>
        cases hr
        exact ⟨_, List.mem_append_right _ (List.mem_singleton.mpr rfl), heq.symm, rfl⟩
    · obtain ⟨m, hm, hrest⟩ := hw.origin hr
      exact ⟨m, List.mem_append_left _ hm, hrest⟩
  · intro m hm
    rcases List.mem_append.mp hm with hm | hm
    · rcases hw.present m hm with ⟨r, hr, hmatch⟩ | hdead
      · refine .inl ⟨r, ?_, hmatch⟩
        rw [RefreshSessionStore.lookup_give, if_neg (hfresh _ (hw.raw_mem hm)), hr]
      · refine .inr fun h r hr => ?_
        rw [RefreshSessionStore.lookup_give] at hr
        split at hr
        · cases hr
          exact (halive m hm hdead).symm
        · exact hdead h r hr
    · obtain rfl := List.mem_singleton.mp hm
      exact .inl ⟨record, by rw [RefreshSessionStore.lookup_give, if_pos rfl], rfl, rfl⟩
  · intro used hused r hr
    rw [RefreshSessionStore.lookup_give, if_neg (hfresh _ (hw.rotated_given _ hused))] at hr
    exact hw.used used hused r hr
  · exact fun used hused => List.mem_append_left _ (hw.rotated_given used hused)
  · exact hw.once

theorem mark (hw : Ledger sha256 w) {h : String} {record : RefreshTokenRecord}
    (hrecord : w.store.tokens.lookup h = some record) :
    Ledger sha256 { w with store := w.store.mark h record } := by
  have hold : ∀ {h' r}, (w.store.mark h record).tokens.lookup h' = some r →
      ∃ r', w.store.tokens.lookup h' = some r' ∧ r.familyId = r'.familyId ∧
        (r'.revoked = true → r.revoked = true) := by
    intro h' r hr
    rw [RefreshSessionStore.lookup_mark] at hr
    split at hr
    · next heq =>
        cases hr
        exact ⟨record, heq ▸ hrecord, rfl, fun _ => rfl⟩
    · exact ⟨r, hr, rfl, id⟩
  refine ⟨hw.kept.mark hrecord, hw.recorded, hw.families, ?_, ?_, ?_, hw.rotated_given, hw.once⟩
  · intro h' r hr
    obtain ⟨r', hr', hfamily, -⟩ := hold hr
    exact hfamily ▸ hw.origin hr'
  · intro m hm
    rcases hw.present m hm with ⟨r, hr, hfamily, hexpires⟩ | hdead
    · left
      simp only [RefreshSessionStore.lookup_mark]
      split
      · next heq =>
          rw [heq, hrecord] at hr
          cases hr
          exact ⟨_, rfl, hfamily, hexpires⟩
      · exact ⟨r, hr, hfamily, hexpires⟩
    · refine .inr fun h' r hr => ?_
      obtain ⟨r', hr', hfamily, -⟩ := hold hr
      exact hfamily ▸ hdead h' r' hr'
  · intro raw hraw r hr
    obtain ⟨r', hr', -, hrevoked⟩ := hold hr
    exact hrevoked (hw.used raw hraw r' hr')

theorem revokeFamily (hw : Ledger sha256 w) (f : String) :
    Ledger sha256 { w with store := w.store.revokeFamily f } := by
  have hold : ∀ {h r}, (w.store.revokeFamily f).tokens.lookup h = some r →
      w.store.tokens.lookup h = some r :=
    fun hr => ((RefreshSessionStore.lookup_revokeFamily hw.kept).mp hr).1
  refine ⟨hw.kept.revokeFamily f, hw.recorded, hw.families, fun hr => hw.origin (hold hr), ?_,
    fun raw hraw r hr => hw.used raw hraw r (hold hr), hw.rotated_given, hw.once⟩
  intro m hm
  by_cases hf : m.family = f
  · exact .inr fun h r hr =>
      hf ▸ ((RefreshSessionStore.lookup_revokeFamily hw.kept).mp hr).2
  · rcases hw.present m hm with ⟨r, hr, hfamily, hexpires⟩ | hdead
    · exact .inl ⟨r, (RefreshSessionStore.lookup_revokeFamily hw.kept).mpr
        ⟨hr, hfamily ▸ hf⟩, hfamily, hexpires⟩
    · exact .inr fun h r hr => hdead h r (hold hr)

end Ledger

/-! ## Steps -/

section Step

variable (w) (e : Draws × SessionCall)

/-- What a step generates is added to what was generated before. -/
theorem step_grows : w.tokens <+: (w.step sha256 e).tokens ∧
    w.familyIds <+: (w.step sha256 e).familyIds ∧ w.members <+: (w.step sha256 e).members := by
  obtain ⟨draws, call⟩ := e
  cases call with
  | issue userId username role => simp [step]
  | rotate raw =>
      simp only [step]
      split <;> simp
  | revokeFamily familyId => simp [step]
  | revokeToken raw => simp [step]

end Step

theorem fresh_of_nodup {ts : List String} {t : String} (h : (ts ++ [t]).Nodup) : t ∉ ts := by
  rw [List.nodup_append] at h
  exact fun hmem => h.2.2 t hmem t (by simp) rfl

/-- The new token hashes to something new. -/
theorem fresh_hash {ts rest : List String} {t : String} (hnodup : (ts ++ [t]).Nodup)
    (hcf : CollisionFree sha256 ((ts ++ [t]) ++ rest)) :
    ∀ t' ∈ ts, hashToken sha256 t' ≠ hashToken sha256 t := by
  intro t' ht' hhash
  have heq := hcf.eq (by simp [ht']) (by simp) hhash
  exact fresh_of_nodup hnodup (heq ▸ ht')

namespace Ledger

theorem spend (hw : Ledger sha256 w) {raw : String} (hunused : raw ∉ w.rotated)
    (hgiven : raw ∈ w.tokens)
    (hrevoked : ∀ r, w.store.tokens.lookup (hashToken sha256 raw) = some r → r.revoked = true) :
    Ledger sha256 { w with rotated := w.rotated ++ [raw] } := by
  refine { hw with used := ?_, rotated_given := ?_, once := ?_ }
  · intro raw' hmem
    rcases List.mem_append.mp hmem with hmem | hmem
    · exact hw.used raw' hmem
    · rw [List.mem_singleton.mp hmem]
      exact hrevoked
  · intro raw' hmem
    rcases List.mem_append.mp hmem with hmem | hmem
    · exact hw.rotated_given raw' hmem
    · rwa [List.mem_singleton.mp hmem]
  · rw [List.nodup_append]
    refine ⟨hw.once, List.nodup_singleton raw, ?_⟩
    rintro a ha b hb rfl
    exact hunused (List.mem_singleton.mp hb ▸ ha)

theorem issue (hw : Ledger sha256 w) (draws : Draws) (userId : Int64) (username role : String)
    (hfresh : ∀ t ∈ w.tokens, hashToken sha256 t ≠
      hashToken sha256 (generateOpaqueRefreshToken draws.token))
    (hfamily : generateTokenFamilyId draws.family ∉ w.familyIds) :
    Ledger sha256 (w.step sha256 (draws, .issue userId username role)) := by
  have hother : ∀ m ∈ w.members, m.family ≠ generateTokenFamilyId draws.family := by
    intro m hm heq
    exact hfamily (heq ▸ hw.families m hm)
  have hrest : ∀ h r, w.store.tokens.lookup h = some r →
      r.familyId = generateTokenFamilyId draws.family → r.revoked = true := by
    intro h r hr heq
    obtain ⟨m, hm, -, hmr⟩ := hw.origin hr
    exact absurd (hmr.trans heq) (hother m hm)
  exact hw.give hfresh hrest (fun m hm _ => hother m hm) (by simp) (by simp)

theorem rotate (hw : Ledger sha256 w) (draws : Draws) (raw : String)
    (hnodup : w.tokens.Nodup) (hcf : CollisionFree sha256 (raw :: w.tokens))
    (hfresh : ∀ result, (w.store.rotateToken sha256 draws raw).1 = .ok result →
      ∀ t ∈ w.tokens, hashToken sha256 t ≠
        hashToken sha256 (generateOpaqueRefreshToken draws.token)) :
    Ledger sha256 (w.step sha256 (draws, .rotate raw)) := by
  cases hlookup : w.store.tokens.lookup (hashToken sha256 raw) with
  | none => simpa only [step, RefreshSessionStore.rotateToken_unknown hlookup] using hw
  | some record =>
      by_cases hexpired : record.expiresAt < draws.now
      · simpa only [step, RefreshSessionStore.rotateToken_expired hlookup hexpired] using hw
      · cases hrevoked : record.revoked with
        | true =>
            simpa only [step, RefreshSessionStore.rotateToken_reuse hlookup hexpired hrevoked]
              using hw.revokeFamily record.familyId
        | false =>
            have hok := RefreshSessionStore.rotateToken_ok hw.kept hlookup hexpired hrevoked
            obtain ⟨m, hm, hhash, hfamily⟩ := hw.origin hlookup
            have hraw : m.raw = raw :=
              hcf.eq (List.mem_cons_of_mem _ (hw.raw_mem hm)) List.mem_cons_self hhash
            have hfind : w.members.find? (fun m => m.raw = raw) = some m := by
              cases hsome : w.members.find? fun m => m.raw = raw with
              | none => exact absurd hraw (by simpa using List.find?_eq_none.mp hsome m hm)
              | some m' =>
                  have hm' := List.mem_of_find?_eq_some hsome
                  have hraw' : m'.raw = raw := by simpa using List.find?_some hsome
                  rw [hw.member_eq hnodup hm' hm (hraw'.trans hraw.symm)]
            let next := { record with expiresAt := draws.now + thirtyDays, revoked := false }
            have hgiven := @give sha256 _ (hw.mark hlookup) _ next _
              (hfresh _ (congrArg Prod.fst hok)) ?_ ?_ (List.Subset.refl _)
              (hfamily ▸ hw.families m hm)
            · simp only [step, hok, hfind, Option.map_some, Option.toList_some]
              have hunused : raw ∉ w.rotated := by
                intro hmem
                rw [hw.used raw hmem record hlookup] at hrevoked
                cases hrevoked
              rw [hfamily]
              refine hgiven.spend hunused (List.mem_append_left _ (hraw ▸ hw.raw_mem hm)) ?_
              intro r hr
              rw [RefreshSessionStore.lookup_give,
                if_neg (hraw ▸ hfresh _ (congrArg Prod.fst hok) _ (hw.raw_mem hm)),
                RefreshSessionStore.lookup_mark, if_pos rfl] at hr
              cases hr
              rfl
            · intro h r hr heq
              rw [RefreshSessionStore.lookup_mark] at hr
              split at hr
              · cases hr; rfl
              · next hne =>
                  by_contra hlive
                  exact hne (hw.kept.single hr hlookup heq (by simpa using hlive) hrevoked)
            · rintro m' hm' hdead heq
              refine hdead (hashToken sha256 raw) { record with revoked := true } ?_ heq.symm
              rw [RefreshSessionStore.lookup_mark, if_pos rfl]

end Ledger

/-! ## Runs -/

/-- Nothing that the run generates repeats, and the hash tells its tokens apart. -/
structure Fresh (sha256 : Bytes → Bytes) (events : List (Draws × SessionCall)) : Prop where
  tokens : (run sha256 events).tokens.Nodup
  familyIds : (run sha256 events).familyIds.Nodup
  hashes : CollisionFree sha256 ((run sha256 events).tokens ++ presented events)

theorem run_append (past later : List (Draws × SessionCall)) :
    run sha256 (past ++ later) = later.foldl (step sha256) (run sha256 past) :=
  List.foldl_append

theorem run_grows (past later : List (Draws × SessionCall)) :
    (run sha256 past).tokens <+: (run sha256 (past ++ later)).tokens ∧
      (run sha256 past).familyIds <+: (run sha256 (past ++ later)).familyIds ∧
      (run sha256 past).members <+: (run sha256 (past ++ later)).members := by
  rw [run_append]
  induction later generalizing past with
  | nil => simp
  | cons e later ih =>
      obtain ⟨htokens, hids, hmembers⟩ := @step_grows sha256 (run sha256 past) e
      have hnext : run sha256 (past ++ [e]) = (run sha256 past).step sha256 e := by
        simp [run_append]
      obtain ⟨htokens', hids', hmembers'⟩ := ih (past ++ [e])
      rw [hnext] at htokens' hids' hmembers'
      exact ⟨htokens.trans htokens', hids.trans hids', hmembers.trans hmembers'⟩

theorem Fresh.past {past later : List (Draws × SessionCall)}
    (h : Fresh sha256 (past ++ later)) : Fresh sha256 past where
  tokens := h.tokens.sublist (run_grows past later).1.sublist
  familyIds := h.familyIds.sublist (run_grows past later).2.1.sublist
  hashes := by
    refine h.hashes.mono fun t ht => ?_
    rcases List.mem_append.mp ht with ht | ht
    · exact List.mem_append_left _ ((run_grows past later).1.subset ht)
    · exact List.mem_append_right _ (by simp [presented] at ht ⊢; exact .inl ht)

theorem Ledger.step {past : List (Draws × SessionCall)} {e : Draws × SessionCall}
    (hw : Ledger sha256 (run sha256 past)) (hfresh : Fresh sha256 (past ++ [e])) :
    Ledger sha256 (run sha256 (past ++ [e])) := by
  have hnodup := hfresh.past.tokens
  have hnext : run sha256 (past ++ [e]) = (run sha256 past).step sha256 e := by simp [run_append]
  obtain ⟨htokens, hids, hhashes⟩ := hfresh
  rw [hnext] at htokens hids hhashes ⊢
  obtain ⟨draws, call⟩ := e
  cases call with
  | issue userId username role =>
      exact hw.issue draws userId username role (fresh_hash htokens hhashes) (fresh_of_nodup hids)
  | rotate raw =>
      refine hw.rotate draws raw hnodup (hhashes.mono fun t ht => ?_) ?_
      · rcases List.mem_cons.mp ht with rfl | ht
        · exact List.mem_append_right _ (by simp [presented, SessionCall.presented])
        · exact List.mem_append_left _ ((step_grows _ _).1.subset ht)
      · intro result hresult
        have hok : ((run sha256 past).step sha256 (draws, .rotate raw)).tokens =
            (run sha256 past).tokens ++ [generateOpaqueRefreshToken draws.token] := by
          obtain ⟨record, hlookup, hexpired, hrevoked⟩ :=
            RefreshSessionStore.lookup_of_rotated hresult
          simp only [Sessions.step,
            RefreshSessionStore.rotateToken_ok hw.kept hlookup hexpired hrevoked]
        rw [hok] at htokens hhashes
        exact fresh_hash htokens hhashes
  | revokeFamily familyId => exact hw.revokeFamily familyId
  | revokeToken raw =>
      cases hlookup : (run sha256 past).store.tokens.lookup (hashToken sha256 raw) with
      | none => simpa only [Sessions.step, RefreshSessionStore.revokeToken_unknown hlookup] using hw
      | some record =>
          simpa only [Sessions.step, RefreshSessionStore.revokeToken_known hlookup]
            using hw.mark hlookup

theorem Fresh.ledger {events : List (Draws × SessionCall)} (h : Fresh sha256 events) :
    Ledger sha256 (run sha256 events) := by
  induction events using List.reverseRecOn with
  | nil => exact .new
  | append_singleton past e ih => exact (ih h.past).step h

/-! ## The end of a family -/

theorem Ledger.dead_step {past : List (Draws × SessionCall)} {e : Draws × SessionCall} {f : String}
    (hw : Ledger sha256 (run sha256 past)) (hfresh : Fresh sha256 (past ++ [e]))
    (hold : f ∈ (run sha256 past).familyIds) (hdead : Dead (run sha256 past).store f) :
    Dead (run sha256 (past ++ [e])).store f := by
  have hids := hfresh.familyIds
  have hnext : run sha256 (past ++ [e]) = (run sha256 past).step sha256 e := by simp [run_append]
  rw [hnext] at hids ⊢
  obtain ⟨draws, call⟩ := e
  cases call with
  | issue userId username role =>
      intro h r hr
      replace hr := RefreshSessionStore.lookup_give.symm.trans hr
      split at hr
      · cases hr
        rintro rfl
        exact fresh_of_nodup hids hold
      · exact hdead h r hr
  | rotate raw =>
      cases hlookup : (run sha256 past).store.tokens.lookup (hashToken sha256 raw) with
      | none => simpa only [Sessions.step, RefreshSessionStore.rotateToken_unknown hlookup]
      | some record =>
          by_cases hexpired : record.expiresAt < draws.now
          · simpa only [Sessions.step, RefreshSessionStore.rotateToken_expired hlookup hexpired]
          · cases hrevoked : record.revoked with
            | true =>
                simp only [Sessions.step,
                  RefreshSessionStore.rotateToken_reuse hlookup hexpired hrevoked]
                exact fun h r hr =>
                  hdead h r ((RefreshSessionStore.lookup_revokeFamily hw.kept).mp hr).1
            | false =>
                simp only [Sessions.step,
                  RefreshSessionStore.rotateToken_ok hw.kept hlookup hexpired hrevoked]
                intro h r hr
                rw [RefreshSessionStore.lookup_give, RefreshSessionStore.lookup_mark] at hr
                split at hr
                · cases hr; exact hdead _ record hlookup
                · split at hr
                  · cases hr; exact hdead _ record hlookup
                  · exact hdead h r hr
  | revokeFamily familyId =>
      exact fun h r hr => hdead h r ((RefreshSessionStore.lookup_revokeFamily hw.kept).mp hr).1
  | revokeToken raw =>
      cases hlookup : (run sha256 past).store.tokens.lookup (hashToken sha256 raw) with
      | none => simpa only [Sessions.step, RefreshSessionStore.revokeToken_unknown hlookup]
      | some record =>
          simp only [Sessions.step, RefreshSessionStore.revokeToken_known hlookup]
          intro h r hr
          rw [RefreshSessionStore.lookup_mark] at hr
          split at hr
          · cases hr; exact hdead _ record hlookup
          · exact hdead h r hr

/-- A family without records stays so. -/
theorem Fresh.dead {past later : List (Draws × SessionCall)} {f : String}
    (h : Fresh sha256 (past ++ later)) (hold : f ∈ (run sha256 past).familyIds)
    (hdead : Dead (run sha256 past).store f) : Dead (run sha256 (past ++ later)).store f := by
  induction later using List.reverseRecOn with
  | nil => simpa using hdead
  | append_singleton later e ih =>
      rw [← List.append_assoc] at h ⊢
      exact h.past.ledger.dead_step h ((run_grows past later).2.1.subset hold) (ih h.past)

/-- The replay of a rotated token leaves no record of its family. -/
theorem Ledger.replay (hw : Ledger sha256 w) (hnodup : w.tokens.Nodup)
    (hcf : CollisionFree sha256 w.tokens) {m : Member} (hm : m ∈ w.members)
    (hrotated : m.raw ∈ w.rotated) {draws : Draws} (hlive : ¬m.expiresAt < draws.now) :
    Dead (w.step sha256 (draws, .rotate m.raw)).store m.family := by
  rcases hw.present m hm with ⟨r, hlookup, hfamily, hexpires⟩ | hdead
  · have hrevoked := hw.used m.raw hrotated r hlookup
    simp only [Sessions.step,
      RefreshSessionStore.rotateToken_reuse hlookup (hexpires ▸ hlive) hrevoked]
    exact fun h r' hr' => hfamily ▸ ((RefreshSessionStore.lookup_revokeFamily hw.kept).mp hr').2
  · have hnone : w.store.tokens.lookup (hashToken sha256 m.raw) = none := by
      cases hlookup : w.store.tokens.lookup (hashToken sha256 m.raw) with
      | none => rfl
      | some r => exact absurd (hw.family_of_record hnodup hcf hm hlookup) (hdead _ r hlookup)
    simpa only [Sessions.step, RefreshSessionStore.rotateToken_unknown hnone]

end Sessions

open Sessions

/--
Every family has one token that rotation would take, every token is rotated once,
and after the replay of a rotated, unexpired token no token of its family is taken.
-/
theorem refresh_families {sha256 : Bytes → Bytes} {events : List (Draws × SessionCall)}
    (hfresh : Fresh sha256 events) :
    (∀ m ∈ (run sha256 events).members, ∀ m' ∈ (run sha256 events).members,
      m.family = m'.family → Accepts sha256 (run sha256 events) m.raw →
      Accepts sha256 (run sha256 events) m'.raw → m = m') ∧
    (run sha256 events).rotated.Nodup ∧
    ∀ past draws m later, events = past ++ (draws, .rotate m.raw) :: later →
      m ∈ (run sha256 past).members → m.raw ∈ (run sha256 past).rotated →
      ¬m.expiresAt < draws.now →
      ∀ m' ∈ (run sha256 events).members, m'.family = m.family →
        ¬Accepts sha256 (run sha256 events) m'.raw := by
  have hledger := hfresh.ledger
  have hcf := hfresh.hashes.mono (List.subset_append_left _ _)
  refine ⟨?_, hledger.once, ?_⟩
  · rintro m hm m' hm' hfamily ⟨_, _, hok⟩ ⟨_, _, hok'⟩
    obtain ⟨r, hr, -, hlive⟩ := RefreshSessionStore.lookup_of_rotated hok
    obtain ⟨r', hr', -, hlive'⟩ := RefreshSessionStore.lookup_of_rotated hok'
    have hsame : r.familyId = r'.familyId := by
      rw [hledger.family_of_record hfresh.tokens hcf hm hr, hfamily,
        hledger.family_of_record hfresh.tokens hcf hm' hr']
    have hraw := hcf.eq (hledger.raw_mem hm) (hledger.raw_mem hm')
      (hledger.kept.single hr hr' hsame hlive hlive')
    exact hledger.member_eq hfresh.tokens hm hm' hraw
  · rintro past draws m later rfl hm hrotated hlive m' hm' hfamily ⟨_, _, hok⟩
    rw [List.append_cons] at hfresh hok hm' hcf hledger
    have hpast := hfresh.past.past
    have hdead := hpast.ledger.replay hpast.tokens
      (hpast.hashes.mono (List.subset_append_left _ _)) hm hrotated hlive
    have hend := hfresh.dead (f := m.family)
      ((run_grows past _).2.1.subset (hpast.ledger.families m hm)) (by simpa [run_append] using hdead)
    obtain ⟨r, hr, -⟩ := RefreshSessionStore.lookup_of_rotated hok
    exact hend _ r hr ((hledger.family_of_record hfresh.tokens hcf hm' hr).trans hfamily)

/-! A token is issued, rotated, and presented once more. -/

def issueDraws : Draws where
  now := 1700000000
  token := List.replicate 32 1
  family := List.replicate 16 7
  claimsNow := 1700000000
  jti := []

def rotateDraws : Draws where
  now := 1700000060
  token := List.replicate 32 2
  family := []
  claimsNow := 1700000060
  jti := List.replicate 16 9

def issuedMember : Member where
  raw := generateOpaqueRefreshToken issueDraws.token
  family := generateTokenFamilyId issueDraws.family
  expiresAt := issueDraws.now + thirtyDays

def replayRun : List (Draws × SessionCall) :=
  [(issueDraws, .issue 500 "dev" "user"), (rotateDraws, .rotate issuedMember.raw),
    (rotateDraws, .rotate issuedMember.raw)]

/-- SHA-256 on the two tokens of the run. -/
def sampleSha256 (data : Bytes) : Bytes :=
  if data = utf8 issuedMember.raw then
    [120, 216, 148, 79, 91, 200, 203, 190, 15, 52, 243, 213, 233, 192, 121, 96, 75, 123, 254, 93,
      198, 19, 172, 215, 178, 66, 109, 146, 80, 168, 172, 153]
  else if data = utf8 (generateOpaqueRefreshToken rotateDraws.token) then
    [120, 237, 93, 128, 73, 25, 144, 27, 100, 80, 52, 250, 38, 206, 7, 44, 61, 108, 174, 82, 177,
      21, 195, 210, 18, 208, 57, 2, 215, 153, 227, 81]
  else []

theorem fresh_replayRun : Fresh sampleSha256 replayRun where
  tokens := by decide
  familyIds := by decide
  hashes := by unfold CollisionFree; decide

theorem refresh_families_replay :
    ¬Accepts sampleSha256 (run sampleSha256 replayRun)
      (generateOpaqueRefreshToken rotateDraws.token) :=
  (refresh_families fresh_replayRun).2.2 (replayRun.take 2) rotateDraws issuedMember [] rfl
    (by decide) (by decide) (by decide)
    { issuedMember with
      raw := generateOpaqueRefreshToken rotateDraws.token
      expiresAt := rotateDraws.now + thirtyDays }
    (by decide) rfl

end ChocoBase.Auth
