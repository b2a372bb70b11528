import ChocoBase.Plan.Expr
import ChocoBase.Sql.Library
import Mathlib.Data.List.AList
import Mathlib.Data.List.Induction

/-!
# Presence in a channel

Clients announce themselves under keys they choose.  An entry belongs to the user who
tracked it: others may not untrack it, but they may track over it.
-/

namespace ChocoBase.Server

open ChocoBase.Auth ChocoBase.Sql

structure PresenceEntry where
  key : String
  userId : Option Int64
  role : String
  state : Json
  updatedAt : UInt64

abbrev ChannelPresence := AList fun _ : String => PresenceEntry

structure RealtimeChannelManager where
  presence : AList fun _ : String => ChannelPresence

namespace RealtimeChannelManager

def new : RealtimeChannelManager where
  presence := ∅

def trackPresence (m : RealtimeChannelManager) (now : UInt64) (channel key : String) (state : Json)
    (ctx : ExecutionContext) : PresenceEntry × RealtimeChannelManager :=
  let channelPresence := (m.presence.lookup channel).getD ∅
  let entry : PresenceEntry := {
    key
    userId := ctx.userId
    role := ctx.role.getD "anon"
    state
    updatedAt := now }
  (entry, ⟨m.presence.insert channel (channelPresence.insert key entry)⟩)

/-- In the order of the map, which is not specified. -/
def getPresence (m : RealtimeChannelManager) (channel : String) : List PresenceEntry :=
  match m.presence.lookup channel with
  | some channelPresence => channelPresence.entries.map Sigma.snd
  | none => []

/-- The check of the owner that `untrack_presence` makes. -/
def refusal (entry : PresenceEntry) (ctx : ExecutionContext) : Option String :=
  if ctx.isAdmin then none
  else
    match entry.userId, ctx.userId with
    | some owner, some caller =>
        if owner ≠ caller then some "cannot untrack presence key owned by another user" else none
    | some _, none => some "authentication required to untrack authenticated presence key"
    | none, _ => none

def untrackPresence (m : RealtimeChannelManager) (channel key : String) (ctx : ExecutionContext) :
    Except String Bool × RealtimeChannelManager :=
  match m.presence.lookup channel with
  | none => (.ok false, m)
  | some channelPresence =>
      match channelPresence.lookup key with
      | none => (.ok false, m)
      | some entry =>
          match refusal entry ctx with
          | some error => (.error error, m)
          | none => (.ok true, ⟨m.presence.insert channel (channelPresence.erase key)⟩)

/-- The entry under a key of a channel. -/
def entryOf (m : RealtimeChannelManager) (channel key : String) : Option PresenceEntry :=
  (m.presence.lookup channel).bind (AList.lookup key)

variable {m : RealtimeChannelManager} {now : UInt64} {channel key channel' key' : String}
  {state : Json} {ctx : ExecutionContext} {entry : PresenceEntry}

theorem mem_getPresence : entry ∈ m.getPresence channel ↔
    ∃ key, m.entryOf channel key = some entry := by
  unfold getPresence entryOf
  cases m.presence.lookup channel with
  | none => simp
  | some channelPresence =>
      simp only [List.mem_map, Option.bind_some]
      constructor
      · rintro ⟨⟨key, entry'⟩, hmem, rfl⟩
        exact ⟨key, AList.mem_lookup_iff.mpr hmem⟩
      · rintro ⟨key, hlookup⟩
        exact ⟨⟨key, entry⟩, AList.mem_lookup_iff.mp hlookup, rfl⟩

theorem entryOf_trackPresence :
    (m.trackPresence now channel key state ctx).2.entryOf channel key =
      some (m.trackPresence now channel key state ctx).1 := by
  simp [trackPresence, entryOf]

theorem entryOf_trackPresence_ne (hne : (channel', key') ≠ (channel, key)) :
    (m.trackPresence now channel key state ctx).2.entryOf channel' key' =
      m.entryOf channel' key' := by
  unfold trackPresence entryOf
  by_cases hchannel : channel' = channel
  · subst hchannel
    have hkey : key' ≠ key := fun h => hne (by rw [h])
    rw [AList.lookup_insert, Option.bind_some, AList.lookup_insert_ne hkey]
    cases m.presence.lookup channel' <;> simp
  · rw [AList.lookup_insert_ne hchannel]

theorem untrackPresence_none (h : m.entryOf channel key = none) :
    m.untrackPresence channel key ctx = (.ok false, m) := by
  unfold entryOf at h
  unfold untrackPresence
  cases hchannel : m.presence.lookup channel with
  | none => rfl
  | some channelPresence =>
      rw [hchannel, Option.bind_some] at h
      simp [h]

theorem untrackPresence_refused {error : String} (h : m.entryOf channel key = some entry)
    (hrefused : refusal entry ctx = some error) :
    m.untrackPresence channel key ctx = (.error error, m) := by
  obtain ⟨channelPresence, hchannel, hentry⟩ := Option.bind_eq_some_iff.mp h
  simp [untrackPresence, hchannel, hentry, hrefused]

theorem entryOf_untrackPresence (h : m.entryOf channel key = some entry)
    (hallowed : refusal entry ctx = none) :
    (m.untrackPresence channel key ctx).2.entryOf channel key = none := by
  obtain ⟨channelPresence, hchannel, hentry⟩ := Option.bind_eq_some_iff.mp h
  simp [untrackPresence, hchannel, hentry, hallowed, entryOf, AList.lookup_erase]

theorem entryOf_untrackPresence_ne (hne : (channel', key') ≠ (channel, key)) :
    (m.untrackPresence channel key ctx).2.entryOf channel' key' = m.entryOf channel' key' := by
  cases h : m.entryOf channel key with
  | none => rw [untrackPresence_none h]
  | some entry =>
      cases hrefused : refusal entry ctx with
      | some error => rw [untrackPresence_refused h hrefused]
      | none =>
          obtain ⟨channelPresence, hchannel, hentry⟩ := Option.bind_eq_some_iff.mp h
          simp only [untrackPresence, hchannel, hentry, hrefused, entryOf]
          by_cases heq : channel' = channel
          · subst heq
            have hkey : key' ≠ key := fun h => hne (by rw [h])
            rw [AList.lookup_insert, hchannel, Option.bind_some, Option.bind_some,
              AList.lookup_erase_ne hkey]
          · rw [AList.lookup_insert_ne heq]

end RealtimeChannelManager

/-! ## Runs -/

inductive PresenceOp where
  | track (state : Json) (now : UInt64)
  | untrack

structure PresenceCall where
  channel : String
  key : String
  ctx : ExecutionContext
  op : PresenceOp

namespace PresenceCall

open RealtimeChannelManager

def apply (m : RealtimeChannelManager) (c : PresenceCall) : RealtimeChannelManager :=
  match c.op with
  | .track state now => (m.trackPresence now c.channel c.key state c.ctx).2
  | .untrack => (m.untrackPresence c.channel c.key c.ctx).2

def run (calls : List PresenceCall) : RealtimeChannelManager := calls.foldl apply .new

/-- The caller is the user, or an admin. -/
def By (c : PresenceCall) (user : Int64) : Prop := c.ctx.isAdmin = true ∨ c.ctx.userId = some user

/-- What the users tracked is present, up to the calls that they or an admin make. -/
def KeepsOwners (calls : List PresenceCall) : Prop :=
  ∀ before c after state now user, calls = before ++ c :: after →
    c.op = .track state now → c.ctx.userId = some user →
    (∀ c' ∈ after, c'.channel = c.channel → c'.key = c.key → ¬c'.By user) →
    ∃ entry, (run calls).entryOf c.channel c.key = some entry ∧ entry.userId = some user ∧
      entry.state = state

/-- The call tracks over an entry of another user. -/
def Displaces (m : RealtimeChannelManager) (c : PresenceCall) : Prop :=
  (∃ state now, c.op = .track state now) ∧
    ∃ entry user, m.entryOf c.channel c.key = some entry ∧ entry.userId = some user ∧ ¬c.By user

variable {m : RealtimeChannelManager} {c : PresenceCall} {calls : List PresenceCall}
  {channel key : String} {entry : PresenceEntry} {user : Int64} {state : Json} {now : UInt64}

theorem run_append : run (calls ++ [c]) = apply (run calls) c := by
  simp [run]

theorem entryOf_apply_ne (hne : (channel, key) ≠ (c.channel, c.key)) :
    (apply m c).entryOf channel key = m.entryOf channel key := by
  unfold apply
  cases c.op with
  | track state now => exact entryOf_trackPresence_ne hne
  | untrack => exact entryOf_untrackPresence_ne hne

theorem entryOf_apply_track (hop : c.op = .track state now) :
    ∃ entry, (apply m c).entryOf c.channel c.key = some entry ∧ entry.userId = c.ctx.userId ∧
      entry.state = state := by
  simp only [apply, hop]
  exact ⟨_, entryOf_trackPresence, rfl, rfl⟩

/-- The check of `untrack_presence` is the one that the owner needs. -/
theorem refusal_isSome_iff {ctx : ExecutionContext} (howner : entry.userId = some user) :
    (refusal entry ctx).isSome ↔ ¬(ctx.isAdmin = true ∨ ctx.userId = some user) := by
  unfold refusal
  rw [howner]
  cases ctx.isAdmin with
  | true => simp
  | false =>
      cases hcaller : ctx.userId with
      | none => simp
      | some caller =>
          by_cases heq : user = caller
          · simp [heq]
          · simp [heq, Ne.symm heq]

theorem apply_untrack_of_not_by (hop : c.op = .untrack)
    (h : m.entryOf c.channel c.key = some entry) (howner : entry.userId = some user)
    (hby : ¬c.By user) : apply m c = m := by
  obtain ⟨error, herror⟩ := Option.isSome_iff_exists.mp ((refusal_isSome_iff howner).mpr hby)
  simp only [apply, hop, untrackPresence_refused h herror]

/-- A present entry is of the last call that touched its key. -/
theorem exists_track (h : (run calls).entryOf channel key = some entry) :
    ∃ before c after now, calls = before ++ c :: after ∧ c.channel = channel ∧ c.key = key ∧
      c.op = .track entry.state now ∧ c.ctx.userId = entry.userId ∧
      ∀ user, entry.userId = some user →
        ∀ c' ∈ after, c'.channel = channel → c'.key = key → ¬c'.By user := by
  induction calls using List.reverseRecOn with
  | nil => cases h
  | append_singleton calls last ih =>
      rw [run_append] at h
      -- the entry is older than the last call
      have hold (h : (run calls).entryOf channel key = some entry)
          (hlast : ∀ user, entry.userId = some user →
            last.channel = channel → last.key = key → ¬last.By user) :
          ∃ before c after now, calls ++ [last] = before ++ c :: after ∧ c.channel = channel ∧
            c.key = key ∧ c.op = .track entry.state now ∧ c.ctx.userId = entry.userId ∧
            ∀ user, entry.userId = some user →
              ∀ c' ∈ after, c'.channel = channel → c'.key = key → ¬c'.By user := by
        obtain ⟨before, c, after, now, rfl, hchannel, hkey, hop, huser, hafter⟩ := ih h
        refine ⟨before, c, after ++ [last], now, by simp, hchannel, hkey, hop, huser, ?_⟩
        intro user howner c' hc'
        rcases List.mem_append.mp hc' with hc' | hc'
        · exact hafter user howner c' hc'
        · rw [List.mem_singleton.mp hc']
          exact hlast user howner
      by_cases hne : (channel, key) = (last.channel, last.key)
      · obtain ⟨rfl, rfl⟩ := Prod.mk.inj hne
        cases hop : last.op with
        | track state now =>
            simp only [apply, hop] at h
            obtain rfl := Option.some.inj (entryOf_trackPresence.symm.trans h)
            exact ⟨calls, last, [], now, rfl, rfl, rfl, hop, rfl, by simp⟩
        | untrack =>
            simp only [apply, hop] at h
            cases hentry : (run calls).entryOf last.channel last.key with
            | none =>
                rw [untrackPresence_none hentry, hentry] at h
                cases h
            | some found =>
                cases hrefused : refusal found last.ctx with
                | none =>
                    rw [entryOf_untrackPresence hentry hrefused] at h
                    cases h
                | some error =>
                    rw [untrackPresence_refused hentry hrefused, hentry] at h
                    obtain rfl := Option.some.inj h
                    refine hold hentry fun user howner _ _ => ?_
                    exact (refusal_isSome_iff howner).mp (by rw [hrefused]; rfl)
      · rw [entryOf_apply_ne hne] at h
        exact hold h fun user _ hchannel hkey => absurd (by rw [hchannel, hkey]) hne

/-- One call: the entry of a user stays unless the user, an admin or a displacing call acts. -/
theorem entry_apply (h : m.entryOf channel key = some entry) (howner : entry.userId = some user)
    (hby : c.channel = channel → c.key = key → ¬c.By user) (hkeeps : ¬c.Displaces m) :
    (apply m c).entryOf channel key = some entry := by
  by_cases hne : (channel, key) = (c.channel, c.key)
  · obtain ⟨rfl, rfl⟩ := Prod.mk.inj hne
    cases hop : c.op with
    | track state now =>
        exact absurd ⟨⟨state, now, hop⟩, entry, user, h, howner, hby rfl rfl⟩ hkeeps
    | untrack => rw [apply_untrack_of_not_by hop h howner (hby rfl rfl), h]
  · rw [entryOf_apply_ne hne, h]

/-- Owners keep their entries through a run exactly when nobody tracks over those of others. -/
theorem keeps_owners_iff (calls : List PresenceCall) :
    (∀ calls', calls' <+: calls → KeepsOwners calls') ↔
      ∀ before c after, calls = before ++ c :: after → ¬c.Displaces (run before) := by
  constructor
  · rintro hkeeps before c after rfl ⟨⟨state, now, hop⟩, entry, user, hentry, howner, hby⟩
    obtain ⟨before, tracked, between, now', rfl, hchannel, hkey, htrack, huser, hbetween⟩ :=
      exists_track hentry
    have hprefix : before ++ tracked :: (between ++ [c]) <+:
        before ++ tracked :: between ++ c :: after := ⟨after, by simp⟩
    obtain ⟨kept, hkept, hkeptUser, -⟩ := hkeeps _ hprefix before tracked (between ++ [c])
      entry.state now' user rfl htrack (huser.trans howner) (by
        intro c' hc' hchannel' hkey'
        rcases List.mem_append.mp hc' with hc' | hc'
        · exact hbetween user howner c' hc' (hchannel'.trans hchannel) (hkey'.trans hkey)
        · rw [List.mem_singleton.mp hc']
          exact hby)
    obtain ⟨new, hnew, hnewUser, -⟩ :=
      entryOf_apply_track (m := run (before ++ tracked :: between)) hop
    have hrun : run (before ++ tracked :: (between ++ [c])) =
        apply (run (before ++ tracked :: between)) c := by
      rw [← run_append]
      simp
    rw [hrun, hchannel, hkey, hnew] at hkept
    obtain rfl := Option.some.inj hkept
    exact hby (.inr (hnewUser.symm.trans hkeptUser))
  · rintro hnone calls' ⟨rest, rfl⟩ before c after state now user rfl hop huser hafter
    induction after using List.reverseRecOn generalizing rest with
    | nil =>
        obtain ⟨entry, hentry, howner, hstate⟩ := entryOf_apply_track (m := run before) hop
        exact ⟨entry, by rw [run_append, hentry], howner.trans huser, hstate⟩
    | append_singleton after last ih =>
        obtain ⟨entry, hentry, howner, hstate⟩ := ih (last :: rest) (by simpa using hnone)
          fun c' hc' => hafter c' (List.mem_append_left _ hc')
        refine ⟨entry, ?_, howner, hstate⟩
        have hlast := hafter last (List.mem_append_right _ (List.mem_singleton.mpr rfl))
        have hkeeps := hnone (before ++ c :: after) last rest (by simp)
        rw [show before ++ c :: (after ++ [last]) = before ++ c :: after ++ [last] by simp,
          run_append]
        exact entry_apply hentry howner hlast hkeeps

/-- A user tracks over the entry of another. -/
theorem track_displaces_owner : ¬KeepsOwners [
    ⟨"room", "seat", ⟨some 1, none, false⟩, .track (.string "here") 100⟩,
    ⟨"room", "seat", ⟨some 2, none, false⟩, .track (.string "mine") 101⟩] := by
  intro h
  obtain ⟨entry, hentry, huser, -⟩ := h [] _ _ _ _ 1 rfl rfl rfl (by simp [By])
  obtain rfl : (⟨"seat", some 2, "anon", .string "mine", 101⟩ : PresenceEntry) = entry :=
    Option.some.inj hentry
  exact absurd huser (by decide)

end PresenceCall

end ChocoBase.Server
