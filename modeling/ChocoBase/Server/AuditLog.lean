import ChocoBase.Foundation.Trace
import ChocoBase.Foundation.Updates
import ChocoBase.Sql.Library
import Mathlib.Data.List.Basic

/-!
# The audit log

Recording an entry takes three statements: one that creates the table, one that reads
the largest id and one that inserts the entry under the next id.  Each statement is
atomic, the three together are not.  The statements appear as what they do to the table
`_audit_logs`.
-/

namespace ChocoBase.Server.Audit

open ChocoBase.Foundation ChocoBase.Sql

structure AuditLogEntry where
  id : Int64
  userId : Option Int64
  action : String
  target : String
  ipAddress : Option String
  metadata : Json
  createdAt : UInt64

/-- The arguments of `record_audit_log`. -/
structure AuditCall where
  userId : Option Int64
  action : String
  target : String
  ipAddress : Option String
  metadata : Json

def AuditCall.entry (c : AuditCall) (nextId : Int64) (now : UInt64) : AuditLogEntry where
  id := nextId
  userId := c.userId
  action := c.action
  target := c.target
  ipAddress := c.ipAddress
  metadata := c.metadata
  createdAt := now

/-! ## The statements -/

inductive SqlError where
  | tableExists
  | noSuchTable
  | duplicateKey
  deriving DecidableEq

/-- The rows of `_audit_logs`, once the table is there. -/
abbrev AuditTable := Option (List AuditLogEntry)

def AuditTable.rows (t : AuditTable) : List AuditLogEntry := t.getD []

/-- `CREATE TABLE _audit_logs (id INTEGER PRIMARY KEY, ..)` -/
def createTable : AuditTable → Except SqlError AuditTable
  | some _ => .error .tableExists
  | none => .ok (some [])

/-- `SELECT id FROM _audit_logs ORDER BY id DESC` -/
def selectIds : AuditTable → Except SqlError (List Int64)
  | some entries => .ok ((entries.map AuditLogEntry.id).mergeSort fun a b => decide (b ≤ a))
  | none => .error .noSuchTable

/-- `INSERT INTO _audit_logs (id, ..) VALUES (..)` -/
def insert (entry : AuditLogEntry) : AuditTable → Except SqlError AuditTable
  | some entries =>
      if entry.id ∈ entries.map AuditLogEntry.id then .error .duplicateKey
      else .ok (some (entries ++ [entry]))
  | none => .error .noSuchTable

/-! ## Calls -/

/-- The next statement of a call, or how it ended. -/
inductive Phase where
  | ensuring
  | selecting (now : UInt64)
  | inserting (now : UInt64) (nextId : Int64)
  /-- returned `Ok` -/
  | recorded (now : UInt64) (nextId : Int64)
  | failed (error : SqlError)
  /-- the next id is out of range -/
  | panicked

structure Running where
  call : AuditCall
  phase : Phase

/-- `i + 1` of the first row, or 1; none if the sum overflows. -/
def nextIdOf : Except SqlError (List Int64) → Option Int64
  | .ok (i :: _) => if i = Int64.maxValue then none else some (i + 1)
  | _ => some 1

def selected (now : UInt64) (ids : Except SqlError (List Int64)) : Phase :=
  match nextIdOf ids with
  | some nextId => .inserting now nextId
  | none => .panicked

/-- `ensure_audit_tables` ignores the result. -/
def ensureAuditTables (t : AuditTable) : AuditTable :=
  match createTable t with
  | .ok t => t
  | .error _ => t

/-- One statement of `record_audit_log`; the clock is read after the first one. -/
def recordAuditLog (t : AuditTable) (clock : UInt64) (r : Running) : Option (AuditTable × Phase) :=
  match r.phase with
  | .ensuring => some (ensureAuditTables t, .selecting clock)
  | .selecting now => some (t, selected now (selectIds t))
  | .inserting now nextId =>
      match insert (r.call.entry nextId now) t with
      | .ok t => some (t, .recorded now nextId)
      | .error e => some (t, .failed e)
  | _ => none

structure Auditing where
  table : AuditTable
  calls : List Running

inductive Action where
  | call (c : AuditCall)
  | statement (caller : Nat) (clock : UInt64)

def step (s : Auditing) : Action → Option Auditing
  | .call c => some { s with calls := s.calls ++ [⟨c, .ensuring⟩] }
  | .statement caller clock => do
      let r ← s.calls[caller]?
      let (table, phase) ← recordAuditLog s.table clock r
      return ⟨table, s.calls.set caller { r with phase }⟩

/-! ## What the log owes its callers -/

/-- The entry of a call that has returned. -/
def Running.entryOf (r : Running) : Option AuditLogEntry :=
  match r.phase with
  | .recorded now nextId => some (r.call.entry nextId now)
  | _ => none

def Running.Failed (r : Running) : Prop :=
  match r.phase with
  | .failed _ | .panicked => True
  | _ => False

/-- What was there, and one entry for each call that has returned. -/
structure Complete (before : AuditTable) (s : Auditing) : Prop where
  returned : ∀ r ∈ s.calls, ¬r.Failed
  entries : s.table.rows.Perm (before.rows ++ s.calls.filterMap Running.entryOf)
  distinct : (s.table.rows.map AuditLogEntry.id).Nodup

def Running.Inserting (r : Running) : Prop :=
  match r.phase with
  | .inserting _ _ => True
  | _ => False

def Running.Selecting (r : Running) : Prop :=
  match r.phase with
  | .selecting _ => True
  | _ => False

/-- A call that reads the largest id, which is not the last one there is, finds no other
call between its own reading and its insert. -/
def Meets (s : Auditing) : Action → Prop
  | .call _ => True
  | .statement caller _ => ∀ r, s.calls[caller]? = some r → r.Selecting →
      (∀ r' ∈ s.calls, ¬r'.Inserting) ∧ Int64.maxValue ∉ s.table.rows.map AuditLogEntry.id

instance : DecidablePred Running.Failed := fun r => by
  unfold Running.Failed
  split <;> infer_instance

instance : DecidablePred Running.Inserting := fun r => by
  unfold Running.Inserting
  split <;> infer_instance

instance : DecidablePred Running.Selecting := fun r => by
  unfold Running.Selecting
  split <;> infer_instance

instance (s : Auditing) : DecidablePred (Meets s)
  | .call _ => instDecidableTrue
  | .statement caller _ =>
      have : Decidable (∀ r, s.calls[caller]? = some r → r.Selecting →
          (∀ r' ∈ s.calls, ¬r'.Inserting) ∧
            Int64.maxValue ∉ s.table.rows.map AuditLogEntry.id) :=
        decidable_of_iff (∀ r ∈ s.calls[caller]?, r.Selecting → (∀ r' ∈ s.calls, ¬r'.Inserting) ∧
          Int64.maxValue ∉ s.table.rows.map AuditLogEntry.id) Iff.rfl
      this

/-! ## The next id -/

theorem lt_succ_of_ne {i : Int64} (h : i ≠ Int64.maxValue) : i < i + 1 := by
  grind

/-- The first row of the selection is the largest id. -/
theorem le_head_of_selectIds {t : AuditTable} {i : Int64} {ids : List Int64}
    (h : selectIds t = .ok (i :: ids)) :
    i ∈ t.rows.map AuditLogEntry.id ∧ ∀ id ∈ t.rows.map AuditLogEntry.id, id ≤ i := by
  cases t with
  | none => cases h
  | some entries =>
      have hsorted := Except.ok.inj h
      have hmem : ∀ id, id ∈ entries.map AuditLogEntry.id ↔ id ∈ i :: ids := fun id => by
        rw [← hsorted, List.mem_mergeSort]
      have hpairwise : (i :: ids).Pairwise fun a b => decide (b ≤ a) = true := by
        rw [← hsorted]
        refine List.pairwise_mergeSort (fun a b c hab hbc => ?_) (fun a b => ?_) _
        · exact decide_eq_true (Int64.le_trans (of_decide_eq_true hbc) (of_decide_eq_true hab))
        · simpa using Int64.le_total b a
      refine ⟨(hmem i).mpr List.mem_cons_self, fun id hid => ?_⟩
      rcases List.mem_cons.mp ((hmem id).mp hid) with rfl | hid
      · exact Int64.le_refl _
      · exact of_decide_eq_true (List.rel_of_pairwise_cons hpairwise hid)

theorem nextId_fresh {t : AuditTable} {nextId : Int64} (h : nextIdOf (selectIds t) = some nextId) :
    nextId ∉ t.rows.map AuditLogEntry.id := by
  cases hids : selectIds t with
  | error e =>
      cases t with
      | none => simp [AuditTable.rows]
      | some entries => cases hids
  | ok ids =>
      cases ids with
      | nil =>
          cases t with
          | none => cases hids
          | some entries =>
              have hnil := congrArg List.length (Except.ok.inj hids)
              rw [List.length_mergeSort, List.length_map, List.length_nil] at hnil
              simp [AuditTable.rows, List.length_eq_zero_iff.mp hnil]
      | cons i ids =>
          rw [hids, nextIdOf] at h
          obtain ⟨hne, heq⟩ := Option.ite_none_left_eq_some.mp h
          obtain rfl := Option.some.inj heq
          intro hmem
          exact Int64.not_le.mpr (lt_succ_of_ne hne) ((le_head_of_selectIds hids).2 _ hmem)

theorem nextIdOf_ne_none {t : AuditTable} (h : Int64.maxValue ∉ t.rows.map AuditLogEntry.id) :
    ∃ nextId, nextIdOf (selectIds t) = some nextId := by
  cases hids : selectIds t with
  | error e => exact ⟨1, rfl⟩
  | ok ids =>
      cases ids with
      | nil => exact ⟨1, rfl⟩
      | cons i ids =>
          refine ⟨i + 1, if_neg fun heq => h ?_⟩
          exact heq ▸ (le_head_of_selectIds hids).1

/-! ## Runs -/

section Runs

variable {before : AuditTable} {s s' : Auditing} {a : Action} {actions : List Action}

/-- One call at most has read its id and not inserted yet, and its id is still free. -/
structure Inv (before : AuditTable) (s : Auditing) : Prop extends Complete before s where
  created : ∀ r ∈ s.calls, r.Selecting ∨ r.Inserting → ∃ entries, s.table = some entries
  alone : ∀ (i : Nat) (r : Running), s.calls[i]? = some r → r.Inserting →
    ∀ (j : Nat) (r' : Running), s.calls[j]? = some r' → r'.Inserting → i = j
  fresh : ∀ r ∈ s.calls, ∀ now nextId, r.phase = .inserting now nextId →
    nextId ∉ s.table.rows.map AuditLogEntry.id

theorem inv_start (h : (before.rows.map AuditLogEntry.id).Nodup) : Inv before ⟨before, []⟩ where
  returned _ hr := by cases hr
  entries := by simp
  distinct := h
  created _ hr := by cases hr
  alone i r hr := by cases hr
  fresh _ hr := by cases hr

theorem Inv.call (h : Inv before s) (c : AuditCall) :
    Inv before { s with calls := s.calls ++ [⟨c, .ensuring⟩] } := by
  have hmem : ∀ r, r ∈ s.calls ++ [⟨c, .ensuring⟩] → r ∈ s.calls ∨ r.phase = .ensuring := by
    intro r hr
    rcases List.mem_append.mp hr with hr | hr
    · exact .inl hr
    · exact .inr (by rw [List.mem_singleton.mp hr])
  have hold : ∀ (i : Nat) (r : Running), (s.calls ++ [⟨c, .ensuring⟩])[i]? = some r →
      r.Inserting → s.calls[i]? = some r := by
    intro i r hr hins
    rw [List.getElem?_append] at hr
    split at hr
    · exact hr
    · obtain rfl := List.mem_singleton.mp (List.mem_of_getElem? hr)
      exact hins.elim
  refine ⟨⟨fun r hr => ?_, ?_, h.distinct⟩, fun r hr hphase => ?_, fun i r hr hins j r' hr' hins' =>
    h.alone i r (hold i r hr hins) hins j r' (hold j r' hr' hins') hins', fun r hr now nextId hphase =>
    ?_⟩
  · rcases hmem r hr with hr | hphase
    · exact h.returned r hr
    · simp [Running.Failed, hphase]
  · have hnone : [(⟨c, .ensuring⟩ : Running)].filterMap Running.entryOf = [] := rfl
    rw [List.filterMap_append, hnone, List.append_nil]
    exact h.entries
  · rcases hmem r hr with hr | hensuring
    · exact h.created r hr hphase
    · simp [Running.Selecting, Running.Inserting, hensuring] at hphase
  · rcases hmem r hr with hr | hensuring
    · exact h.fresh r hr now nextId hphase
    · rw [hensuring] at hphase
      cases hphase

theorem rows_ensureAuditTables (t : AuditTable) : (ensureAuditTables t).rows = t.rows := by
  cases t <;> rfl

/-- The caller moves on, and adds nothing. -/
theorem Inv.proceed {i : Nat} {r : Running} {phase : Phase} {t : AuditTable} (h : Inv before s)
    (hr : s.calls[i]? = some r) (hold : r.entryOf = none)
    (hnew : (⟨r.call, phase⟩ : Running).entryOf = none)
    (hreturned : ¬(⟨r.call, phase⟩ : Running).Failed) (hrows : t.rows = s.table.rows)
    (hcreated : ∃ entries, t = some entries)
    (halone : (⟨r.call, phase⟩ : Running).Inserting → ∀ r' ∈ s.calls, ¬r'.Inserting)
    (hfresh : ∀ now nextId, phase = .inserting now nextId →
      nextId ∉ s.table.rows.map AuditLogEntry.id) :
    Inv before ⟨t, s.calls.set i { r with phase }⟩ := by
  have hat : ∀ (j : Nat) (r' : Running), (s.calls.set i { r with phase })[j]? = some r' →
      (j = i ∧ r' = { r with phase }) ∨ s.calls[j]? = some r' := by
    intro j r' hr'
    rw [List.getElem?_set] at hr'
    split at hr'
    · next heq =>
        split at hr'
        · exact .inl ⟨heq.symm, (Option.some.inj hr').symm⟩
        · cases hr'
    · exact .inr hr'
  refine ⟨⟨forall_mem_set h.returned hreturned, ?_, hrows ▸ h.distinct⟩, fun _ _ _ => hcreated,
    ?_, forall_mem_set (fun r' hr' => ?_) ?_⟩
  · rw [filterMap_set_of_none hr hold hnew, hrows]
    exact h.entries
  · intro j r' hr' hins k r'' hr'' hins'
    rcases hat j r' hr' with ⟨rfl, rfl⟩ | hj
    · rcases hat k r'' hr'' with ⟨rfl, -⟩ | hk
      · rfl
      · exact absurd hins' (halone hins r'' (List.mem_of_getElem? hk))
    · rcases hat k r'' hr'' with ⟨rfl, rfl⟩ | hk
      · exact absurd hins (halone hins' r' (List.mem_of_getElem? hj))
      · exact h.alone j r' hj hins k r'' hk hins'
  · rw [hrows]
    exact h.fresh r' hr'
  · rw [hrows]
    exact hfresh

theorem Inv.insert {i : Nat} {r : Running} {now : UInt64} {nextId : Int64}
    {entries : List AuditLogEntry} (h : Inv before s) (hr : s.calls[i]? = some r)
    (hphase : r.phase = .inserting now nextId) (htable : s.table = some entries) :
    Inv before ⟨some (entries ++ [r.call.entry nextId now]),
      s.calls.set i { r with phase := .recorded now nextId }⟩ := by
  have hins : r.Inserting := by simp [Running.Inserting, hphase]
  have hfresh := h.fresh r (List.mem_of_getElem? hr) now nextId hphase
  have hentries := h.entries
  have hdistinct := h.distinct
  rw [htable] at hfresh hentries hdistinct
  -- nobody else is about to insert
  have hnone : ∀ (j : Nat) (r' : Running),
      (s.calls.set i { r with phase := .recorded now nextId })[j]? = some r' → ¬r'.Inserting := by
    intro j r' hr' hins'
    rw [List.getElem?_set] at hr'
    split at hr'
    · split at hr'
      · obtain rfl := Option.some.inj hr'
        exact hins'
      · cases hr'
    · next hne => exact hne (h.alone i r hr hins j r' hr' hins')
  have hnone' : ∀ r' ∈ s.calls.set i { r with phase := .recorded now nextId }, ¬r'.Inserting :=
    fun r' hr' => by
      obtain ⟨j, hj⟩ := List.mem_iff_getElem?.mp hr'
      exact hnone j r' hj
  refine ⟨⟨forall_mem_set h.returned id, ?_, ?_⟩, fun _ _ _ => ⟨_, rfl⟩,
    fun j r' hr' hins' => absurd hins' (hnone j r' hr'), fun r' hr' now' nextId' hphase' => ?_⟩
  · have hadded := filterMap_set_perm (f := Running.entryOf)
      (b := { r with phase := .recorded now nextId }) hr (by simp [Running.entryOf, hphase]) rfl
    refine (hentries.append_right _).trans ?_
    rw [List.append_assoc]
    exact (hadded.symm).append_left _
  · show ((entries ++ [r.call.entry nextId now]).map AuditLogEntry.id).Nodup
    rw [List.map_append, List.nodup_append]
    refine ⟨hdistinct, by simp, fun id hmem id' hmem' heq => hfresh ?_⟩
    obtain rfl := List.mem_singleton.mp hmem'
    exact heq ▸ hmem
  · exact absurd (by simp [Running.Inserting, hphase']) (hnone' r' hr')

theorem Inv.step (h : Inv before s) (hmeets : Meets s a) (hstep : step s a = some s') :
    Inv before s' := by
  cases a with
  | call c =>
      obtain rfl := Option.some.inj hstep
      exact h.call c
  | statement caller clock =>
      obtain ⟨r, hr, hstep⟩ := Option.bind_eq_some_iff.mp hstep
      obtain ⟨⟨t, phase⟩, hnext, hstep⟩ := Option.bind_eq_some_iff.mp hstep
      obtain rfl := Option.some.inj hstep
      have hmem := List.mem_of_getElem? hr
      unfold recordAuditLog at hnext
      cases hphase : r.phase with
      | ensuring =>
          simp only [hphase, Option.some.injEq, Prod.mk.injEq] at hnext
          obtain ⟨rfl, rfl⟩ := hnext
          refine h.proceed hr (by simp [Running.entryOf, hphase]) rfl id
            (rows_ensureAuditTables _) ?_ (fun hins => hins.elim) (fun _ _ hins => by cases hins)
          cases s.table with
          | none => exact ⟨_, rfl⟩
          | some entries => exact ⟨_, rfl⟩
      | selecting now =>
          have hselecting : r.Selecting := by simp [Running.Selecting, hphase]
          obtain ⟨hothers, hmax⟩ := hmeets r hr hselecting
          obtain ⟨nextId, hnextId⟩ := nextIdOf_ne_none hmax
          simp only [hphase, selected, hnextId, Option.some.injEq, Prod.mk.injEq] at hnext
          obtain ⟨rfl, rfl⟩ := hnext
          refine h.proceed hr (by simp [Running.entryOf, hphase]) rfl id rfl
            (h.created r hmem (.inl hselecting)) (fun _ => hothers) ?_
          rintro now' nextId' heq
          cases heq
          exact nextId_fresh hnextId
      | inserting now nextId =>
          obtain ⟨entries, htable⟩ :=
            h.created r hmem (.inr (by simp [Running.Inserting, hphase]))
          have hfresh := h.fresh r hmem now nextId hphase
          rw [htable] at hfresh
          have hinsert : Audit.insert (r.call.entry nextId now) s.table =
              .ok (some (entries ++ [r.call.entry nextId now])) := by
            rw [htable]
            exact if_neg hfresh
          simp only [hphase, hinsert, Option.some.injEq, Prod.mk.injEq] at hnext
          obtain ⟨rfl, rfl⟩ := hnext
          exact h.insert hr hphase htable
      | recorded | failed | panicked => simp [hphase] at hnext

/-- Calls whose reading and inserting do not overlap lose nothing. -/
theorem complete_of_meets (hbefore : (before.rows.map AuditLogEntry.id).Nodup)
    (h : Trace step Meets ⟨before, []⟩ actions s) : Complete before s :=
  (h.invariant (inv_start hbefore) fun _ _ _ hs hmeets hstep =>
    hs.step hmeets hstep).toComplete

def login : AuditCall := ⟨some 7, "login", "session", none, .null⟩

/-- Two calls, whose tables are both ensured before either reads. -/
def inTurn : List Action := [
  .call login, .call login, .statement 0 100, .statement 1 100, .statement 1 100,
  .statement 1 100, .statement 0 101, .statement 0 101]

theorem complete_inTurn : ∃ s, Trace step Meets ⟨none, []⟩ inTurn s ∧ Complete none s := by
  obtain ⟨s, hs, -⟩ : ∃ s, Trace step Meets ⟨none, []⟩ inTurn s ∧ s.table.rows.length = 2 :=
    Trace.exists_of_follow (by decide +kernel)
  exact ⟨s, hs, complete_of_meets (by simp [AuditTable.rows]) hs⟩

/-- Two calls that read the same id. -/
def overlapping : List Action := [
  .call login, .call login, .statement 0 100, .statement 1 100, .statement 0 100,
  .statement 1 100, .statement 0 100, .statement 1 100]

theorem overlapping_fails : ∃ s, Trace step (fun _ _ => True) ⟨none, []⟩ overlapping s ∧
    ¬Complete none s := by
  obtain ⟨s, hs, r, hr, hfailed⟩ : ∃ s, Trace step (fun _ _ => True) ⟨none, []⟩ overlapping s ∧
      ∃ r ∈ s.calls, r.Failed := Trace.exists_of_follow (by decide +kernel)
  exact ⟨s, hs, fun h => h.returned r hr hfailed⟩

end Runs

end ChocoBase.Server.Audit
