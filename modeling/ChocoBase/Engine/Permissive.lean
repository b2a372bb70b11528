import ChocoBase.Engine.StoredRows
import ChocoBase.Engine.World
import ChocoBase.Plan.Semantics

/-!
# Permissive policies

Which rows the condition of a statement lets through once the policies of the table are
added, against the rows that some policy permits.
-/

namespace ChocoBase.Engine

open ChocoBase.Foundation ChocoBase.Storage ChocoBase.Sql ChocoBase.Types ChocoBase.Auth
  ChocoBase.Catalog ChocoBase.Plan

section Visibility

variable (lib : Library) (ctx : ExecutionContext)

/-- The condition that a statement on one table filters its rows with. -/
def conditionFor (execute : Statement → DbProg DbError ExecResult) (table : String)
    (cmd : PolicyCmd) (userWhere : Option Expr) : DbProg DbError (Option Expr) := do
  let whereClause ← applyRlsFilter lib ctx table cmd userWhere
  resolveWhere lib execute whereClause

variable (w : World) (execute : Statement → DbProg DbError ExecResult) (schema : TableSchema)
  (row : Row)

theorem outcome_executeSelect (table : String) (args : SelectArgs) :
    w.outcome (executeSelect lib ctx execute table none args) =
      (w.outcome (conditionFor lib ctx execute table .select args.whereClause)).bind
        fun whereClause => w.outcome (selectTable lib ctx table { args with whereClause }) := by
  simp only [executeSelect, conditionFor, World.outcome_bind, Outcome.bind_assoc]

/-- `UPDATE` and `DELETE` read their rows through the same condition. -/
theorem outcome_selectRows (table : String) (cmd : PolicyCmd) (userWhere : Option Expr) :
    w.outcome (selectRows lib ctx execute table cmd userWhere) =
      (w.outcome (conditionFor lib ctx execute table cmd userWhere)).bind fun whereClause =>
        (w.outcome (requireTable table)).bind fun schema =>
          (w.outcome (listIndexesForTable table)).bind fun indexes =>
            .ok (schema, indexes, whereClause) := by
  simp only [selectRows, conditionFor, World.outcome_bind, Outcome.bind_assoc, World.outcome_pure]

/-- The filter of a statement keeps the row. -/
def Keeps (clause : Option Expr) : Prop :=
  (filterBy lib ctx schema clause ⟨[row], .ok ()⟩).rows = [row]

/-- The row passes a condition whose subqueries are not replaced yet. -/
def Passes (clause : Option Expr) : Prop :=
  ∃ resolved, w.outcome (resolveWhere lib execute clause) = .ok resolved ∧
    Keeps lib ctx schema row resolved

/-- The row passes the condition of the user with the policies of the table. -/
def Visible (table : String) (cmd : PolicyCmd) (userWhere : Option Expr) : Prop :=
  ∃ resolved, w.outcome (conditionFor lib ctx execute table cmd userWhere) = .ok resolved ∧
    Keeps lib ctx schema row resolved

/-- The value of an expression on the row. -/
def Yields (e : Expr) (v : Value) : Prop :=
  ∃ resolved, w.outcome (resolveSubqueriesInExpr lib execute e) = .ok resolved ∧
    evalWithContext lib schema row ctx resolved = .ok v

/--
A row that the user's condition selects and some policy permits: no policy has a `USING`
expression, or each one that there is has a value and one of them is true.
-/
def Combines (matching : List PolicySchema) (userWhere : Option Expr) : Prop :=
  Passes lib ctx w execute schema row userWhere →
  (∃ policy ∈ matching, Passes lib ctx w execute schema row policy.usingExpr) →
    (∀ policy ∈ matching, policy.usingExpr = none) ∨
      (∀ policy ∈ matching, ∀ e, policy.usingExpr = some e →
        ∃ v, Yields lib ctx w execute schema row e v) ∧
      ∃ policy ∈ matching, ∃ e, policy.usingExpr = some e ∧
        Passes lib ctx w execute schema row (some e)

end Visibility

section Combination

variable {lib : Library} {ctx : ExecutionContext} {w : World}
  {execute : Statement → DbProg DbError ExecResult} {schema : TableSchema} {row : Row}

theorem isTruthy_boolean (b : Bool) : isTruthy (.boolean b) = b := by cases b <;> rfl

theorem keeps_none : Keeps lib ctx schema row none := rfl

theorem keeps_some_iff {e : Expr} : Keeps lib ctx schema row (some e) ↔
    ∃ v, evalWithContext lib schema row ctx e = .ok v ∧ isTruthy v = true := by
  change (collect (filterRow lib schema e ctx) _ [row]).rows = [row] ↔ _
  cases heval : evalWithContext lib schema row ctx e with
  | ok v =>
      have hrow : filterRow lib schema e ctx row = .ok (if isTruthy v then some row else none) := by
        rw [filterRow, evalInto, heval]
        rfl
      cases htrue : isTruthy v <;> simp [collect, hrow, htrue, Rows.push]
  | error reason =>
      have hrow : filterRow lib schema e ctx row = .error (.invalidValue reason.text) := by
        rw [filterRow, evalInto, heval]
        rfl
      simp [collect, hrow]
  | stop why =>
      have hrow : filterRow lib schema e ctx row = .stop why := by
        rw [filterRow, evalInto, heval]
        rfl
      simp [collect, hrow]

theorem passes_none : Passes lib ctx w execute schema row none := ⟨none, rfl, keeps_none⟩

theorem passes_some_iff {e : Expr} : Passes lib ctx w execute schema row (some e) ↔
    ∃ v, Yields lib ctx w execute schema row e v ∧ isTruthy v = true := by
  simp only [Passes, resolveWhere, World.outcome_bind_ok, World.outcome_pure, Yields]
  constructor
  · rintro ⟨_, ⟨resolved, hresolve, h⟩, hkeeps⟩
    cases h
    obtain ⟨v, heval, htrue⟩ := keeps_some_iff.mp hkeeps
    exact ⟨v, ⟨resolved, hresolve, heval⟩, htrue⟩
  · rintro ⟨v, ⟨resolved, hresolve, heval⟩, htrue⟩
    exact ⟨_, ⟨resolved, hresolve, rfl⟩, keeps_some_iff.mpr ⟨v, heval, htrue⟩⟩

theorem yields_binaryOp_iff {op : BinOp} {l r : Expr} {u : Value} :
    Yields lib ctx w execute schema row (.binaryOp op l r) u ↔
      ∃ a, Yields lib ctx w execute schema row l a ∧
        ∃ b, Yields lib ctx w execute schema row r b ∧ evalBinop op a b = .ok u := by
  simp only [Yields, resolveSubqueriesInExpr, World.outcome_bind_ok, World.outcome_pure]
  constructor
  · rintro ⟨_, ⟨left, hleft, right, hright, h⟩, heval⟩
    cases h
    rw [evalWithContext] at heval
    obtain ⟨a, ha, heval⟩ := Outcome.bind_eq_ok.mp heval
    obtain ⟨b, hb, heval⟩ := Outcome.bind_eq_ok.mp heval
    exact ⟨a, ⟨left, hleft, ha⟩, b, ⟨right, hright, hb⟩, heval⟩
  · rintro ⟨a, ⟨left, hleft, ha⟩, b, ⟨right, hright, hb⟩, heval⟩
    refine ⟨_, ⟨left, hleft, right, hright, rfl⟩, ?_⟩
    rw [evalWithContext, ha, Outcome.bind, hb, Outcome.bind, heval]

theorem yields_or_iff {l r : Expr} {u : Value} :
    Yields lib ctx w execute schema row (.binaryOp .or l r) u ↔
      ∃ a, Yields lib ctx w execute schema row l a ∧ ∃ b, Yields lib ctx w execute schema row r b ∧
        u = .boolean (isTruthy a || isTruthy b) := by
  simp only [yields_binaryOp_iff, evalBinop, Outcome.ok.injEq, eq_comm]

theorem passes_and_iff {l r : Expr} :
    Passes lib ctx w execute schema row (some (.binaryOp .and l r)) ↔
      Passes lib ctx w execute schema row (some l) ∧ Passes lib ctx w execute schema row (some r) := by
  simp only [passes_some_iff, yields_binaryOp_iff, evalBinop, Outcome.ok.injEq]
  constructor
  · rintro ⟨_, ⟨a, ha, b, hb, rfl⟩, htrue⟩
    rw [isTruthy_boolean] at htrue
    obtain ⟨htrue, htrue'⟩ := Bool.and_eq_true_iff.mp htrue
    exact ⟨⟨a, ha, htrue⟩, b, hb, htrue'⟩
  · rintro ⟨⟨a, ha, htrue⟩, b, hb, htrue'⟩
    exact ⟨_, ⟨a, ha, b, hb, rfl⟩, by rw [isTruthy_boolean, htrue, htrue']; rfl⟩

example : evalBinop .or .null (.boolean true) = .ok (.boolean true) := by decide +kernel

/-- A disjunction has a value if all its parts do. -/
theorem passes_foldl_or_iff (checks : List Expr) : ∀ {first : Expr},
    Passes lib ctx w execute schema row (some (checks.foldl (.binaryOp .or) first)) ↔
      (∀ e ∈ first :: checks, ∃ v, Yields lib ctx w execute schema row e v) ∧
        ∃ e ∈ first :: checks, Passes lib ctx w execute schema row (some e) := by
  induction checks with
  | nil =>
      intro first
      simp only [List.foldl_nil, List.mem_singleton, forall_eq, exists_eq_left]
      exact ⟨fun h => ⟨(passes_some_iff.mp h).imp fun _ h => h.1, h⟩, fun h => h.2⟩
  | cons check checks ih =>
      intro first
      have hvalue : (∃ v, Yields lib ctx w execute schema row (.binaryOp .or first check) v) ↔
          (∃ v, Yields lib ctx w execute schema row first v) ∧
            ∃ v, Yields lib ctx w execute schema row check v := by
        simp only [yields_or_iff]
        exact ⟨fun ⟨_, a, ha, b, hb, _⟩ => ⟨⟨a, ha⟩, b, hb⟩, fun ⟨⟨a, ha⟩, b, hb⟩ => ⟨_, a, ha, b, hb, rfl⟩⟩
      have hpasses : Passes lib ctx w execute schema row (some (.binaryOp .or first check)) ↔
          (∃ v, Yields lib ctx w execute schema row first v) ∧
          (∃ v, Yields lib ctx w execute schema row check v) ∧
            (Passes lib ctx w execute schema row (some first) ∨
              Passes lib ctx w execute schema row (some check)) := by
        simp only [passes_some_iff, yields_or_iff]
        constructor
        · rintro ⟨_, ⟨a, ha, b, hb, rfl⟩, htrue⟩
          refine ⟨⟨a, ha⟩, ⟨b, hb⟩, ?_⟩
          rw [isTruthy_boolean] at htrue
          rcases Bool.or_eq_true_iff.mp htrue with htrue | htrue
          · exact .inl ⟨a, ha, htrue⟩
          · exact .inr ⟨b, hb, htrue⟩
        · rintro ⟨⟨a, ha⟩, ⟨b, hb⟩, ⟨a', ha', htrue⟩ | ⟨b', hb', htrue⟩⟩
          · exact ⟨_, ⟨a', ha', b, hb, rfl⟩, by rw [isTruthy_boolean, htrue, Bool.true_or]⟩
          · exact ⟨_, ⟨a, ha, b', hb', rfl⟩, by rw [isTruthy_boolean, htrue, Bool.or_true]⟩
      rw [List.foldl_cons, ih]
      simp only [List.forall_mem_cons, List.exists_mem_cons_iff, hvalue, hpasses]
      constructor
      · rintro ⟨⟨⟨hfirst, hcheck⟩, hall⟩, ⟨-, -, h | h⟩ | h⟩
        · exact ⟨⟨hfirst, hcheck, hall⟩, .inl h⟩
        · exact ⟨⟨hfirst, hcheck, hall⟩, .inr (.inl h)⟩
        · exact ⟨⟨hfirst, hcheck, hall⟩, .inr (.inr h)⟩
      · rintro ⟨⟨hfirst, hcheck, hall⟩, h | h | h⟩
        · exact ⟨⟨⟨hfirst, hcheck⟩, hall⟩, .inl ⟨hfirst, hcheck, .inl h⟩⟩
        · exact ⟨⟨⟨hfirst, hcheck⟩, hall⟩, .inl ⟨hfirst, hcheck, .inr h⟩⟩
        · exact ⟨⟨⟨hfirst, hcheck⟩, hall⟩, .inr h⟩

example : (combineUsing [⟨"p", "t", .select, none, none⟩, ⟨"q", "t", .all, none, none⟩]).isNone =
    true := by
  decide +kernel

/-- The expressions of the policies, joined from the left. -/
def joined : List Expr → Option Expr
  | [] => none
  | first :: checks => some (checks.foldl (.binaryOp .or) first)

theorem combineUsing_eq (policies : List PolicySchema) :
    combineUsing policies = joined (policies.filterMap PolicySchema.usingExpr) := by
  unfold combineUsing
  induction policies with
  | nil => rfl
  | cons policy policies ih =>
      cases h : policy.usingExpr with
      | none => simpa [h] using ih
      | some check =>
          rw [List.foldl_cons, h, List.filterMap_cons_some h, joined]
          clear ih h
          induction policies generalizing check with
          | nil => rfl
          | cons policy policies ih => cases h : policy.usingExpr <;> simp [h, ih]

theorem addPolicies_of_ne_nil {matching : List PolicySchema} (hne : matching ≠ [])
    (userWhere : Option Expr) : addPolicies matching userWhere =
      match userWhere, combineUsing matching with
        | some w, some p => some (.binaryOp .and w p)
        | none, some p => some p
        | some w, none => some w
        | none, none => none := by
  cases matching with
  | nil => exact absurd rfl hne
  | cons policy policies => rfl

/-- What the row has to pass once the policies are added. -/
theorem passes_addPolicies_iff {matching : List PolicySchema} {userWhere : Option Expr} :
    Passes lib ctx w execute schema row (addPolicies matching userWhere) ↔
      Passes lib ctx w execute schema row userWhere ∧ matching ≠ [] ∧
        ((∀ policy ∈ matching, policy.usingExpr = none) ∨
          (∀ policy ∈ matching, ∀ e, policy.usingExpr = some e →
            ∃ v, Yields lib ctx w execute schema row e v) ∧
          ∃ policy ∈ matching, ∃ e, policy.usingExpr = some e ∧
            Passes lib ctx w execute schema row (some e)) := by
  have hclosed : ¬Passes lib ctx w execute schema row (some alwaysFalse) := by
    rw [passes_some_iff]
    rintro ⟨v, hyields, htrue⟩
    obtain ⟨a, ⟨l, hl, ha⟩, b, ⟨r, hr, hb⟩, h⟩ := yields_binaryOp_iff.mp hyields
    cases hl
    cases hr
    rw [evalWithContext] at ha hb
    cases ha
    cases hb
    cases h
    cases htrue
  rcases eq_or_ne matching [] with rfl | hne
  · simp [addPolicies, hclosed]
  · rw [addPolicies_of_ne_nil hne, combineUsing_eq]
    cases hchecks : matching.filterMap PolicySchema.usingExpr with
    | nil =>
        have hall : ∀ policy ∈ matching, policy.usingExpr = none :=
          List.filterMap_eq_nil_iff.mp hchecks
        cases userWhere with
        | none => exact ⟨fun h => ⟨h, hne, .inl hall⟩, fun h => h.1⟩
        | some e => exact ⟨fun h => ⟨h, hne, .inl hall⟩, fun h => h.1⟩
    | cons first checks =>
        have hmem {e : Expr} : e ∈ first :: checks ↔
            ∃ policy ∈ matching, policy.usingExpr = some e := by
          rw [← hchecks, List.mem_filterMap]
        have hsome : ¬∀ policy ∈ matching, policy.usingExpr = none := by
          obtain ⟨policy, hpolicy, huse⟩ := hmem.mp List.mem_cons_self
          exact fun h => by simp [h policy hpolicy] at huse
        have hcombined : Passes lib ctx w execute schema row
            (some (checks.foldl (.binaryOp .or) first)) ↔
            (∀ policy ∈ matching, ∀ e, policy.usingExpr = some e →
              ∃ v, Yields lib ctx w execute schema row e v) ∧
            ∃ policy ∈ matching, ∃ e, policy.usingExpr = some e ∧
              Passes lib ctx w execute schema row (some e) := by
          rw [passes_foldl_or_iff]
          refine and_congr ⟨fun h policy hpolicy e huse => h e (hmem.mpr ⟨policy, hpolicy, huse⟩),
            fun h e he => ?_⟩ ⟨?_, ?_⟩
          · obtain ⟨policy, hpolicy, huse⟩ := hmem.mp he
            exact h policy hpolicy e huse
          · rintro ⟨e, he, hpasses⟩
            obtain ⟨policy, hpolicy, huse⟩ := hmem.mp he
            exact ⟨policy, hpolicy, e, huse, hpasses⟩
          · rintro ⟨policy, hpolicy, e, huse, hpasses⟩
            exact ⟨e, hmem.mpr ⟨policy, hpolicy, huse⟩, hpasses⟩
        cases userWhere with
        | none =>
            simp only [joined, hcombined, passes_none, hne, hsome, ne_eq, not_false_iff, true_and,
              false_or]
        | some e =>
            simp only [joined, passes_and_iff, hcombined, hne, hsome, ne_eq, not_false_iff, true_and,
              false_or]

/-- Whatever is seen, the user's condition selects and some policy permits. -/
theorem permitted_of_passes {matching : List PolicySchema} {userWhere : Option Expr}
    (h : Passes lib ctx w execute schema row (addPolicies matching userWhere)) :
    Passes lib ctx w execute schema row userWhere ∧
      ∃ policy ∈ matching, Passes lib ctx w execute schema row policy.usingExpr := by
  obtain ⟨hwhere, hne, hall | ⟨-, policy, hmem, e, huse, hpasses⟩⟩ := passes_addPolicies_iff.mp h
  · obtain ⟨policy, hmem⟩ := List.exists_mem_of_ne_nil _ hne
    exact ⟨hwhere, policy, hmem, hall policy hmem ▸ passes_none⟩
  · exact ⟨hwhere, policy, hmem, huse ▸ hpasses⟩

/-- More policies hide no row on which they combine. -/
theorem passes_of_subset {matching more : List PolicySchema} {userWhere : Option Expr}
    (hsub : matching ⊆ more) (hmore : Combines lib ctx w execute schema row more userWhere)
    (h : Passes lib ctx w execute schema row (addPolicies matching userWhere)) :
    Passes lib ctx w execute schema row (addPolicies more userWhere) := by
  obtain ⟨hwhere, policy, hmem, hpermits⟩ := permitted_of_passes h
  exact passes_addPolicies_iff.mpr ⟨hwhere, List.ne_nil_of_mem (hsub hmem),
    hmore hwhere ⟨policy, hsub hmem, hpermits⟩⟩

end Combination

section Claims

variable (lib : Library) {ctx : ExecutionContext} {w : World}
  (execute : Statement → DbProg DbError ExecResult) {schema : TableSchema} {table : String}
  {policies : List PolicySchema}

theorem outcome_applyRlsFilter (hctx : ctx.isAdmin = false)
    (htable : w.outcome (getTable table) = .ok (some schema)) (hrls : schema.rlsEnabled = true)
    (hlist : w.outcome (listPoliciesForTable lib table) = .ok policies) {cmd : PolicyCmd}
    {userWhere : Option Expr} : w.outcome (applyRlsFilter lib ctx table cmd userWhere) =
      .ok (addPolicies (policies.filter (appliesTo cmd)) userWhere) := by
  simp only [applyRlsFilter, World.outcome_bind, htable, Outcome.bind, hrls, hctx]
  simp [hlist, Outcome.bind]

/-- The policies of the command are added to the condition of a user. -/
theorem visible_iff_passes (hctx : ctx.isAdmin = false)
    (htable : w.outcome (getTable table) = .ok (some schema)) (hrls : schema.rlsEnabled = true)
    (hlist : w.outcome (listPoliciesForTable lib table) = .ok policies) {row : Row}
    {cmd : PolicyCmd} {userWhere : Option Expr} :
    Visible lib ctx w execute schema row table cmd userWhere ↔
      Passes lib ctx w execute schema row
        (addPolicies (policies.filter (appliesTo cmd)) userWhere) := by
  unfold Visible Passes conditionFor
  rw [World.outcome_bind, outcome_applyRlsFilter lib hctx htable hrls hlist]
  rfl

/--
On a table with row level security, `SELECT`, `UPDATE` and `DELETE` of a user see a row
that the user's condition selects exactly if some policy permits it, if and only if the
policies combine on the row.  With more policies, no row is hidden on which they combine.
-/
theorem visible_iff (hctx : ctx.isAdmin = false)
    (htable : w.outcome (getTable table) = .ok (some schema)) (hrls : schema.rlsEnabled = true)
    (hlist : w.outcome (listPoliciesForTable lib table) = .ok policies) (row : Row)
    (cmd : PolicyCmd) (userWhere : Option Expr) :
    ((Visible lib ctx w execute schema row table cmd userWhere ↔
        Passes lib ctx w execute schema row userWhere ∧
          ∃ policy ∈ policies.filter (appliesTo cmd),
            Passes lib ctx w execute schema row policy.usingExpr) ↔
      Combines lib ctx w execute schema row (policies.filter (appliesTo cmd)) userWhere) ∧
    ∀ more, policies.filter (appliesTo cmd) ⊆ more →
      Combines lib ctx w execute schema row more userWhere →
      Visible lib ctx w execute schema row table cmd userWhere →
        Passes lib ctx w execute schema row (addPolicies more userWhere) := by
  rw [visible_iff_passes lib execute hctx htable hrls hlist]
  refine ⟨?_, fun more hsub hmore h => passes_of_subset hsub hmore h⟩
  generalize policies.filter (appliesTo cmd) = matching
  constructor
  · intro h hwhere hpermits
    exact (passes_addPolicies_iff.mp (h.mpr ⟨hwhere, hpermits⟩)).2.2
  · intro h
    refine ⟨permitted_of_passes, fun ⟨hwhere, hpermits⟩ => ?_⟩
    have hne : matching ≠ [] := by
      rintro rfl
      obtain ⟨_, hmem, -⟩ := hpermits
      cases hmem
    exact passes_addPolicies_iff.mpr ⟨hwhere, hne, h hwhere hpermits⟩

end Claims

/-! ## Notes that are public or somebody's -/

/-- `owner = auth.uid()` -/
def ownerIsCaller : Expr := .binaryOp .eq (.column "owner") .authUid

def ownerText : String :=
  "\x7b\"BinaryOp\":\x7b\"op\":\"Eq\",\"left\":\x7b\"Column\":\"owner\"\x7d,\"right\":\"AuthUid\"\x7d\x7d"

/-- The conditions of the policies below as JSON. -/
def ownerLibrary : Library := { plainLibrary with
  exprText := fun
    | none => some "null"
    | some (.binaryOp .eq (.column "owner") .authUid) => some ownerText
    | some _ => none
  parseExpr := fun s =>
    if s = "null" then some none else if s = ownerText then some (some ownerIsCaller) else none }

def notesSchema : TableSchema :=
  ⟨"notes", [⟨"id", .integer, true, true⟩, ⟨"owner", .integer, false, false⟩], 3, true⟩

def publicNotes : Database :=
  Database.runAll ownerLibrary plainEnvironment
    [.createTable "notes" [⟨"id", .integer, true, true⟩, ⟨"owner", .integer, false, false⟩],
      .alterTableRls "notes" true, .createPolicy "public" "notes" .select none none]
    (Database.created plainEnvironment).2.sorting

/-- The same with a second policy. -/
def ownedNotes : Database :=
  Database.runAll ownerLibrary plainEnvironment
    [.createPolicy "owned" "notes" .select (some ownerIsCaller) none] publicNotes

def isPublic : PolicySchema → Bool
  | ⟨"public", "notes", .select, none, none⟩ => true
  | _ => false

def isOwned : PolicySchema → Bool
  | ⟨"owned", "notes", .select, some (.binaryOp .eq (.column "owner") .authUid), none⟩ => true
  | _ => false

theorem eq_of_isPublic {policy : PolicySchema} (h : isPublic policy = true) :
    policy = ⟨"public", "notes", .select, none, none⟩ := by
  unfold isPublic at h
  split at h
  · rfl
  · cases h

theorem eq_of_isOwned {policy : PolicySchema} (h : isOwned policy = true) :
    policy = ⟨"owned", "notes", .select, some ownerIsCaller, none⟩ := by
  unfold isOwned at h
  split at h
  · rfl
  · cases h

/-- The databases are read by the kernel, both at once. -/
theorem notes_read :
    let w := World.ofDatabase plainEnvironment publicNotes
    let w' := World.ofDatabase plainEnvironment ownedNotes
    (w.returns (listRecords kindPolicy (decodePolicyRecord ownerLibrary))
        (fun | [policy] => isPublic policy | _ => false) = true ∧
      w.outcome (getTable "notes") = .ok (some notesSchema)) ∧
    w'.returns (listPoliciesForTable ownerLibrary "notes")
        (fun | [policy, policy'] => isOwned policy && isPublic policy' | _ => false) = true ∧
      w'.outcome (getTable "notes") = .ok (some notesSchema) := by decide +kernel

theorem listRecords_publicNotes :
    (World.ofDatabase plainEnvironment publicNotes).outcome
      (listRecords kindPolicy (decodePolicyRecord ownerLibrary)) =
        .ok [⟨"public", "notes", .select, none, none⟩] := by
  obtain ⟨policies, hlist, htest⟩ := World.exists_of_returns notes_read.1.1
  match policies, htest with
  | [policy], htest => rw [hlist, eq_of_isPublic htest]

theorem listPolicies_publicNotes :
    (World.ofDatabase plainEnvironment publicNotes).outcome
      (listPoliciesForTable ownerLibrary "notes") =
        .ok [⟨"public", "notes", .select, none, none⟩] := by
  rw [listPoliciesForTable, World.outcome_bind, listRecords_publicNotes]
  rfl

theorem getTable_publicNotes : (World.ofDatabase plainEnvironment publicNotes).outcome
    (getTable "notes") = .ok (some notesSchema) := notes_read.1.2

theorem listPolicies_ownedNotes :
    (World.ofDatabase plainEnvironment ownedNotes).outcome
      (listPoliciesForTable ownerLibrary "notes") =
        .ok [⟨"owned", "notes", .select, some ownerIsCaller, none⟩,
          ⟨"public", "notes", .select, none, none⟩] := by
  obtain ⟨policies, hlist, htest⟩ := World.exists_of_returns notes_read.2.1
  match policies, htest with
  | [policy, policy'], htest =>
      obtain ⟨hpolicy, hpolicy'⟩ := Bool.and_eq_true_iff.mp htest
      rw [hlist, eq_of_isOwned hpolicy, eq_of_isPublic hpolicy']

example : isOwned ⟨"owned", "notes", .all, some ownerIsCaller, none⟩ = false := by decide +kernel

/-- A public note of somebody, for a user that is not logged in. -/
theorem visible_publicNotes :
    Visible ownerLibrary .anonymous (.ofDatabase plainEnvironment publicNotes)
        (executeStatement ownerLibrary .anonymous 1) notesSchema [.integer 1, .integer 5] "notes"
        .select none ∧
      Passes ownerLibrary .anonymous (.ofDatabase plainEnvironment publicNotes)
        (executeStatement ownerLibrary .anonymous 1) notesSchema [.integer 1, .integer 5]
        (addPolicies [⟨"public", "notes", .select, none, none⟩, ⟨"all", "notes", .all, none, none⟩]
          none) := by
  have hclaim := visible_iff ownerLibrary (executeStatement ownerLibrary .anonymous 1)
    (rfl : ExecutionContext.anonymous.isAdmin = false) getTable_publicNotes rfl
    listPolicies_publicNotes
    [.integer 1, .integer 5] .select none
  have hvisible := (hclaim.1.mpr fun _ _ => .inl fun _ hmem => by
    cases List.mem_singleton.mp hmem
    rfl).mpr ⟨passes_none, _, List.mem_singleton_self _, passes_none⟩
  refine ⟨hvisible, hclaim.2 _ (fun _ hmem => ?_) (fun _ _ => .inl fun _ hmem => ?_) hvisible⟩
  · cases List.mem_singleton.mp hmem
    exact List.mem_cons_self
  · rcases List.mem_cons.mp hmem with rfl | hmem
    · rfl
    · cases List.mem_singleton.mp hmem
      rfl

/-- The policy without a condition permits the note, and the other one hides it. -/
theorem owned_hides_public :
    let w := World.ofDatabase plainEnvironment ownedNotes
    let execute := executeStatement ownerLibrary .anonymous 1
    let policies := [⟨"owned", "notes", .select, some ownerIsCaller, none⟩,
      ⟨"public", "notes", .select, none, none⟩]
    w.outcome (getTable "notes") = .ok (some notesSchema) ∧
      w.outcome (listPoliciesForTable ownerLibrary "notes") = .ok policies ∧
      (∃ policy ∈ policies.filter (appliesTo .select), Passes ownerLibrary .anonymous w execute
        notesSchema [.integer 1, .integer 5] policy.usingExpr) ∧
      ¬Visible ownerLibrary .anonymous w execute notesSchema [.integer 1, .integer 5] "notes"
        .select none := by
  intro w execute policies
  have htable : w.outcome (getTable "notes") = .ok (some notesSchema) := notes_read.2.2
  have hlist : w.outcome (listPoliciesForTable ownerLibrary "notes") = .ok policies :=
    listPolicies_ownedNotes
  refine ⟨htable, hlist, ⟨_, List.mem_cons_of_mem _ List.mem_cons_self, passes_none⟩, ?_⟩
  rw [visible_iff_passes ownerLibrary execute rfl htable rfl hlist]
  change ¬Passes _ _ _ _ _ _ (some ownerIsCaller)
  rw [passes_some_iff]
  rintro ⟨v, hyields, htrue⟩
  obtain ⟨a, ⟨l, hl, ha⟩, b, ⟨r, hr, hb⟩, h⟩ := yields_binaryOp_iff.mp hyields
  cases hl
  cases hr
  have hcompares : Compares .eq := ⟨nofun, nofun⟩
  have hnull : b = .null := by
    rw [evalWithContext] at hb
    exact (Outcome.ok.inj hb).symm
  subst hnull
  rw [evalBinop_of_compares hcompares, if_pos (by simp [Value.isNull])] at h
  cases h
  cases htrue

end ChocoBase.Engine
