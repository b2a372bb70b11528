import ChocoBase.Engine.Mutate
import ChocoBase.Engine.Select

/-!
# INSERT, UPDATE and DELETE

The rows are written one by one.  The roots of the trees go through the loop and
are recorded in the catalog when it is done; a change event is queued for each row.
-/

namespace ChocoBase.Engine

open ChocoBase.Foundation ChocoBase.Storage ChocoBase.Sql ChocoBase.Types ChocoBase.Auth
  ChocoBase.Catalog ChocoBase.Plan

/-! ## Literals -/

section Literals

variable (lib : Library)

def literalToValueTyped (expr : Expr) (targetType : Option ColumnType) : Outcome DbError Value :=
  let invalid (message : String) : Outcome DbError Value := .error (.exec (.invalidValue message))
  match expr with
  | .intLiteral n =>
      match targetType with
      | some .float => .ok (.float (toF64 n))
      | _ => .ok (.integer n)
  | .floatLiteral x => .ok (.float x)
  | .stringLiteral s =>
      match targetType with
      | some .json =>
          match lib.parseJson s with
          | .error e => invalid ("invalid JSON payload: " ++ e)
          | .ok _ => .ok (.json s)
      | some (.vector dim) =>
          match lib.parseVector s with
          | .error e => invalid ("invalid vector payload: " ++ e)
          | .ok xs =>
              if dim > 0 && xs.length ≠ dim then
                invalid ("vector dimension mismatch: expected " ++ toString dim ++ ", found " ++
                  toString xs.length)
              else .ok (.vector xs)
      | _ => .ok (.text s)
  | .boolLiteral b => .ok (.boolean b)
  | .null => .ok .null
  | other => invalid ("expected a literal value in statement, found " ++ lib.debugExpr other)

/-- Set the columns at the given positions, each to its literal. -/
def setLiterals (schema : TableSchema) : List (Nat × Expr) → Row → Outcome DbError Row
  | [], row => .ok row
  | (idx, expr) :: rest, row =>
      (Outcome.unwrap schema.columns[idx]?).bind fun col =>
        (literalToValueTyped lib expr (some col.ty)).bind fun v =>
          setLiterals schema rest (row.set idx v)

/-- The columns named, in order; an unknown one is an error once its turn comes. -/
def setNamed (schema : TableSchema) : List (String × Expr) → Row → Outcome DbError Row
  | [], row => .ok row
  | (name, expr) :: rest, row =>
      match schema.columnIndex name with
      | none => .error (.plan (.noSuchColumn name))
      | some idx => (setLiterals lib schema [(idx, expr)] row).bind (setNamed schema rest)

def fullRow (schema : TableSchema) (columns : Option (List String)) (exprRow : List Expr) :
    Outcome DbError Row :=
  let empty : Row := List.replicate schema.columns.length .null
  match columns with
  | some names =>
      if names.length ≠ exprRow.length then
        .error (.plan (.columnCountMismatch names.length exprRow.length))
      else setNamed lib schema (names.zip exprRow) empty
  | none =>
      if exprRow.length ≠ schema.columns.length then
        .error (.plan (.columnCountMismatch schema.columns.length exprRow.length))
      else setLiterals lib schema ((List.range exprRow.length).zip exprRow) empty

end Literals

def checkNotNull : List (Column × Value) → Outcome DbError Unit
  | [] => .ok ()
  | (col, v) :: rest =>
      if col.notNull && v.isNull then .error (.exec (.notNullViolation col.name))
      else checkNotNull rest

section Dml

variable (lib : Library) (ctx : ExecutionContext)

/-! ## Checks of policies -/

/-- The expression that a policy checks a new row with. -/
def PolicyCheck (policy : PolicySchema) : Option Expr := policy.withCheck.or policy.usingExpr

def passesPolicy (schema : TableSchema) (row : Row) : List PolicySchema → Outcome DbError Bool
  | [] => .ok false
  | policy :: rest =>
      match PolicyCheck policy with
      | none => .ok true
      | some expr =>
          ((evalWithContext lib schema row ctx expr).mapError .plan).bind fun res =>
            if isTruthy res then .ok true else passesPolicy schema row rest

def checkPolicies (schema : TableSchema) (policies : Option (List PolicySchema)) (row : Row) :
    Outcome DbError Unit :=
  match policies with
  | none => .ok ()
  | some policies =>
      (passesPolicy lib ctx schema row policies).bind fun passed =>
        if passed then .ok ()
        else .error (.exec (.invalidValue "row violates row-level security policy"))

/-- The policies an insertion has to pass, if there are any to pass. -/
def insertPolicies (schema : TableSchema) (table : String) :
    DbProg DbError (Option (List PolicySchema)) := do
  if schema.rlsEnabled && !ctx.isAdmin then
    let policies ← listPoliciesForTable lib table
    let matching := policies.filter (appliesTo .insert)
    if matching.isEmpty then
      .throw (.exec (.invalidValue "RLS check failed: no insert policy on table"))
    else return some matching
  else return none

/-! ## Loops over rows -/

/-- What the loops carry: the roots, and the rows for `RETURNING`. -/
structure Progress where
  tableRoot : PageNo
  indexRoots : IndexRoots
  affected : List Row

def Progress.start (schema : TableSchema) (indexes : List IndexSchema) : Progress where
  tableRoot := schema.rootPage
  indexRoots := indexes.map fun idx => (idx.name, idx.rootPage)
  affected := []

/-- The later root of an index counts. -/
def mergeRoots (new old : IndexRoots) : IndexRoots := new.foldl (fun roots entry => entry :: roots) old

def Progress.next (p : Progress) (roots : PageNo × IndexRoots) (row : Row) : Progress where
  tableRoot := roots.1
  indexRoots := mergeRoots roots.2 p.indexRoots
  affected := p.affected ++ [row]

/-- Queue an event for the commit, or send it at once. -/
def emit (table : String) (action : ChangeAction) (oldRow newRow : Option Row) :
    DbProg DbError Unit := do
  let now ← ask fromPager .now
  let event : ChangeEvent := ⟨table, action, oldRow, newRow, now⟩
  if ← inTransaction then ask fromPager (.queueEvent event)
  else ask fromPager (.sendEvent event)

/-- The schemas with the roots that the loop has reached. -/
def Progress.schema (p : Progress) (schema : TableSchema) : TableSchema :=
  { schema with rootPage := p.tableRoot }

def updateIndexRoots (roots : IndexRoots) : List IndexSchema → DbProg DbError Unit
  | [] => return ()
  | idx :: rest => do
      let root := (roots.lookup idx.name).getD idx.rootPage
      if root ≠ idx.rootPage then updateIndexRoot idx.name root
      updateIndexRoots roots rest

/-- Record the roots that moved. -/
def recordRoots (table : String) (schema : TableSchema) (indexes : List IndexSchema)
    (p : Progress) : DbProg DbError Unit := do
  if p.tableRoot ≠ schema.rootPage then updateTableRoot table p.tableRoot
  updateIndexRoots p.indexRoots indexes

/-! ## RETURNING -/

def projectList (indices : List Nat) : List Row → Outcome DbError (List Row)
  | [] => .ok []
  | row :: rows =>
      ((indexAll row indices).mapError .exec).bind fun out =>
        (projectList indices rows).bind fun outs => .ok (out :: outs)

def returningNames (schema : TableSchema) (items : List SelectItem) : List String :=
  items.zipIdx.flatMap fun
    | (.all, _) => columnNames schema
    | (.expr (.column c) asName, _) => [asName.getD c]
    | (.expr _ asName, i) => [asName.getD ("col_" ++ toString i)]

def returningRow (schema : TableSchema) (row : Row) : List SelectItem → Outcome DbError Row
  | [] => .ok []
  | .all :: items => (returningRow schema row items).bind fun vs => .ok (row ++ vs)
  | .expr e _ :: items =>
      ((evalWithContext lib schema row ctx e).mapError .plan).bind fun v =>
        (returningRow schema row items).bind fun vs => .ok (v :: vs)

def returningRows (schema : TableSchema) (items : List SelectItem) :
    List Row → Outcome DbError (List Row)
  | [] => .ok []
  | row :: rows =>
      (returningRow lib ctx schema row items).bind fun out =>
        (returningRows schema items rows).bind fun outs => .ok (out :: outs)

def projectReturningRows (schema : TableSchema) (rows : List Row) :
    SelectColumns → Outcome DbError ExecResult
  | .all => .ok (.rows (columnNames schema) rows)
  | .list names =>
      ((columnIndices schema names).mapError .plan).bind fun indices =>
        (projectList indices rows).bind fun out => .ok (.rows names out)
  | .items items =>
      (returningRows lib ctx schema items rows).bind fun out =>
        .ok (.rows (returningNames schema items) out)

def finishDml (schema : TableSchema) (affected : List Row) :
    Option SelectColumns → Outcome DbError ExecResult
  | some columns => projectReturningRows lib ctx schema affected columns
  | none => .ok (.modified affected.length)

/-! ## The statements -/

def insertOne (table : String) (schema : TableSchema) (indexes : List IndexSchema)
    (columns : Option (List String)) (policies : Option (List PolicySchema)) (p : Progress)
    (exprRow : List Expr) : DbProg DbError Progress := do
  let row ← Prog.ofOutcome (fullRow lib schema columns exprRow)
  .ofOutcome (checkNotNull (schema.columns.zip row))
  .ofOutcome (checkPolicies lib ctx schema policies row)
  let roots ← (insertRow (p.schema schema) (withRoots p.indexRoots indexes) row).mapError .exec
  emit table .insert none (some row)
  return p.next roots row

def executeInsert (table : String) (columns : Option (List String)) (rows : List (List Expr))
    (returning : Option SelectColumns) : DbProg DbError ExecResult := do
  let schema ← requireTable table
  let indexes ← listIndexesForTable table
  let policies ← insertPolicies lib ctx schema table
  let p ← Prog.forEach (insertOne lib ctx table schema indexes columns policies) rows
    (.start schema indexes)
  recordRoots table schema indexes p
  .ofOutcome (finishDml lib ctx schema p.affected returning)

/-- The rows that a statement changes: its condition with the policies of the command. -/
def selectRows (execute : Statement → DbProg DbError ExecResult) (table : String) (cmd : PolicyCmd)
    (whereClause : Option Expr) : DbProg DbError (TableSchema × List IndexSchema × Option Expr) := do
  let whereClause ← applyRlsFilter lib ctx table cmd whereClause
  let whereClause ← resolveWhere lib execute whereClause
  let schema ← requireTable table
  let indexes ← listIndexesForTable table
  return (schema, indexes, whereClause)

def readAll (schema : TableSchema) (indexes : List IndexSchema) (whereClause : Option Expr)
    (ctx : ExecutionContext) : DbProg DbError (List Row) := do
  let plan ← planned (buildSelectPlanWithContext lib schema indexes whereClause
    (List.range schema.columns.length) none none ctx)
  let rows ← (plan.read schema).mapError .exec
  collectRows rows

def assignmentIndices (schema : TableSchema) :
    List (String × Expr) → Outcome DbError (List (Nat × Expr))
  | [] => .ok []
  | (name, expr) :: rest =>
      match schema.columnIndex name with
      | none => .error (.plan (.noSuchColumn name))
      | some idx =>
          (Outcome.unwrap schema.columns[idx]?).bind fun col =>
            if col.isPrimaryKey then .error (.plan .cannotUpdatePrimaryKey)
            else (assignmentIndices schema rest).bind fun indices => .ok ((idx, expr) :: indices)

/-- All assignments are evaluated on the old row. -/
def assign (schema : TableSchema) (oldRow : Row) : List (Nat × Expr) → Row → Outcome DbError Row
  | [], row => .ok row
  | (idx, expr) :: rest, row =>
      ((evalWithContext lib schema oldRow ctx expr).mapError .plan).bind fun v =>
        assign schema oldRow rest (row.set idx v)

def updateOne (table : String) (schema : TableSchema) (indexes : List IndexSchema)
    (assignments : List (Nat × Expr)) (p : Progress) (oldRow : Row) : DbProg DbError Progress := do
  let newRow ← Prog.ofOutcome (assign lib ctx schema oldRow assignments oldRow)
  let roots ← (updateRow (p.schema schema) (withRoots p.indexRoots indexes) oldRow newRow).mapError
    .exec
  emit table .update (some oldRow) (some newRow)
  return p.next roots newRow

def executeUpdate (execute : Statement → DbProg DbError ExecResult) (table : String)
    (assignments : List (String × Expr)) (whereClause : Option Expr)
    (returning : Option SelectColumns) : DbProg DbError ExecResult := do
  let (schema, indexes, whereClause) ← selectRows lib ctx execute table .update whereClause
  let assignments ← Prog.ofOutcome (assignmentIndices schema assignments)
  let oldRows ← readAll lib schema indexes whereClause ctx
  let p ← Prog.forEach (updateOne lib ctx table schema indexes assignments) oldRows
    (.start schema indexes)
  recordRoots table schema indexes p
  .ofOutcome (finishDml lib ctx schema p.affected returning)

def deleteOne (table : String) (schema : TableSchema) (indexes : List IndexSchema) (p : Progress)
    (row : Row) : DbProg DbError Progress := do
  let roots ← (deleteRow (p.schema schema) (withRoots p.indexRoots indexes) row).mapError .exec
  emit table .delete (some row) none
  return p.next roots row

def executeDelete (execute : Statement → DbProg DbError ExecResult) (table : String)
    (whereClause : Option Expr) (returning : Option SelectColumns) : DbProg DbError ExecResult := do
  let (schema, indexes, whereClause) ← selectRows lib ctx execute table .delete whereClause
  let rows ← readAll lib schema indexes whereClause ctx
  let p ← Prog.forEach (deleteOne table schema indexes) rows (.start schema indexes)
  recordRoots table schema indexes p
  .ofOutcome (finishDml lib ctx schema p.affected returning)

end Dml

end ChocoBase.Engine
