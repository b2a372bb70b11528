import ChocoBase.Plan.Aggregate

/-!
# Plans

A plan reads a table by a seek if the condition fixes the primary key or an
indexed column to a literal, and filters the rows by the rest of the condition.
Only conditions without `OR` are analyzed.
-/

namespace ChocoBase.Plan

open ChocoBase.Foundation ChocoBase.Storage ChocoBase.Sql ChocoBase.Types ChocoBase.Auth
  ChocoBase.Engine ChocoBase.Catalog

def splitAndConjuncts : Expr → List Expr
  | .binaryOp .and left right => splitAndConjuncts left ++ splitAndConjuncts right
  | other => [other]

def rebuildAnd : List Expr → Option Expr
  | [] => none
  | first :: rest => some (rest.foldl (.binaryOp .and) first)

/-- Operators below other constructs are not looked at. -/
def containsOr : Expr → Bool
  | .binaryOp .or _ _ => true
  | .binaryOp _ left right => containsOr left || containsOr right
  | _ => false

def literalValue : Expr → Option Value
  | .intLiteral n => some (.integer n)
  | .stringLiteral s => some (.text s)
  | .boolLiteral b => some (.boolean b)
  | _ => none

/-- Take the first conjunct that `matched` accepts out of the list. -/
def takeFirst {α : Type} (matched : Expr → Option α) : List Expr → Option (α × List Expr)
  | [] => none
  | c :: rest =>
      match matched c with
      | some found => some (found, rest)
      | none => (takeFirst matched rest).map fun (found, rest) => (found, c :: rest)

/-- `column = literal` or `literal = column`; the first pattern that fits decides. -/
def pkEquality (pkCol : String) : Expr → Option Value
  | .binaryOp .eq (.column name) lit =>
      if name = pkCol then literalValue lit
      else match lit with
        | .column name' => if name' = pkCol then literalValue (.column name) else none
        | _ => none
  | .binaryOp .eq lit (.column name) => if name = pkCol then literalValue lit else none
  | _ => none

def extractPkEquality (whereClause : Option Expr) (pkCol : String) : Option Value × Option Expr :=
  match whereClause with
  | none => (none, none)
  | some expr =>
      if containsOr expr then (none, some expr)
      else
        let conjuncts := splitAndConjuncts expr
        match takeFirst (pkEquality pkCol) conjuncts with
        | some (v, remaining) => (some v, rebuildAnd remaining)
        | none => (none, rebuildAnd conjuncts)

def indexEquality (indexes : List IndexSchema) : Expr → Option (IndexSchema × Value)
  | .binaryOp .eq (.column name) lit =>
      (indexes.find? fun i => i.column = name).bind fun i => (literalValue lit).map fun v => (i, v)
  | .binaryOp .eq lit (.column name) =>
      (indexes.find? fun i => i.column = name).bind fun i => (literalValue lit).map fun v => (i, v)
  | _ => none

def findIndexEquality (whereClause : Option Expr) (indexes : List IndexSchema) :
    Option (IndexSchema × Value × Option Expr) :=
  match whereClause with
  | none => none
  | some expr =>
      if containsOr expr then none
      else (takeFirst (indexEquality indexes) (splitAndConjuncts expr)).map
        fun ((idx, v), remaining) => (idx, v, rebuildAnd remaining)

/-- `encode_key` of a literal value. -/
def seekKey (v : Value) : Bytes := (encodeKey v).getD []

section Plans

variable (lib : Library)

inductive AccessPath where
  | tableSeek (v : Value)
  | indexSeek (index : IndexSchema) (v : Value)
  | seqScan

/-- The access path, and the condition that remains to be checked. -/
def choosePath (pkCol : String) (indexes : List IndexSchema) (whereClause : Option Expr) :
    AccessPath × Option Expr :=
  let (pkValue, residual) := extractPkEquality whereClause pkCol
  match pkValue with
  | some v => (.tableSeek v, residual)
  | none =>
      match findIndexEquality residual indexes with
      | some (idx, v, residual) => (.indexSeek idx v, residual)
      | none => (.seqScan, residual)

def AccessPath.read (schema : TableSchema) : AccessPath → DbProg ExecError Rows
  | .tableSeek v => Plan.tableSeek schema (seekKey v)
  | .indexSeek idx v => Plan.indexSeek schema idx.rootPage (seekKey v)
  | .seqScan => Plan.seqScan schema

/-- The operators above the scan, as a function on rows. -/
structure SelectPlan where
  path : AccessPath
  above : Rows → Rows

def SelectPlan.read (schema : TableSchema) (plan : SelectPlan) : DbProg ExecError Rows := do
  let rows ← plan.path.read schema
  return plan.above rows

def buildSelectPlanWithContext (schema : TableSchema) (indexes : List IndexSchema)
    (whereClause : Option Expr) (projectionIndices : List Nat) (orderBy : Option (String × Bool))
    (limitRows : Option Int64) (ctx : ExecutionContext) : Outcome PlanError SelectPlan := do
  let pkIdx ← Outcome.unwrap schema.primaryKeyIndex
  let pkCol ← Outcome.unwrap schema.columns[pkIdx]?
  let (path, residual) := choosePath pkCol.name indexes whereClause
  let filtered : Rows → Rows := match residual with
    | some predicate => filter lib schema predicate ctx
    | none => id
  let sorted : Rows → Rows ← match orderBy with
    | some (col, desc) =>
        match schema.columnIndex col with
        | some idx => .ok fun rows => sort idx desc (filtered rows)
        | none => .error (.noSuchColumn col)
    | none => .ok filtered
  return {
    path
    above := fun rows =>
      let projected := project projectionIndices (sorted rows)
      match limitRows with
      | some n => limit n projected
      | none => projected }

/-- The columns of a table under the name that the query gives it. -/
def qualifiedSchema (base : TableSchema) (qualifier : String) : TableSchema where
  name := qualifier
  columns := base.columns.map fun c => { c with name := qualifier ++ "." ++ c.name }
  rootPage := base.rootPage
  rlsEnabled := base.rlsEnabled

def joinSchema (left right : TableSchema) : TableSchema where
  name := left.name ++ "_join_" ++ right.name
  columns := left.columns ++ right.columns
  rootPage := 0
  rlsEnabled := false

/-- The plan of a table or a join; no policy is looked at. -/
def buildTableRefPlan : TableRef → DbProg PlanError (DbProg ExecError Rows × TableSchema)
  | .table name asName => do
      let found ← (getTable name).mapError fun e => .noSuchTable (e.text lib.ioText)
      match found with
      | none => .throw (.noSuchTable name)
      | some base => return (seqScan base, qualifiedSchema base (asName.getD name))
  | .join left right joinType condition => do
      let (leftPlan, leftSchema) ← buildTableRefPlan left
      let (rightPlan, rightSchema) ← buildTableRefPlan right
      let combined := joinSchema leftSchema rightSchema
      let plan : DbProg ExecError Rows := do
        let rightRows ← rightPlan
        let leftRows ← leftPlan
        return nestedLoopJoin lib rightSchema.columns.length joinType condition combined leftRows
          rightRows
      return (plan, combined)

end Plans

end ChocoBase.Plan
