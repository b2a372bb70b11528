import ChocoBase.Plan.Planner

/-!
# SELECT

The policies of a table are added to the condition of a query on that table alone;
subqueries are replaced by their results before rows are read.
-/

namespace ChocoBase.Engine

open ChocoBase.Foundation ChocoBase.Storage ChocoBase.Sql ChocoBase.Types ChocoBase.Auth
  ChocoBase.Catalog ChocoBase.Plan

inductive ExecResult where
  | rows (columns : List String) (rows : List Row)
  | modified (count : Nat)
  | ok
  deriving DecidableEq

/-! ## Policies -/

def appliesTo (cmd : PolicyCmd) (policy : PolicySchema) : Bool :=
  policy.cmd = cmd || policy.cmd = .all

/-- `1 = 0` -/
def alwaysFalse : Expr := .binaryOp .eq (.intLiteral 1) (.intLiteral 0)

/-- The disjunction of the `USING` expressions; a policy without one adds nothing. -/
def combineUsing (policies : List PolicySchema) : Option Expr :=
  policies.foldl (fun combined policy =>
    match policy.usingExpr, combined with
    | some check, some prev => some (.binaryOp .or prev check)
    | some check, none => some check
    | none, combined => combined) none

def addPolicies (matching : List PolicySchema) (userWhere : Option Expr) : Option Expr :=
  if matching.isEmpty then some alwaysFalse
  else match userWhere, combineUsing matching with
    | some w, some p => some (.binaryOp .and w p)
    | none, some p => some p
    | some w, none => some w
    | none, none => none

section Engine

variable (lib : Library) (ctx : ExecutionContext)

def applyRlsFilter (table : String) (cmd : PolicyCmd) (userWhere : Option Expr) :
    DbProg DbError (Option Expr) := do
  match ← getTable table with
  | none => return userWhere
  | some schema =>
      if !schema.rlsEnabled || ctx.isAdmin then return userWhere
      else
        let policies ← listPoliciesForTable lib table
        return addPolicies (policies.filter (appliesTo cmd)) userWhere

/-! ## Subqueries -/

/-- A value as a literal, the way `IN (SELECT ..)` puts it into its list. -/
def valueLiteral : Value → Expr
  | .integer n => .intLiteral n
  | .float x => .floatLiteral x
  | .text s => .stringLiteral s
  | .boolean b => .boolLiteral b
  | .json s => .stringLiteral s
  | .vector xs => .stringLiteral ((lib.vectorText xs).getD "")
  | .null => .null

def firstLiterals : ExecResult → List Expr
  | .rows _ rows => rows.filterMap fun row => row.head?.map (valueLiteral lib)
  | _ => []

def hasRows : ExecResult → Bool
  | .rows _ rows => !rows.isEmpty
  | _ => false

section Resolve

variable (execute : Statement → DbProg DbError ExecResult)

mutual

def resolveSubqueriesInExpr : Expr → DbProg DbError Expr
  | .inSubquery expr subquery negated => do
      let expr ← resolveSubqueriesInExpr expr
      let res ← execute subquery
      return .inList expr (firstLiterals lib res) negated
  | .exists subquery negated => do
      let res ← execute subquery
      return .boolLiteral (hasRows res != negated)
  | .binaryOp op left right => do
      let left ← resolveSubqueriesInExpr left
      let right ← resolveSubqueriesInExpr right
      return .binaryOp op left right
  | .isNull expr negated => do
      let expr ← resolveSubqueriesInExpr expr
      return .isNull expr negated
  | .inList expr list negated => do
      let expr ← resolveSubqueriesInExpr expr
      let list ← resolveSubqueriesInList list
      return .inList expr list negated
  | .like expr pattern negated => do
      let expr ← resolveSubqueriesInExpr expr
      return .like expr pattern negated
  | .vectorDistance metric left right => do
      let left ← resolveSubqueriesInExpr left
      let right ← resolveSubqueriesInExpr right
      return .vectorDistance metric left right
  | .jsonExtract expr path asText => do
      let expr ← resolveSubqueriesInExpr expr
      return .jsonExtract expr path asText
  | .ftsMatch expr query => do
      let expr ← resolveSubqueriesInExpr expr
      return .ftsMatch expr query
  | .ftsRank expr query => do
      let expr ← resolveSubqueriesInExpr expr
      return .ftsRank expr query
  | .ftsSnippet expr query => do
      let expr ← resolveSubqueriesInExpr expr
      return .ftsSnippet expr query
  | .column name => return .column name
  | .qualifiedColumn table column => return .qualifiedColumn table column
  | .intLiteral n => return .intLiteral n
  | .floatLiteral x => return .floatLiteral x
  | .stringLiteral s => return .stringLiteral s
  | .boolLiteral b => return .boolLiteral b
  | .null => return .null
  | .aggregate func => return .aggregate func
  | .authUid => return .authUid

def resolveSubqueriesInList : List Expr → DbProg DbError (List Expr)
  | [] => return []
  | item :: list => do
      let item ← resolveSubqueriesInExpr item
      let list ← resolveSubqueriesInList list
      return item :: list

end

def resolveWhere : Option Expr → DbProg DbError (Option Expr)
  | none => return none
  | some w => do
      let w ← resolveSubqueriesInExpr lib execute w
      return some w

end Resolve

/-! ## Names of the columns of a result -/

def aggregateName : AggregateFunc → String
  | .countStar => "count(*)"
  | .count _ => "count"
  | .sum _ => "sum"
  | .avg _ => "avg"
  | .min _ => "min"
  | .max _ => "max"

/-- In a join a qualified column keeps its table's name. -/
def columnName (isJoin : Bool) (expr : Expr) : String :=
  match expr with
  | .column c => c
  | .qualifiedColumn table column => if isJoin then table ++ "." ++ column else column
  | _ => "expr"

def itemName (isJoin : Bool) (expr : Expr) : String :=
  match expr with
  | .jsonExtract _ path _ => path
  | other => columnName isJoin other

structure Grouping where
  aggregates : List AggregateFunc
  names : List String
  groupExprs : List Expr

def addItem (isJoin hasGroupBy : Bool) (g : Grouping) : SelectItem → Outcome PlanError Grouping
  | .expr (.aggregate func) asName => .ok { g with
      aggregates := g.aggregates ++ [func]
      names := g.names ++ [asName.getD (aggregateName func)] }
  | .expr expr asName => .ok { g with
      names := g.names ++ [asName.getD (columnName isJoin expr)]
      groupExprs :=
        if !hasGroupBy && !g.groupExprs.contains expr then g.groupExprs ++ [expr]
        else g.groupExprs }
  | .all => .error (.invalidExpression "cannot use SELECT * with aggregations")

def groupingOf (isJoin : Bool) (columns : SelectColumns) (groupBy : Option (List Expr)) :
    Outcome PlanError Grouping :=
  let start : Grouping := ⟨[], [], groupBy.getD []⟩
  match columns with
  | .items items => items.foldlM (addItem isJoin groupBy.isSome) start
  | _ => .ok start

def columnIndices (schema : TableSchema) : List String → Outcome PlanError (List Nat)
  | [] => .ok []
  | c :: rest =>
      match schema.columnIndex c with
      | none => .error (.noSuchColumn c)
      | some idx => (columnIndices schema rest).bind fun indices => .ok (idx :: indices)

def columnNames (schema : TableSchema) : List String := schema.columns.map fun c => c.name

/-- The names and expressions that a list of items stands for. -/
def itemExprs (isJoin : Bool) (schema : TableSchema) (items : List SelectItem) :
    List (String × Expr) :=
  items.flatMap fun
    | .all => (columnNames schema).map fun name => (name, .column name)
    | .expr expr asName => [(asName.getD (itemName isJoin expr), expr)]

/-- Sort by a column of the table, or else by a column of the result. -/
def sortPlan (schema : TableSchema) (names : List String) :
    Option (String × Bool) → Option (String × Bool) × Option (Nat × Bool)
  | none => (none, none)
  | some (col, desc) =>
      if (schema.columnIndex col).isSome then (some (col, desc), none)
      else match names.findIdx? fun n => n = col with
        | some idx => (none, some (idx, desc))
        | none => (some (col, desc), none)

def limitTo (n : Option Int64) (rows : Rows) : Rows :=
  match n with
  | some n => limit n rows
  | none => rows

def hasAggregate : SelectColumns → Bool
  | .items items => items.any fun
      | .expr (.aggregate _) _ => true
      | _ => false
  | _ => false

/-! ## Execution -/

/-- Call `next` until the end. -/
def collectRows (rows : Rows) : DbProg DbError (List Row) :=
  .ofOutcome (rows.outcome.mapError .exec)

def planned {α : Type} (x : Outcome PlanError α) : DbProg DbError α :=
  .ofOutcome (x.mapError .plan)

structure SelectArgs where
  columns : SelectColumns
  whereClause : Option Expr
  groupBy : Option (List Expr)
  having : Option Expr
  orderBy : Option (String × Bool)
  limit : Option Int64

def filterBy (schema : TableSchema) (predicate : Option Expr) (rows : Rows) : Rows :=
  match predicate with
  | some predicate => filter lib schema predicate ctx rows
  | none => rows

/-- The rest of a query with groups or aggregates, above its filtered rows. -/
def finishGrouped (isJoin : Bool) (schema : TableSchema) (args : SelectArgs)
    (read : DbProg ExecError Rows) : DbProg DbError ExecResult := do
  let g ← planned (groupingOf isJoin args.columns args.groupBy)
  let input ← read.mapError .exec
  let groupBy := if g.groupExprs.isEmpty then none else some g.groupExprs
  let output := aggregate lib schema groupBy g.aggregates args.having
    (filterBy lib ctx schema args.whereClause input)
  let rows ← collectRows (limitTo args.limit output)
  return .rows g.names rows

def sortIndex (schema : TableSchema) : Option (String × Bool) → Outcome PlanError (Option (Nat × Bool))
  | none => .ok none
  | some (col, desc) =>
      match schema.columnIndex col with
      | some idx => .ok (some (idx, desc))
      | none => .error (.noSuchColumn col)

def sortBy (sortKey : Option (Nat × Bool)) (rows : Rows) : Rows :=
  match sortKey with
  | some (idx, desc) => sort idx desc rows
  | none => rows

def selectJoin (tableRef : TableRef) (args : SelectArgs) : DbProg DbError ExecResult := do
  let (read, schema) ← (buildTableRefPlan lib tableRef).mapError DbError.plan
  if args.groupBy.isSome || hasAggregate args.columns then
    finishGrouped lib ctx true schema args read
  else match args.columns with
    | .items items => do
        let exprs := itemExprs true schema items
        let (planOrderBy, postSort) := sortPlan schema (exprs.map Prod.fst) args.orderBy
        let planSort ← planned (sortIndex schema planOrderBy)
        let input ← read.mapError .exec
        let sorted := sortBy planSort (filterBy lib ctx schema args.whereClause input)
        let output := sortBy postSort (projectExpr lib schema (exprs.map Prod.snd) ctx sorted)
        let rows ← collectRows (limitTo args.limit output)
        return .rows (exprs.map Prod.fst) rows
    | columns => do
        let (names, indices) ← match columns with
          | .list names => do
              let indices ← planned (columnIndices schema names)
              pure (names, indices)
          | _ => pure (columnNames schema, List.range schema.columns.length)
        let planSort ← planned (sortIndex schema args.orderBy)
        let input ← read.mapError .exec
        let sorted := sortBy planSort (filterBy lib ctx schema args.whereClause input)
        let rows ← collectRows (limitTo args.limit (project indices sorted))
        return .rows names rows

def selectTable (table : String) (args : SelectArgs) : DbProg DbError ExecResult := do
  let schema ← requireTable table
  let indexes ← listIndexesForTable table
  if args.groupBy.isSome || hasAggregate args.columns then
    finishGrouped lib ctx false schema args (seqScan schema)
  else match args.columns with
    | .items items => do
        let exprs := itemExprs false schema items
        let (planOrderBy, postSort) := sortPlan schema (exprs.map Prod.fst) args.orderBy
        let plan ← planned (buildSelectPlanWithContext lib schema indexes args.whereClause
          (List.range schema.columns.length) planOrderBy none ctx)
        let input ← (plan.read schema).mapError .exec
        let output := sortBy postSort (projectExpr lib schema (exprs.map Prod.snd) ctx input)
        let rows ← collectRows (limitTo args.limit output)
        return .rows (exprs.map Prod.fst) rows
    | columns => do
        let (names, indices) ← match columns with
          | .list names => do
              let indices ← planned (columnIndices schema names)
              pure (names, indices)
          | _ => pure (columnNames schema, List.range schema.columns.length)
        let plan ← planned (buildSelectPlanWithContext lib schema indexes args.whereClause indices
          args.orderBy args.limit ctx)
        let input ← (plan.read schema).mapError .exec
        let rows ← collectRows input
        return .rows names rows

def isJoin : Option TableRef → Bool
  | some (.join ..) => true
  | _ => false

def executeSelect (execute : Statement → DbProg DbError ExecResult) (table : String)
    (tableRef : Option TableRef) (args : SelectArgs) : DbProg DbError ExecResult := do
  match tableRef with
  | some (.join left right joinType condition) => do
      let whereClause ← resolveWhere lib execute args.whereClause
      selectJoin lib ctx (.join left right joinType condition) { args with whereClause }
  | _ => do
      let whereClause ← applyRlsFilter lib ctx table .select args.whereClause
      let whereClause ← resolveWhere lib execute whereClause
      selectTable lib ctx table { args with whereClause }

/-! ## EXPLAIN -/

def limitText (n : Int64) : String := toString n.toInt

def explainSelect (table : String) (tableRef : Option TableRef) (whereClause : Option Expr)
    (orderBy : Option (String × Bool)) (limitRows : Option Int64) : DbProg DbError (List String) := do
  let width (schema : TableSchema) := toString schema.columns.length
  let scanLines ← if isJoin tableRef then
      pure ["-> Join Execution: " ++ lib.debugTableRef tableRef]
    else do
      match ← getTable table with
      | none => pure ["-> Scan on " ++ table]
      | some schema => do
          let indexes ← listIndexesForTable table
          let pkIdx ← Prog.unwrap schema.primaryKeyIndex
          let pkCol ← Prog.unwrap schema.columns[pkIdx]?
          let pathLines := match choosePath pkCol.name indexes whereClause with
            | (.tableSeek v, _) =>
                ["-> TableSeek on " ++ table ++ " (cost=1.0..1.2 rows=1 width=" ++ width schema ++ ")",
                  "   Index Cond: (" ++ pkCol.name ++ " = " ++ lib.debugValue v ++ ")"]
            | (.indexSeek idx v, _) =>
                ["-> IndexSeek on " ++ table ++ " using " ++ idx.name ++
                    " (cost=1.0..4.5 rows=10 width=" ++ width schema ++ ")",
                  "   Index Cond: (" ++ idx.column ++ " = " ++ lib.debugValue v ++ ")"]
            | (.seqScan, _) =>
                ["-> SeqScan on " ++ table ++ " (cost=0.0..25.0 rows=100 width=" ++ width schema ++ ")"]
          let filterLines := whereClause.elim [] fun pred => ["   Filter: " ++ lib.debugExpr pred]
          pure (pathLines ++ filterLines)
  let sortLines := orderBy.elim [] fun (col, desc) =>
    ["-> Sort by " ++ col ++ (if desc then " DESC" else " ASC")]
  let limitLines := limitRows.elim [] fun n => ["-> Limit " ++ limitText n]
  return scanLines ++ sortLines ++ limitLines

def explainStatement : Statement → DbProg DbError (List String)
  | .select _ table tableRef whereClause _ _ orderBy limitRows =>
      explainSelect lib table tableRef whereClause orderBy limitRows
  | .insert table _ rows _ =>
      return ["-> Insert into " ++ table ++ " (rows=" ++ toString rows.length ++ ")"]
  | .update table _ whereClause _ =>
      return ["-> Update on " ++ table ++ " filter=" ++ lib.debugWhere whereClause]
  | .delete table whereClause _ =>
      return ["-> Delete on " ++ table ++ " filter=" ++ lib.debugWhere whereClause]
  | other => return ["-> Execute statement: " ++ lib.debugStatement other]

end Engine

end ChocoBase.Engine
