import ChocoBase.Engine.Ddl

/-!
# Executing statements

A statement that changes data outside of a transaction runs in one of its own.
`fuel` bounds how deep subqueries nest, those of policies included.
-/

namespace ChocoBase.Engine

open ChocoBase.Foundation ChocoBase.Storage ChocoBase.Sql ChocoBase.Types ChocoBase.Auth
  ChocoBase.Catalog ChocoBase.Plan

variable (lib : Library) (ctx : ExecutionContext)

section Mutating

variable (execute : Statement → DbProg DbError ExecResult)

def done (x : DbProg DbError Unit) : DbProg DbError ExecResult := do
  x
  return .ok

def executeMutating : Statement → DbProg DbError ExecResult
  | .createTable name columns => executeCreateTable name columns
  | .dropTable name => done (dropTable name)
  | .createIndex name table column => executeCreateIndex name table column
  | .dropIndex name => done (Catalog.dropIndex name)
  | .insert table columns rows returning => executeInsert lib ctx table columns rows returning
  | .delete table whereClause returning =>
      executeDelete lib ctx execute table whereClause returning
  | .update table assignments whereClause returning =>
      executeUpdate lib ctx execute table assignments whereClause returning
  | .createUser username password role => executeCreateUser username password role
  | .alterTableRls table enabled => done (setTableRls table enabled)
  | .alterTableAddColumn table column => executeAlterTableAddColumn lib table column
  | .alterTableDropColumn table column => executeAlterTableDropColumn lib table column
  | .alterTableRename table newName => done (renameTable table newName)
  | .createPolicy name table cmd usingExpr withCheck =>
      done (createPolicy lib ⟨name, table, cmd, usingExpr, withCheck⟩)
  | .dropPolicy name _ => done (dropPolicy name)
  | .select .. | .begin | .commit | .rollback | .explain _ => .halt .panic

def executeBegin : DbProg DbError ExecResult := do
  if ← inTransaction then .throw (.plan .nestedTransactionNotSupported)
  else
    ask fromPager .clearEvents
    ask fromPager .beginTransaction
    return .ok

def executeCommit : DbProg DbError ExecResult := do
  if ← inTransaction then
    ask fromPager .commitTransaction
    ask fromPager .publishEvents
    return .ok
  else .throw (.plan .noTransactionInProgress)

def executeRollback : DbProg DbError ExecResult := do
  if ← inTransaction then
    ask fromPager .clearEvents
    ask fromPager .rollbackTransaction
    bootstrap
    return .ok
  else .throw (.plan .noTransactionInProgress)

/-- `let _ = x;` -/
def ignored (x : DbProg DbError Unit) : DbProg DbError (Except DbError Unit) := x.attempt

/-- A statement in a transaction of its own. -/
def autoCommit (x : DbProg DbError ExecResult) : DbProg DbError ExecResult := do
  ask fromPager .beginTransaction
  match ← x.attempt with
  | .ok res => do
      ask fromPager .commitTransaction
      ask fromPager .publishEvents
      return res
  | .error reason => do
      ask fromPager .clearEvents
      -- the errors of the rollback itself are ignored
      let _ ← ignored (ask fromPager .rollbackTransaction)
      let _ ← ignored bootstrap
      .throw reason

end Mutating

/-- `execute_statement_with_context` -/
def executeStatement : Nat → Statement → DbProg DbError ExecResult
  | 0, _ => .halt .diverges
  | fuel + 1, stmt =>
      match stmt with
      | .begin => executeBegin
      | .commit => executeCommit
      | .rollback => executeRollback
      | .select columns table tableRef whereClause groupBy having orderBy limit =>
          executeSelect lib ctx (executeStatement fuel) table tableRef
            { columns, whereClause, groupBy, having, orderBy, limit }
      | .explain inner => do
          let lines ← explainStatement lib inner
          return .rows ["QUERY PLAN"] (lines.map fun line => [.text line])
      | stmt => do
          if ← inTransaction then executeMutating lib ctx (executeStatement fuel) stmt
          else autoCommit (executeMutating lib ctx (executeStatement fuel) stmt)

/-! ## Creating and opening a database -/

/-- The part of `create` and `open` after the pager. -/
def prepare : DbProg DbError Unit := do
  bootstrap
  ask fromPager .flush
  ensureAuthTable

namespace Database

/-- A handle on a pager; the catalog is not loaded yet. -/
def ofPager (pager : Pager) : Database where
  pager
  root := 0
  subscribed := false
  transactionEvents := []
  delivered := []
  asked := 0

/-- `Database::create` on a new file. -/
def created (env : Environment) : Outcome DbError Unit × Database :=
  prepare.run (answer env) (ofPager Pager.created)

/-- Run one statement for a user. -/
def execute (env : Environment) (fuel : Nat) (stmt : Statement) (d : Database) :
    Outcome DbError ExecResult × Database :=
  (executeStatement lib ctx fuel stmt).run (answer env) d

/-- The database with its sets of dirty pages visited in order. -/
def sorting (d : Database) : Database :=
  { d with pager.file.orders := fun _ => .byInsertion }

/-- An admin runs statements without subqueries one after another. -/
def runAll (env : Environment) (stmts : List Statement) (d : Database) : Database :=
  stmts.foldl (fun d stmt => (execute lib .admin env 1 stmt d).2) d

/--
`create` leaves the page of `_users`, and its record in the catalog, in the cache
only: a `BEGIN` and a `ROLLBACK` right after it lose them.
-/
theorem rollback_after_create_loses :
    let p₀ := (created ⟨fun _ => 0, fun _ _ => "", "postgres"⟩).2.pager
    ∃ p q, Pager.beginTransaction p₀ = (.ok (), p) ∧
      Pager.rollbackTransaction p = (.ok (), q) ∧ q.logical ≠ p₀.logical := by
  intro p₀
  refine ⟨(Pager.beginTransaction p₀).2, (Pager.rollbackTransaction (Pager.beginTransaction p₀).2).2,
    Prod.ext (show (Pager.beginTransaction p₀).1 = .ok () by decide +kernel) rfl,
    Prod.ext (show (Pager.rollbackTransaction (Pager.beginTransaction p₀).2).1 = .ok () by
      decide +kernel) rfl, fun h => ?_⟩
  -- page 2, the leaf of `_users`, holds no node after the rollback
  exact absurd (congrArg (fun state => (state.page 2).map Page.pageType) h) (by decide +kernel)

end Database

end ChocoBase.Engine
