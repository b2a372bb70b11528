import ChocoBase.Server.SharedDatabase
import ChocoBase.Sql.SplitStatements

/-!
# Restoring a database

A script runs in a transaction of its own.  The lines of a statement are trimmed and joined
before it is parsed, and a table is dropped before it is created again.
-/

namespace ChocoBase.Backup

open ChocoBase.Foundation ChocoBase.Engine ChocoBase.Sql ChocoBase.Types ChocoBase.Auth
  ChocoBase.Server

open Text (Chars)

section Restore

variable (host : Host)

/-- `Database::execute` -/
def execute (sql : String) : DbProg QueryError ExecResult :=
  match parse host.text host.debugToken sql with
  | .ok stmt => (executeStatement host.lib .admin (host.depth + 1) stmt).mapError .db
  | .error e => .throw (.parse e)
  | .stop why => .halt why

/-- `let _ = db.execute(..);` -/
def executeIgnored (sql : String) : DbProg QueryError Unit := do
  let _ ← ((execute host sql).attempt : DbProg QueryError (Except QueryError ExecResult))
  return ()

/-- The lines of a statement without comments, in one line. -/
def cleanedStmt (stmt : String) : String :=
  let lines := (Text.lines stmt.toList).map (Text.trim host.text.isWhitespace)
  let lines := lines.filter fun l => l ≠ [] && !"--".toList.isPrefixOf l
  String.ofList (Text.join [' '] lines)

/-- `split_whitespace` -/
def splitWhitespace (s : Chars) : List Chars :=
  (s.splitOnP host.text.isWhitespace).filter (· ≠ [])

/-- The table that a statement creates, by its third word. -/
def createdTable (stmt : String) : Option String :=
  if "CREATE TABLE ".toList.isPrefixOf (host.text.toUppercase stmt).toList then
    (splitWhitespace host stmt.toList)[2]?.map fun word =>
      String.ofList (Text.trim (fun c => !host.text.isAlphanumeric c && c ≠ '_') word)
  else none

/-- A table of the name is dropped; the errors are ignored. -/
def dropExisting (stmt : String) : DbProg QueryError Unit :=
  match createdTable host stmt with
  | none => return ()
  | some name => do
      let found : Except DbError (Option TableSchema) ← (Catalog.getTable name).attempt
      match found with
      | .ok (some _) => executeIgnored host ("DROP TABLE " ++ name)
      | _ => return ()

/-- A statement of a script; an error is met with a `ROLLBACK`. -/
def executeOrRollback (stmt : String) : DbProg QueryError Unit := do
  let result : Except QueryError ExecResult ← (execute host stmt).attempt
  match result with
  | .ok _ => return ()
  | .error e => do
      executeIgnored host "ROLLBACK"
      .throw e

def restoreLoop : List String → DbProg QueryError Nat
  | [] => return 0
  | stmt :: stmts =>
      let cleaned := cleanedStmt host stmt
      if cleaned = "" then restoreLoop stmts
      else do
        dropExisting host cleaned
        executeOrRollback host cleaned
        let count ← restoreLoop stmts
        return count + 1

def restoreDatabase (sql : String) : DbProg QueryError Nat :=
  match splitStatements host.text sql with
  | none => .halt .panic
  | some [] => return 0
  | some stmts => do
      let _ ← execute host "BEGIN TRANSACTION"
      let count ← restoreLoop host stmts
      let _ ← execute host "COMMIT"
      return count

/-! ## Restoring to a point in time -/

/-- The table of the log; that there is one already is ignored. -/
def ensurePitrTables : DbProg QueryError Unit :=
  executeIgnored host ("CREATE TABLE _pitr_wal_log (id INTEGER PRIMARY KEY, " ++
    "timestamp_ms INTEGER NOT NULL, sql TEXT NOT NULL)")

/-- The statements of the log up to the target; none if they cannot be read. -/
def walStatements (target : UInt64) : DbProg QueryError (List String) := do
  let result : Except QueryError ExecResult ← (execute host
    ("SELECT sql FROM _pitr_wal_log WHERE timestamp_ms <= " ++ toString target.toNat ++
      " ORDER BY id ASC")).attempt
  return match result with
    | .ok (.rows _ rows) => rows.filterMap fun row =>
        match row.head? with
        | some (.text s) => some s
        | _ => none
    | _ => []

def replayLoop : List String → DbProg QueryError Nat
  | [] => return 0
  | stmt :: stmts => do
      executeOrRollback host stmt
      let count ← replayLoop stmts
      return count + 1

/-- Empty texts are not restored, not even in a transaction. -/
def restoreBase (sql : String) : DbProg QueryError Nat :=
  if sql = "" then return 0 else restoreDatabase host sql

def replay (stmts : List String) (total : Nat) : DbProg QueryError Nat :=
  match stmts with
  | [] => return total
  | stmts => do
      let _ ← execute host "BEGIN TRANSACTION"
      let count ← replayLoop host stmts
      let _ ← execute host "COMMIT"
      return total + count

def restoreToPointInTime (baseDumpSql : String) (target : UInt64) : DbProg QueryError Nat := do
  ensurePitrTables host
  let stmts ← walStatements host target
  let total ← restoreBase host baseDumpSql
  replay host stmts total

end Restore

end ChocoBase.Backup
