import ChocoBase.Engine.Dml

/-!
# Tables, indexes and users

Adding or dropping a column writes all rows into a new tree.  The user who runs a
statement is not looked at here.
-/

namespace ChocoBase.Engine

open ChocoBase.Foundation ChocoBase.Storage ChocoBase.Sql ChocoBase.Types ChocoBase.Auth
  ChocoBase.Catalog ChocoBase.Plan

/-! ## Users -/

def usersTable : String := "_users"

def usersColumns : List Column :=
  [⟨"id", .integer, true, true⟩, ⟨"username", .text, true, false⟩,
    ⟨"password_hash", .text, true, false⟩, ⟨"role", .text, true, false⟩]

/-- Insert a row into the table of users and record its root. -/
def insertUser (schema : TableSchema) (row : Row) : DbProg DbError Unit := do
  let (newRoot, _) ← (insertRow schema [] row).mapError .exec
  if newRoot ≠ schema.rootPage then updateTableRoot usersTable newRoot

/-- The table of users, with one administrator in it. -/
def ensureAuthTable : DbProg DbError Unit := do
  if (← getTable usersTable).isNone then
    let root ← createTree
    let schema : TableSchema := ⟨usersTable, usersColumns, root, false⟩
    createTable schema
    let password ← ask fromPager .defaultPassword
    let hash ← ask fromPager (.hashPassword password)
    insertUser schema [.integer 1, .text "postgres", .text hash, .text "admin"]

/-- The loop over the users: the name must be new; the result is the largest id. -/
def scanUsers (username : String) : List Row → Int64 → Outcome DbError Int64
  | [], maxId => .ok maxId
  | row :: rows, maxId =>
      (Outcome.unwrap row[1]?).bind fun name =>
        if name = .text username then
          .error (.exec (.invalidValue ("user '" ++ username ++ "' already exists")))
        else
          (Outcome.unwrap row[0]?).bind fun id =>
            match id with
            | .integer id => scanUsers username rows (if id > maxId then id else maxId)
            | _ => scanUsers username rows maxId

def executeCreateUser (username password : String) (role : Option String) :
    DbProg DbError ExecResult := do
  ensureAuthTable
  let hash ← ask fromPager (.hashPassword password)
  let found ← getTable usersTable
  let schema ← Prog.unwrap found
  let users ← (seqScan schema).mapError .exec
  let maxId ← Prog.ofOutcome ((scanUsers username users.rows 0).bind fun maxId =>
    (users.ending.mapError .exec).bind fun _ => .ok maxId)
  if maxId.toInt + 1 ≥ 2 ^ 63 then .halt .overflow
  else
    insertUser schema
      [.integer (maxId + 1), .text username, .text hash, .text (role.getD "user")]
    return .modified 1

/-! ## Tables -/

def executeCreateTable (name : String) (columns : List ColumnDef) : DbProg DbError ExecResult := do
  if (columns.filter fun c => c.primaryKey).length ≠ 1 then
    .throw (.plan (.invalidSchema
      ("table " ++ name ++ " must declare exactly one PRIMARY KEY column")))
  else
    let root ← createTree
    let cols := columns.map fun c => (⟨c.name, c.ty, c.notNull || c.primaryKey, c.primaryKey⟩ : Column)
    createTable ⟨name, cols, root, false⟩
    return .ok

section Alter

variable (lib : Library)

/-- Write a row of the new table and its entries, as an insertion does. -/
def rewriteOne (schema : TableSchema) (indexes : List IndexSchema) (p : Progress) (row : Row) :
    DbProg DbError Progress := do
  let roots ← (insertRow (p.schema schema) (withRoots p.indexRoots indexes) row).mapError .exec
  return p.next roots row

/--
Write rows of the given form into a new tree.  The old tree stays behind, and the
trees of the indexes are not emptied first.
-/
def rewriteTable (schema : TableSchema) (columns : List Column) (indexes : List IndexSchema)
    (rows : List Row) : DbProg DbError ExecResult := do
  let newRoot ← createTree
  let schema : TableSchema := { schema with columns, rootPage := newRoot }
  let p ← Prog.forEach (rewriteOne schema indexes) rows (.start schema indexes)
  updateTableSchema { schema with rootPage := p.tableRoot }
  updateIndexRoots p.indexRoots indexes
  return .ok

def executeAlterTableAddColumn (table : String) (colDef : ColumnDef) :
    DbProg DbError ExecResult := do
  let schema ← requireTable table
  if schema.columns.any fun c => c.name = colDef.name then
    .throw (.plan (.noSuchColumn
      ("column '" ++ colDef.name ++ "' already exists in table '" ++ table ++ "'")))
  else
    let newCol : Column := ⟨colDef.name, colDef.ty, colDef.notNull, colDef.primaryKey⟩
    let indexes ← listIndexesForTable table
    let rows ← readAll lib schema indexes none .admin
    rewriteTable schema (schema.columns ++ [newCol]) indexes (rows.map fun row => row ++ [.null])

def dropIndexesOn (column : String) : List IndexSchema → DbProg DbError Unit
  | [] => return ()
  | idx :: rest => do
      if idx.column = column then dropIndex idx.name
      dropIndexesOn column rest

def executeAlterTableDropColumn (table column : String) : DbProg DbError ExecResult := do
  let schema ← requireTable table
  match schema.columnIndex column with
  | none => .throw (.plan (.noSuchColumn column))
  | some colIdx => do
      let col ← Prog.unwrap schema.columns[colIdx]?
      if col.isPrimaryKey then .throw (.plan .cannotUpdatePrimaryKey)
      else
        let indexes ← listIndexesForTable table
        dropIndexesOn column indexes
        let remaining ← listIndexesForTable table
        let rows ← readAll lib schema indexes none .admin
        rewriteTable schema (schema.columns.eraseIdx colIdx) remaining
          (rows.map fun row => row.eraseIdx colIdx)

end Alter

/-! ## Indexes -/

/-- The loop that fills a new index. -/
def backfill (schema : TableSchema) (idx : IndexSchema) (root : PageNo) (row : Row) :
    DbProg DbError PageNo := do
  let key ← Prog.unwrap (entryKey schema idx row)
  ask DbError.btree (.insert root key [])

def executeCreateIndex (name table column : String) : DbProg DbError ExecResult := do
  let schema ← requireTable table
  match schema.columnIndex column with
  | none => .throw (.plan (.noSuchColumn column))
  | some colIdx => do
      let col ← Prog.unwrap schema.columns[colIdx]?
      if !col.notNull then
        .throw (.plan (.invalidSchema ("indexed column " ++ column ++ " must be NOT NULL")))
      else
        let initialRoot ← createTree
        let scanned ← (seqScan schema).mapError .exec
        let idx : IndexSchema := ⟨name, table, column, initialRoot⟩
        let root ← Prog.forEach (backfill schema idx) scanned.rows initialRoot
        .ofOutcome (scanned.ending.mapError .exec)
        createIndex { idx with rootPage := root }
        return .ok

end ChocoBase.Engine
