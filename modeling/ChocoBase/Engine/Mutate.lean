import ChocoBase.Plan.Planner

/-!
# Writing rows

A row is in the tree of its table and has an entry in the tree of each index.
Every call hands back the roots of all these trees.
-/

namespace ChocoBase.Engine

open ChocoBase.Foundation ChocoBase.Storage ChocoBase.Types

abbrev IndexRoots := List (String × PageNo)

def nulMessage (column : String) : String :=
  column ++ " contains an interior NUL byte, which cannot be represented in an order-preserving key"

/-- The checks that `insert_row` makes of each value. -/
def checkValues : List (Column × Value) → Outcome ExecError Unit
  | [] => .ok ()
  | (col, v) :: rest =>
      if col.notNull && v.isNull then .error (.notNullViolation col.name)
      else match v with
        | .text s =>
            if s.toList.contains '\x00' then .error (.invalidValue (nulMessage col.name))
            else checkValues rest
        | _ => checkValues rest

/-- The key of a row in the tree of its table. -/
def rowKey (schema : TableSchema) (row : Row) : Option Bytes := do
  let pkIdx ← schema.primaryKeyIndex
  let pk ← row[pkIdx]?
  encodeKey pk

/-- The key of a row in the tree of an index. -/
def entryKey (schema : TableSchema) (idx : IndexSchema) (row : Row) : Option Bytes := do
  let pkIdx ← schema.primaryKeyIndex
  let colIdx ← schema.columnIndex idx.column
  let v ← row[colIdx]?
  let pk ← row[pkIdx]?
  encodeCompositeKey [v, pk]

def insertEntries (schema : TableSchema) (row : Row) :
    List IndexSchema → DbProg ExecError IndexRoots
  | [] => return []
  | idx :: rest => do
      let key ← Prog.unwrap (entryKey schema idx row)
      let root ← ask ExecError.btree (.insert idx.rootPage key [])
      let roots ← insertEntries schema row rest
      return (idx.name, root) :: roots

def orDuplicate : BTreeError → ExecError
  | .duplicateKey => .duplicatePrimaryKey
  | other => .btree other

def insertRow (schema : TableSchema) (indexes : List IndexSchema) (row : Row) :
    DbProg ExecError (PageNo × IndexRoots) := do
  .ofOutcome (checkValues (schema.columns.zip row))
  let key ← Prog.unwrap (rowKey schema row)
  let payload ← Prog.unwrap (encodeRow schema row)
  let tableRoot ← ask orDuplicate (.insert schema.rootPage key payload)
  let roots ← insertEntries schema row indexes
  return (tableRoot, roots)

def deleteEntries (schema : TableSchema) (row : Row) :
    List IndexSchema → DbProg ExecError IndexRoots
  | [] => return []
  | idx :: rest => do
      let key ← Prog.unwrap (entryKey schema idx row)
      let (_, root) ← ask ExecError.btree (.delete idx.rootPage key)
      let roots ← deleteEntries schema row rest
      return (idx.name, root) :: roots

def deleteRow (schema : TableSchema) (indexes : List IndexSchema) (row : Row) :
    DbProg ExecError (PageNo × IndexRoots) := do
  let key ← Prog.unwrap (rowKey schema row)
  let (_, tableRoot) ← ask ExecError.btree (.delete schema.rootPage key)
  let roots ← deleteEntries schema row indexes
  return (tableRoot, roots)

/-- The indexes with their roots as they are now. -/
def withRoots (roots : IndexRoots) (indexes : List IndexSchema) : List IndexSchema :=
  indexes.map fun idx => { idx with rootPage := (roots.lookup idx.name).getD idx.rootPage }

def updateRow (schema : TableSchema) (indexes : List IndexSchema) (oldRow newRow : Row) :
    DbProg ExecError (PageNo × IndexRoots) := do
  let (tableRoot, roots) ← deleteRow schema indexes oldRow
  insertRow { schema with rootPage := tableRoot } (withRoots roots indexes) newRow

end ChocoBase.Engine
