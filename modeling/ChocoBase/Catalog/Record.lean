import ChocoBase.Sql.Library
import ChocoBase.Types.Row

/-!
# Records of the catalog

Tables, indexes and policies as bytes.  The expressions of a policy are stored as
JSON texts.
-/

namespace ChocoBase.Catalog

open ChocoBase.Foundation ChocoBase.Storage ChocoBase.Sql ChocoBase.Types

def kindTable : UInt8 := 1
def kindIndex : UInt8 := 2
def kindPolicy : UInt8 := 3

def recordKind (data : Bytes) : Option UInt8 := data.head?

def writeString (s : String) : Bytes := leBytes 2 (utf8 s).length ++ utf8 s

def writeBool (b : Bool) : Bytes := [if b then 1 else 0]

def readString (data : Bytes) : Option (String × Bytes) := do
  let (len, data) ← readLe 2 data
  let (bytes, data) ← splitBytes len data
  let s ← fromUtf8 bytes
  return (s, data)

def readByte (data : Bytes) : Option (UInt8 × Bytes) := do
  let b ← data.head?
  return (b, data.tail)

def readBool (data : Bytes) : Option (Bool × Bytes) := do
  let (b, data) ← readByte data
  return (b ≠ 0, data)

def readPageNo (data : Bytes) : Option (PageNo × Bytes) := do
  let (n, data) ← readLe 4 data
  return (UInt32.ofNat n, data)

def typeTag : ColumnType → UInt8
  | .integer => 1
  | .text => 2
  | .boolean => 3
  | .json => 4
  | .float => 5
  | .vector _ => 6

/-! ## Tables -/

def encodeType : ColumnType → Bytes
  | .vector dim => typeTag (.vector dim) :: leBytes 2 dim
  | ty => [typeTag ty]

def encodeColumn (col : Column) : Bytes :=
  writeString col.name ++ encodeType col.ty ++ writeBool col.notNull ++ writeBool col.isPrimaryKey

def encodeTableRecord (schema : TableSchema) : Bytes :=
  kindTable :: (writeString schema.name ++ leBytes 4 schema.rootPage.toNat ++
    leBytes 2 schema.columns.length ++ schema.columns.flatMap encodeColumn ++
    writeBool schema.rlsEnabled)

/-- An unknown tag panics. -/
def decodeType (data : Bytes) : Option (ColumnType × Bytes) := do
  let (tag, data) ← readByte data
  if tag = 1 then return (.integer, data)
  else if tag = 5 then return (.float, data)
  else if tag = 2 then return (.text, data)
  else if tag = 3 then return (.boolean, data)
  else if tag = 4 then return (.json, data)
  else if tag = 6 then
    let (dim, data) ← readLe 2 data
    return (.vector dim, data)
  else none

def decodeColumn (data : Bytes) : Option (Column × Bytes) := do
  let (name, data) ← readString data
  let (ty, data) ← decodeType data
  let (notNull, data) ← readBool data
  let (isPrimaryKey, data) ← readBool data
  return ({ name, ty, notNull, isPrimaryKey }, data)

def decodeColumnList : Nat → Bytes → Option (List Column × Bytes)
  | 0, data => some ([], data)
  | n + 1, data => do
      let (col, data) ← decodeColumn data
      let (cols, data) ← decodeColumnList n data
      return (col :: cols, data)

def decodeTableRecord (data : Bytes) : Option TableSchema := do
  guard (recordKind data = some kindTable)
  let (name, data) ← readString data.tail
  let (rootPage, data) ← readPageNo data
  let (numCols, data) ← readLe 2 data
  let (columns, data) ← decodeColumnList numCols data
  let rlsEnabled := match data with
    | [] => false
    | b :: _ => b ≠ 0
  return { name, columns, rootPage, rlsEnabled }

/-! ## Indexes -/

def encodeIndexRecord (schema : IndexSchema) : Bytes :=
  kindIndex :: (writeString schema.name ++ writeString schema.table ++ writeString schema.column ++
    leBytes 4 schema.rootPage.toNat)

def decodeIndexRecord (data : Bytes) : Option IndexSchema := do
  guard (recordKind data = some kindIndex)
  let (name, data) ← readString data.tail
  let (table, data) ← readString data
  let (column, data) ← readString data
  let (rootPage, _) ← readPageNo data
  return { name, table, column, rootPage }

/-! ## Policies -/

def encodeCmd : PolicyCmd → UInt8
  | .select => 0
  | .insert => 1
  | .update => 2
  | .delete => 3
  | .all => 4

def decodeCmd (tag : UInt8) : PolicyCmd :=
  if tag = 0 then .select else if tag = 1 then .insert else if tag = 2 then .update
  else if tag = 3 then .delete else .all

section Policies

variable (lib : Library)

def encodePolicyRecord (schema : PolicySchema) : Bytes :=
  kindPolicy :: (writeString schema.name ++ writeString schema.table ++ [encodeCmd schema.cmd] ++
    writeString ((lib.exprText schema.usingExpr).getD "") ++
    writeString ((lib.exprText schema.withCheck).getD ""))

def decodePolicyRecord (data : Bytes) : Option PolicySchema := do
  guard (recordKind data = some kindPolicy)
  let (name, data) ← readString data.tail
  let (table, data) ← readString data
  let (tag, data) ← readByte data
  let (usingJson, data) ← readString data
  let (checkJson, _) ← readString data
  return {
    name, table, cmd := decodeCmd tag
    usingExpr := (lib.parseExpr usingJson).join
    withCheck := (lib.parseExpr checkJson).join }

end Policies

end ChocoBase.Catalog
