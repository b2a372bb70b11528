import ChocoBase.Catalog.Record
import ChocoBase.Engine.Requests

/-!
# The catalog

A tree of its own holds a record for each table, index and policy.  Records are
changed by deleting and inserting them again; afterwards the root of the catalog
tree is written to the header of the file.
-/

namespace ChocoBase.Engine

open ChocoBase.Foundation ChocoBase.Storage

section Requests

variable {ε : Type}

abbrev ask (convert : BTreeError → ε) (op : DbRequest) : DbProg ε op.Res :=
  @Prog.request dbRequests ε convert op

/-- The conversion of the errors of pager calls. -/
def fromPager : BTreeError → DbError
  | .storage inner => .storage inner
  | other => .btree other

def createTree : DbProg DbError PageNo := ask fromPager .createTree

def inTransaction : DbProg DbError Bool := ask fromPager .inTransaction

end Requests

end ChocoBase.Engine

namespace ChocoBase.Catalog

open ChocoBase.Foundation ChocoBase.Storage ChocoBase.Sql ChocoBase.Types ChocoBase.Engine

/-- `encode_key` of a text. -/
def textKey (s : String) : Bytes := utf8 s ++ [0]

theorem encodeKey_text (s : String) : encodeKey (.text s) = some (textKey s) := rfl

def tableKey (name : String) : Bytes := textKey ("table:" ++ name)
def indexKey (name : String) : Bytes := textKey ("index:" ++ name)
def policyKey (name : String) : Bytes := textKey ("policy:" ++ name)

def bootstrap : DbProg DbError Unit := do
  let stored : PageNo ← ask fromPager .catalogRoot
  if stored = 0 then
    let root ← createTree
    ask fromPager (.setCatalogRoot root)
  let root ← ask fromPager .catalogRoot
  ask fromPager (.setRoot root)

/-! ## Changing records -/

/-- `self.root = bt.root(); pager.set_catalog_root(self.root)?` -/
def moveRoot (root : PageNo) : DbProg DbError Unit := do
  ask fromPager (.setRoot root)
  ask fromPager (.setCatalogRoot root)

/-- A duplicate key means that something of this name exists. -/
def orExists (existing : PlanError) : BTreeError → DbError
  | .duplicateKey => .plan existing
  | other => .btree other

def createRecord (key payload : Bytes) (existing : PlanError) : DbProg DbError Unit := do
  let root ← ask fromPager .root
  let root ← ask (orExists existing) (.insert root key payload)
  moveRoot root

def replaceRecord (oldKey newKey payload : Bytes) : DbProg DbError Unit := do
  let root ← ask fromPager .root
  let (_, root) ← ask DbError.btree (.delete root oldKey)
  let root ← ask DbError.btree (.insert root newKey payload)
  moveRoot root

def deleteRecord (key : Bytes) : DbProg DbError Unit := do
  let root ← ask fromPager .root
  let (_, root) ← ask DbError.btree (.delete root key)
  moveRoot root

/-- A record that does not decode makes the program panic. -/
def getRecord {ρ : Type} (decode : Bytes → Option ρ) (key : Bytes) : DbProg DbError (Option ρ) := do
  let root ← ask fromPager .root
  match ← ask DbError.btree (.search root key) with
  | none => return none
  | some payload => do
      let record ← Prog.unwrap (decode payload)
      return some record

def orElseThrow {α : Type} (error : PlanError) : Option α → DbProg DbError α
  | some value => return value
  | none => .throw (.plan error)

/-! ## Listing records -/

def decodeKind {ρ : Type} (kind : UInt8) (decode : Bytes → Option ρ) :
    List (Bytes × Bytes) → Outcome BTreeError (List ρ)
  | [] => .ok []
  | (_, payload) :: rest =>
      (Outcome.unwrap (recordKind payload)).bind fun k =>
        if k = kind then
          (Outcome.unwrap (decode payload)).bind fun record =>
            (decodeKind kind decode rest).bind fun records => .ok (record :: records)
        else decodeKind kind decode rest

def listRecords {ρ : Type} (kind : UInt8) (decode : Bytes → Option ρ) : DbProg DbError (List ρ) := do
  let root ← ask fromPager .root
  let scanned ← ask DbError.btree (.scan root)
  .ofOutcome (((decodeKind kind decode scanned.entries).bind fun records =>
    scanned.ending.bind fun _ => .ok records).mapError .btree)

/-! ## Tables -/

def createTable (schema : TableSchema) : DbProg DbError Unit :=
  createRecord (tableKey schema.name) (encodeTableRecord schema) (.tableAlreadyExists schema.name)

def getTable (name : String) : DbProg DbError (Option TableSchema) :=
  getRecord decodeTableRecord (tableKey name)

/-- `get_table(..)?.ok_or_else(|| NoSuchTable(..))?` -/
def requireTable (name : String) : DbProg DbError TableSchema := do
  let found ← getTable name
  orElseThrow (.noSuchTable name) found

def updateTableRoot (name : String) (newRoot : PageNo) : DbProg DbError Unit := do
  let schema ← requireTable name
  replaceRecord (tableKey name) (tableKey name)
    (encodeTableRecord { schema with rootPage := newRoot })

/-- The error of the deletion is ignored. -/
def updateTableSchema (schema : TableSchema) : DbProg DbError Unit := do
  let root ← ask fromPager .root
  let deleted ← (ask DbError.btree (.delete root (tableKey schema.name))).attempt
  let root := match deleted with
    | .ok (_, root) => root
    | .error _ => root
  let root ← ask DbError.btree (.insert root (tableKey schema.name) (encodeTableRecord schema))
  moveRoot root

def renameTable (oldName newName : String) : DbProg DbError Unit := do
  if (← getTable newName).isSome then
    .throw (.plan (.tableAlreadyExists newName))
  let schema ← requireTable oldName
  replaceRecord (tableKey oldName) (tableKey newName)
    (encodeTableRecord { schema with name := newName })

def setTableRls (table : String) (enabled : Bool) : DbProg DbError Unit := do
  let schema ← requireTable table
  replaceRecord (tableKey table) (tableKey table)
    (encodeTableRecord { schema with rlsEnabled := enabled })

/-! ## Indexes -/

def createIndex (schema : IndexSchema) : DbProg DbError Unit :=
  createRecord (indexKey schema.name) (encodeIndexRecord schema) (.indexAlreadyExists schema.name)

/-- `get_index(..)?.ok_or_else(|| NoSuchIndex(..))?` -/
def requireIndex (name : String) : DbProg DbError IndexSchema := do
  let found ← getRecord decodeIndexRecord (indexKey name)
  orElseThrow (.noSuchIndex name) found

def updateIndexRoot (name : String) (newRoot : PageNo) : DbProg DbError Unit := do
  let schema ← requireIndex name
  replaceRecord (indexKey name) (indexKey name)
    (encodeIndexRecord { schema with rootPage := newRoot })

def listIndexesForTable (table : String) : DbProg DbError (List IndexSchema) := do
  let indexes ← listRecords kindIndex decodeIndexRecord
  return indexes.filter fun idx => idx.table = table

def dropIndex (name : String) : DbProg DbError Unit := do
  let schema ← requireIndex name
  ask fromPager (.walkAndFree schema.rootPage)
  deleteRecord (indexKey name)

def dropIndexes : List IndexSchema → DbProg DbError Unit
  | [] => return ()
  | idx :: rest => do
      dropIndex idx.name
      dropIndexes rest

def dropTable (name : String) : DbProg DbError Unit := do
  let schema ← requireTable name
  let indexes ← listIndexesForTable name
  dropIndexes indexes
  ask fromPager (.walkAndFree schema.rootPage)
  deleteRecord (tableKey name)

/-! ## Policies -/

section Policies

variable (lib : Library)

def createPolicy (policy : PolicySchema) : DbProg DbError Unit :=
  createRecord (policyKey policy.name) (encodePolicyRecord lib policy)
    (.tableAlreadyExists policy.name)

/-- Nothing is checked: dropping a policy that does not exist succeeds. -/
def dropPolicy (name : String) : DbProg DbError Unit := deleteRecord (policyKey name)

def listPoliciesForTable (table : String) : DbProg DbError (List PolicySchema) := do
  let policies ← listRecords kindPolicy (decodePolicyRecord lib)
  return policies.filter fun policy => policy.table = table

end Policies

end ChocoBase.Catalog
