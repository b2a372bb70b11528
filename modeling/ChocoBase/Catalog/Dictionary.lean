import ChocoBase.Catalog.Changes
import ChocoBase.Engine.Ddl

/-!
# The dictionary of a catalog

A catalog without the roots of its trees: the columns of each table, what each index
is on, and the policies.  `after` says what a successful statement makes of a
dictionary; it knows nothing of pages.
-/

namespace ChocoBase.Catalog

open ChocoBase.Foundation ChocoBase.Storage ChocoBase.BTree ChocoBase.Sql ChocoBase.Types
  ChocoBase.Engine

structure TableEntry where
  columns : List Column
  rlsEnabled : Bool
  deriving DecidableEq

structure IndexEntry where
  table : String
  column : String
  deriving DecidableEq

@[ext]
structure Dictionary where
  tables : String → Option TableEntry
  indexes : String → Option IndexEntry
  policies : String → Option PolicySchema

namespace Dictionary

/-! ## Statements -/

/-- The column that `CREATE TABLE` makes of its definition, as the catalog stores it. -/
def created (c : ColumnDef) : Column :=
  storedColumn ⟨c.name, c.ty, c.notNull || c.primaryKey, c.primaryKey⟩

/-- The column that `ADD COLUMN` makes of its definition. -/
def added (c : ColumnDef) : Column := storedColumn ⟨c.name, c.ty, c.notNull, c.primaryKey⟩

def setTable (d : Dictionary) (name : String) (entry : Option TableEntry) : Dictionary :=
  { d with tables := Function.update d.tables name entry }

def setIndex (d : Dictionary) (name : String) (entry : Option IndexEntry) : Dictionary :=
  { d with indexes := Function.update d.indexes name entry }

def setPolicy (d : Dictionary) (name : String) (policy : Option PolicySchema) : Dictionary :=
  { d with policies := Function.update d.policies name policy }

/-- Without the indexes of this kind. -/
def withoutIndexes (d : Dictionary) (gone : IndexEntry → Bool) : Dictionary :=
  { d with indexes := fun name => (d.indexes name).filter fun entry => !gone entry }

/-- What becomes of the dictionary when the statement succeeds; `none` if it cannot. -/
def after (lib : Library) (d : Dictionary) : Statement → Option Dictionary
  | .createTable name columns =>
      if d.tables name = none ∧ (columns.filter fun c => c.primaryKey).length = 1 then
        some (d.setTable name (some ⟨columns.map created, false⟩))
      else none
  | .dropTable name =>
      if d.tables name = none then none
      else some ((d.withoutIndexes fun entry => entry.table = name).setTable name none)
  | .createIndex name table column =>
      if d.tables table ≠ none ∧ d.indexes name = none then
        some (d.setIndex name (some ⟨table, column⟩))
      else none
  | .dropIndex name => if d.indexes name = none then none else some (d.setIndex name none)
  | .alterTableRls table enabled =>
      (d.tables table).map fun entry => d.setTable table (some { entry with rlsEnabled := enabled })
  | .alterTableAddColumn table column => do
      let entry ← d.tables table
      if entry.columns.any fun c => c.name = column.name then none
      else some (d.setTable table (some { entry with columns := entry.columns ++ [added column] }))
  | .alterTableDropColumn table column => do
      let entry ← d.tables table
      let colIdx ← entry.columns.findIdx? fun c => c.name = column
      let col ← entry.columns[colIdx]?
      if col.isPrimaryKey then none
      else some ((d.withoutIndexes fun idx => idx.table = table && idx.column = column).setTable table
        (some { entry with columns := entry.columns.eraseIdx colIdx }))
  | .alterTableRename table newName => do
      let entry ← d.tables table
      if d.tables newName = none then some ((d.setTable table none).setTable newName (some entry))
      else none
  | .createPolicy name table cmd usingExpr withCheck =>
      if d.policies name = none then
        some (d.setPolicy name (some (storedPolicy lib ⟨name, table, cmd, usingExpr, withCheck⟩)))
      else none
  | .dropPolicy name _ => some (d.setPolicy name none)
  | .createUser .. =>
      if d.tables usersTable = none then
        some (d.setTable usersTable (some ⟨usersColumns, false⟩))
      else some d
  | _ => some d

end Dictionary

/-! ## The dictionary that a catalog stores -/

section Stored

variable (lib : Library)

def tableEntry (schema : TableSchema) : TableEntry := ⟨schema.columns, schema.rlsEnabled⟩

def indexEntry (schema : IndexSchema) : IndexEntry := ⟨schema.table, schema.column⟩

/-- The catalog read without its roots. -/
def dictionary (cat : OrdMap Bytes Bytes) : Dictionary where
  tables name := ((cat.get (tableKey name)).bind decodeTableRecord).map tableEntry
  indexes name := ((cat.get (indexKey name)).bind decodeIndexRecord).map indexEntry
  policies name := (cat.get (policyKey name)).bind (decodePolicyRecord lib)

end Stored

section Stored

variable {lib : Library} {cat : OrdMap Bytes Bytes} {name : String} {payload : Bytes}

theorem dictionary_insert_table {schema : TableSchema} (h : decodeTableRecord payload = some schema) :
    dictionary lib (cat.insert (tableKey name) payload) =
      (dictionary lib cat).setTable name (some (tableEntry schema)) := by
  refine Dictionary.ext (funext fun name' => ?_) (funext fun name' => ?_) (funext fun name' => ?_)
  · by_cases heq : name' = name
    · subst heq
      simp [dictionary, Dictionary.setTable, OrdMap.get_insert, h]
    · have hne : tableKey name' ≠ tableKey name := fun hkey => heq (tableKey_injective hkey)
      simp [dictionary, Dictionary.setTable, OrdMap.get_insert, hne, heq]
  · simp [dictionary, Dictionary.setTable, OrdMap.get_insert, (tableKey_ne_indexKey name name').symm]
  · simp [dictionary, Dictionary.setTable, OrdMap.get_insert, (tableKey_ne_policyKey name name').symm]

theorem dictionary_erase_table :
    dictionary lib (cat.erase (tableKey name)) = (dictionary lib cat).setTable name none := by
  refine Dictionary.ext (funext fun name' => ?_) (funext fun name' => ?_) (funext fun name' => ?_)
  · by_cases heq : name' = name
    · subst heq
      simp [dictionary, Dictionary.setTable, OrdMap.get_erase]
    · have hne : tableKey name' ≠ tableKey name := fun hkey => heq (tableKey_injective hkey)
      simp [dictionary, Dictionary.setTable, OrdMap.get_erase, hne, heq]
  · simp [dictionary, Dictionary.setTable, OrdMap.get_erase, (tableKey_ne_indexKey name name').symm]
  · simp [dictionary, Dictionary.setTable, OrdMap.get_erase, (tableKey_ne_policyKey name name').symm]

theorem dictionary_insert_index {schema : IndexSchema} (h : decodeIndexRecord payload = some schema) :
    dictionary lib (cat.insert (indexKey name) payload) =
      (dictionary lib cat).setIndex name (some (indexEntry schema)) := by
  refine Dictionary.ext (funext fun name' => ?_) (funext fun name' => ?_) (funext fun name' => ?_)
  · simp [dictionary, Dictionary.setIndex, OrdMap.get_insert, tableKey_ne_indexKey name' name]
  · by_cases heq : name' = name
    · subst heq
      simp [dictionary, Dictionary.setIndex, OrdMap.get_insert, h]
    · have hne : indexKey name' ≠ indexKey name := fun hkey => heq (indexKey_injective hkey)
      simp [dictionary, Dictionary.setIndex, OrdMap.get_insert, hne, heq]
  · simp [dictionary, Dictionary.setIndex, OrdMap.get_insert, (indexKey_ne_policyKey name name').symm]

theorem dictionary_insert_policy {policy : PolicySchema}
    (h : decodePolicyRecord lib payload = some policy) :
    dictionary lib (cat.insert (policyKey name) payload) =
      (dictionary lib cat).setPolicy name (some policy) := by
  refine Dictionary.ext (funext fun name' => ?_) (funext fun name' => ?_) (funext fun name' => ?_)
  · simp [dictionary, Dictionary.setPolicy, OrdMap.get_insert, tableKey_ne_policyKey name' name]
  · simp [dictionary, Dictionary.setPolicy, OrdMap.get_insert, indexKey_ne_policyKey name' name]
  · by_cases heq : name' = name
    · subst heq
      simp [dictionary, Dictionary.setPolicy, OrdMap.get_insert, h]
    · have hne : policyKey name' ≠ policyKey name := fun hkey => heq (policyKey_injective hkey)
      simp [dictionary, Dictionary.setPolicy, OrdMap.get_insert, hne, heq]

theorem dictionary_erase_policy :
    dictionary lib (cat.erase (policyKey name)) = (dictionary lib cat).setPolicy name none := by
  refine Dictionary.ext (funext fun name' => ?_) (funext fun name' => ?_) (funext fun name' => ?_)
  · simp [dictionary, Dictionary.setPolicy, OrdMap.get_erase, tableKey_ne_policyKey name' name]
  · simp [dictionary, Dictionary.setPolicy, OrdMap.get_erase, indexKey_ne_policyKey name' name]
  · by_cases heq : name' = name
    · subst heq
      simp [dictionary, Dictionary.setPolicy, OrdMap.get_erase]
    · have hne : policyKey name' ≠ policyKey name := fun hkey => heq (policyKey_injective hkey)
      simp [dictionary, Dictionary.setPolicy, OrdMap.get_erase, hne, heq]

theorem isTable_unique {schema schema' : TableSchema} (h : IsTable cat schema)
    (h' : IsTable cat schema') (hname : schema'.name = schema.name) : schema' = schema := by
  have hrecorded := h'.recorded
  rw [hname, h.recorded] at hrecorded
  have hdecode := h'.decodes
  rw [← Option.some.inj hrecorded, h.decodes] at hdecode
  exact (Option.some.inj hdecode).symm

theorem isIndex_unique {idx idx' : IndexSchema} (h : IsIndex cat idx) (h' : IsIndex cat idx')
    (hname : idx'.name = idx.name) : idx' = idx := by
  have hrecorded := h'.recorded
  rw [hname, h.recorded] at hrecorded
  have hdecode := h'.decodes
  rw [← Option.some.inj hrecorded, h.decodes] at hdecode
  exact (Option.some.inj hdecode).symm

theorem IsTable.listed {schema : TableSchema} (h : IsTable cat schema) :
    (dictionary lib cat).tables schema.name = some (tableEntry schema) := by
  simp [dictionary, h.recorded, h.decodes]

theorem IsIndex.listed {schema : IndexSchema} (h : IsIndex cat schema) :
    (dictionary lib cat).indexes schema.name = some (indexEntry schema) := by
  simp [dictionary, h.recorded, h.decodes]

/-- Where the tree of a table lies is not in the dictionary. -/
theorem dictionary_tableRoot {schema : TableSchema} (h : IsTable cat schema) {root : PageNo}
    (hdecode : decodeTableRecord payload = some { schema with rootPage := root }) :
    dictionary lib (cat.insert (tableKey schema.name) payload) = dictionary lib cat := by
  rw [dictionary_insert_table hdecode, Dictionary.setTable]
  exact congrArg (Dictionary.mk · _ _) (Function.update_eq_self_iff.mpr h.listed.symm)

theorem dictionary_indexRoot {schema : IndexSchema} (h : IsIndex cat schema) {root : PageNo}
    (hdecode : decodeIndexRecord payload = some { schema with rootPage := root }) :
    dictionary lib (cat.insert (indexKey schema.name) payload) = dictionary lib cat := by
  rw [dictionary_insert_index hdecode, Dictionary.setIndex]
  exact congrArg (Dictionary.mk _ · _) (Function.update_eq_self_iff.mpr h.listed.symm)

theorem tables_none (h : cat.get (tableKey name) = none) : (dictionary lib cat).tables name = none := by
  simp [dictionary, h]

theorem indexes_none (h : cat.get (indexKey name) = none) :
    (dictionary lib cat).indexes name = none := by
  simp [dictionary, h]

theorem policies_none (h : cat.get (policyKey name) = none) :
    (dictionary lib cat).policies name = none := by
  simp [dictionary, h]

section Sound

variable {stale : Set Bytes} {f : Forest} {lay : Layout}

/-- What the dictionary lists, the catalog has. -/
theorem Sound.of_tables (h : Sound lib stale f cat lay) {entry : TableEntry}
    (hentry : (dictionary lib cat).tables name = some entry) :
    ∃ schema, schema.name = name ∧ tableEntry schema = entry ∧ IsTable cat schema := by
  obtain ⟨schema, hschema, rfl⟩ := Option.map_eq_some_iff.mp hentry
  obtain ⟨payload, hget, hdecode⟩ := Option.bind_eq_some_iff.mp hschema
  obtain ⟨hkey, ht⟩ := h.isTable hget hdecode
  exact ⟨schema, (tableKey_injective hkey).symm, rfl, ht⟩

theorem Sound.of_indexes (h : Sound lib stale f cat lay) {entry : IndexEntry}
    (hentry : (dictionary lib cat).indexes name = some entry) :
    ∃ schema, schema.name = name ∧ indexEntry schema = entry ∧ IsIndex cat schema := by
  obtain ⟨schema, hschema, rfl⟩ := Option.map_eq_some_iff.mp hentry
  obtain ⟨payload, hget, hdecode⟩ := Option.bind_eq_some_iff.mp hschema
  obtain ⟨hkey, hi⟩ := h.isIndex hget hdecode
  exact ⟨schema, (indexKey_injective hkey).symm, rfl, hi⟩

/-- The policies of the dictionary are those that queries look for. -/
theorem Sound.isPolicy_iff (h : Sound lib stale f cat lay) {policy : PolicySchema} :
    IsPolicy lib cat policy ↔ ∃ name, (dictionary lib cat).policies name = some policy := by
  constructor
  · rintro ⟨payload, hget, hdecode⟩
    exact ⟨policy.name, by simp [dictionary, hget, hdecode]⟩
  · rintro ⟨name, hpolicy⟩
    obtain ⟨payload, hget, hdecode⟩ := Option.bind_eq_some_iff.mp hpolicy
    have hkey := (h.filed _ _ hget).1.of_policy hdecode
    exact ⟨payload, hkey ▸ hget, hdecode⟩

/-- The columns of a table are as the catalog stores them. -/
theorem Sound.storedColumns (h : Sound lib stale f cat lay) {schema : TableSchema}
    (ht : IsTable cat schema) : schema.columns.map storedColumn = schema.columns :=
  stored_of_decodes ht.decodes (small_of_fits (h.filed _ _ ht.recorded).2)

section Removed

variable {keys : Set Bytes} {f' : Forest} {cat' : OrdMap Bytes Bytes} {lay' : Layout}

/-- The indexes of a kind are gone, and no other. -/
theorem Removed.indexes (hremoved : Removed lib keys f f' cat cat' lay lay') (h : Sound lib ∅ f cat lay)
    {gone : IndexEntry → Bool}
    (hkeys : ∀ idx, IsIndex cat idx → (indexKey idx.name ∈ keys ↔ gone (indexEntry idx) = true))
    (name : String) : (dictionary lib cat').indexes name =
      ((dictionary lib cat).indexes name).filter fun entry => !gone entry := by
  cases hentry : (dictionary lib cat).indexes name with
  | none =>
      rw [Option.filter_none]
      by_cases hkey : indexKey name ∈ keys
      · exact indexes_none (hremoved.removed _ hkey)
      · rw [← hentry]
        simp [dictionary, (hremoved.kept _ hkey).1]
  | some entry =>
      obtain ⟨idx, rfl, rfl, hi⟩ := h.of_indexes hentry
      by_cases hgone : gone (indexEntry idx) = true
      · rw [indexes_none (hremoved.removed _ ((hkeys idx hi).mpr hgone)), Option.filter_some,
          if_neg (by simp [hgone])]
      · have hkey : indexKey idx.name ∉ keys := fun hmem => hgone ((hkeys idx hi).mp hmem)
        rw [Option.filter_some, if_pos (by simpa using hgone), ← hentry]
        simp [dictionary, (hremoved.kept _ hkey).1]

/-- A table and its indexes are gone. -/
theorem Removed.dictionary_table {name : String} (h : Sound lib ∅ f cat lay)
    (hremoved : Removed lib (keysOf cat name) f f' cat cat' lay lay') :
    dictionary lib cat' = ((dictionary lib cat).withoutIndexes fun entry =>
      entry.table = name).setTable name none := by
  refine Dictionary.ext (funext fun name' => ?_) (funext fun name' => ?_) (funext fun name' => ?_)
  · by_cases heq : name' = name
    · subst heq
      have hgone := hremoved.removed (tableKey name') (.inl rfl)
      simp [dictionary, Dictionary.setTable, hgone]
    · have hkey : tableKey name' ∉ keysOf cat name := by
        rintro (hkey | ⟨idx, -, -, hkey⟩)
        · exact heq (tableKey_injective hkey)
        · exact tableKey_ne_indexKey _ _ hkey
      simp [dictionary, Dictionary.setTable, Dictionary.withoutIndexes, (hremoved.kept _ hkey).1, heq]
  · refine hremoved.indexes h (fun idx hi => ⟨?_, fun htable => ?_⟩) name'
    · rintro (hkey | ⟨idx', hi', htable, hkey⟩)
      · exact absurd hkey.symm (tableKey_ne_indexKey _ _)
      · rw [isIndex_unique hi' hi (indexKey_injective hkey)]
        exact decide_eq_true htable
    · exact .inr ⟨idx, hi, of_decide_eq_true htable, rfl⟩
  · have hkey : policyKey name' ∉ keysOf cat name := by
      rintro (hkey | ⟨idx, -, -, hkey⟩)
      · exact tableKey_ne_policyKey _ _ hkey.symm
      · exact indexKey_ne_policyKey _ _ hkey.symm
    simp [dictionary, Dictionary.setTable, Dictionary.withoutIndexes, (hremoved.kept _ hkey).1]

/-- One index is gone. -/
theorem Removed.dictionary_index {name : String}
    (hremoved : Removed lib {indexKey name} f f' cat cat' lay lay') :
    dictionary lib cat' = (dictionary lib cat).setIndex name none := by
  refine Dictionary.ext (funext fun name' => ?_) (funext fun name' => ?_) (funext fun name' => ?_)
  · have hkept := hremoved.kept (tableKey name') (tableKey_ne_indexKey _ _)
    simp [dictionary, Dictionary.setIndex, hkept.1]
  · by_cases heq : name' = name
    · subst heq
      simp [dictionary, Dictionary.setIndex, hremoved.removed (indexKey name') rfl]
    · have hkept := hremoved.kept (indexKey name') fun hkey => heq (indexKey_injective hkey)
      simp [dictionary, Dictionary.setIndex, hkept.1, heq]
  · have hkept := hremoved.kept (policyKey name') (indexKey_ne_policyKey _ _).symm
    simp [dictionary, Dictionary.setIndex, hkept.1]

/-- Some indexes are gone. -/
theorem Removed.dictionary_indexes (h : Sound lib ∅ f cat lay) {gone : IndexEntry → Bool}
    (hremoved : Removed lib {key | ∃ idx, IsIndex cat idx ∧ gone (indexEntry idx) = true ∧
      key = indexKey idx.name} f f' cat cat' lay lay') :
    dictionary lib cat' = (dictionary lib cat).withoutIndexes gone := by
  refine Dictionary.ext (funext fun name => ?_) (funext fun name => ?_) (funext fun name => ?_)
  · have hkept := hremoved.kept (tableKey name) fun ⟨_, _, _, hkey⟩ => tableKey_ne_indexKey _ _ hkey
    simp [dictionary, Dictionary.withoutIndexes, hkept.1]
  · refine hremoved.indexes h (fun idx hi => ⟨?_, fun hgone => ⟨idx, hi, hgone, rfl⟩⟩) name
    rintro ⟨idx', hi', hgone, hkey⟩
    rwa [isIndex_unique hi' hi (indexKey_injective hkey)]
  · have hkept := hremoved.kept (policyKey name) fun ⟨_, _, _, hkey⟩ =>
      indexKey_ne_policyKey _ _ hkey.symm
    simp [dictionary, Dictionary.withoutIndexes, hkept.1]

end Removed

end Sound

end Stored

end ChocoBase.Catalog
