import ChocoBase.Engine.Statements

/-!
# Tables, indexes and users on a sound database

What the statements that change the dictionary do to it.
-/

namespace ChocoBase.Engine

open ChocoBase.Foundation ChocoBase.Storage ChocoBase.BTree ChocoBase.Sql ChocoBase.Types
  ChocoBase.Auth ChocoBase.Catalog ChocoBase.Plan

section Definitions

variable {lib : Library} {ctx : ExecutionContext} {f : Forest} {cat : OrdMap Bytes Bytes}
  {lay : Layout} {schema : TableSchema} {indexes : List IndexSchema} {m : OrdMap Bytes Bytes}

theorem does_createTree_fresh {ε : Type} {convert : BTreeError → ε} {E : ε → Prop}
    (h : Sound lib ∅ f cat lay) :
    Does f (ask convert .createTree) (fun root f' =>
      Sound lib ∅ f' cat (Function.update lay .fresh (some (root, .empty)))) E := by
  refine (h.createTree .fresh).mono ?_ fun _ h => h.elim
  rintro root f' - ⟨-, hhoused⟩
  exact h.fresh hhoused

/-! ## Users -/

theorem usersColumns_stored : usersColumns.map storedColumn = usersColumns := rfl

theorem does_insertUser (h : Sound lib ∅ f cat lay) (hname : schema.name = usersTable)
    (ht : IsTable cat schema) (hlay : lay (.record (tableKey schema.name)) = some (schema.rootPage, m))
    (row : Row) :
    Does f (insertUser schema row)
      (fun _ f' => ∃ key payload, rowKey schema row = some key ∧ encodeRow schema row = some payload ∧
        m.get key = none ∧ Rewritten lib cat lay schema [] (m.insert key payload) f')
      fun e => ∃ e', e = .exec e' ∧ Refused schema [] m row e' := by
  refine Does.seq (Does.mapError (does_insertRow h.toHoused hlay ⟨List.nodup_nil, fun _ hmem => by
    cases hmem⟩ (table_ne_index schema)) fun e he => ⟨e, rfl, he⟩) ?_
  rintro ⟨root, roots⟩ f₁ - ⟨-, key, payload, lay₁, hkey, hpayload, habsent, -, hwrote⟩
  have hsound : Sound lib {tableKey schema.name} f₁ cat lay₁ :=
    { toHoused := hwrote.housed
      filed := h.filed
      owned := fun key hkey => by
        rw [hwrote.beside (.record key) (fun heq => hkey (Owner.record.inj heq)) (fun _ hmem => by
          cases hmem)]
        exact h.owned key (Set.notMem_empty _) }
  have htree : lay₁ (.record (tableKey schema.name)) = some (root, m.insert key payload) := hwrote.tree
  change Does f₁ (if _ then _ else _) _ _
  split
  · rw [← hname]
    refine (hsound.updateTableRoot ht htree).mono ?_ fun _ h => h.elim
    rintro _ f₂ - ⟨-, hsound₂⟩
    have hget := hsound₂.filed (tableKey schema.name) _ (by rw [OrdMap.get_insert, if_pos rfl])
    have hdecode := ht.withRoot root hget.2
    refine ⟨key, payload, hkey, hpayload, habsent, _, lay₁, root, hsound₂.weaken ?_,
      dictionary_tableRoot ht hdecode, ⟨by rw [OrdMap.get_insert, if_pos rfl], hdecode⟩, htree,
      hwrote.beside⟩
    exact Set.sdiff_subset_iff.mpr (by simp)
  · next heq =>
      have heq : root = schema.rootPage := not_not.mp heq
      have howned : (lay₁ (.record (tableKey schema.name))).map Prod.fst =
          (cat.get (tableKey schema.name)).bind recordRoot := by
        rw [htree, ht.recorded, Option.bind_some, recordRoot_table ht.decodes, heq]
        rfl
      exact does_pure ⟨key, payload, hkey, hpayload, habsent, cat, lay₁, root,
        (sound_settle hsound howned).weaken (Set.sdiff_subset_iff.mpr (by simp)), rfl, heq ▸ ht, htree,
        hwrote.beside⟩

/-- The record of a table that is new. -/
theorem does_createTable (h : Sound lib ∅ f cat lay) (schema : TableSchema)
    (hfresh : lay .fresh = some (schema.rootPage, m)) :
    Does f (createTable schema)
      (fun _ f' => cat.get (tableKey schema.name) = none ∧ ∃ cat' lay', Sound lib ∅ f' cat' lay' ∧
        IsTable cat' (storedSchema schema) ∧
        lay' (.record (tableKey schema.name)) = some (schema.rootPage, m) ∧
        dictionary lib cat' = (dictionary lib cat).setTable schema.name
          (some (tableEntry (storedSchema schema)))) fun _ => True := by
  refine (h.createTable hfresh).mono ?_ fun _ _ => trivial
  rintro _ f' - ⟨habsent, hsize, hchanged⟩
  have hdecode := decode_encodeTable (small_of_fits hsize)
  refine ⟨habsent, _, _, hchanged.sound, ⟨?_, ?_⟩, by rw [adopted_self, hfresh], ?_⟩
  · rw [encodeTable_stored]
    exact (OrdMap.get_insert ..).trans (if_pos rfl)
  · rwa [encodeTable_stored]
  · exact dictionary_insert_table hdecode

theorem does_ensureAuthTable (h : Sound lib ∅ f cat lay) :
    Does f ensureAuthTable
      (fun _ f' => ∃ cat' lay', Sound lib ∅ f' cat' lay' ∧
        dictionary lib cat' = if (dictionary lib cat).tables usersTable = none then
          (dictionary lib cat).setTable usersTable (some ⟨usersColumns, false⟩)
        else dictionary lib cat) fun _ => True := by
  refine Looks.seq ((h.getTable usersTable).mono (fun _ _ _ h => h) fun _ h => h.elim) ?_
  rintro found (⟨habsent, rfl⟩ | ⟨schema, hname, ht, rfl⟩)
  · refine Does.seq (does_createTree_fresh h) fun (root : PageNo) f₁ _ hsound₁ => ?_
    refine Does.seq (does_createTable hsound₁ ⟨usersTable, usersColumns, root, false⟩
      (Function.update_self ..)) ?_
    rintro _ f₂ - ⟨-, cat₂, lay₂, hsound₂, ht₂, hlay₂, hdict₂⟩
    refine Looks.seq ((looks_outside (.inr (.inl rfl))).mono (fun _ _ _ h => h) fun _ h => h.elim)
      fun password _ => ?_
    refine Looks.seq ((looks_outside (.inr (.inr ⟨password, rfl⟩))).mono (fun _ _ _ h => h)
      fun _ h => h.elim) fun hash _ => ?_
    refine (does_insertUser hsound₂ rfl ht₂ hlay₂ _).mono ?_ fun _ _ => trivial
    rintro _ f₃ - ⟨-, -, -, -, -, cat₃, lay₃, -, hsound₃, hdict₃, -⟩
    exact ⟨cat₃, lay₃, hsound₃, by rw [hdict₃, hdict₂, if_pos (tables_none habsent)]; rfl⟩
  · refine does_pure ⟨cat, lay, h, ?_⟩
    have hlisted : (dictionary lib cat).tables usersTable = some (tableEntry schema) :=
      hname ▸ ht.listed
    rw [hlisted, if_neg (by simp)]

theorem does_executeCreateUser (h : Sound lib ∅ f cat lay) (username password : String)
    (role : Option String) :
    Does f (executeCreateUser username password role)
      (fun _ f' => Kept lib cat (.createUser username password role) f') fun _ => True := by
  refine Does.seq (does_ensureAuthTable h) ?_
  rintro _ f₁ - ⟨cat₁, lay₁, hsound₁, hdict₁⟩
  refine Looks.seq ((looks_outside (.inr (.inr ⟨password, rfl⟩))).mono (fun _ _ _ h => h)
    fun _ h => h.elim) fun hash _ => ?_
  refine Looks.seq ((hsound₁.getTable usersTable).mono (fun _ _ _ h => h) fun _ h => h.elim) ?_
  rintro found (⟨-, rfl⟩ | ⟨schema, hname, ht, rfl⟩)
  · trivial
  · obtain ⟨m, hlay, hscan⟩ := scans_table hsound₁ ht
    refine Looks.seq (looks_pure (R := fun found => found = schema) rfl) ?_
    rintro _ rfl
    refine Looks.seq (Peeks.mapError hscan.peeks _).looks fun users _ => ?_
    refine Looks.seq (peeks_ofOutcome _).looks fun maxId _ => ?_
    refine does_ite (fun _ => trivial) fun _ => ?_
    refine Does.seq ((does_insertUser hsound₁ hname ht hlay _).mono (fun _ _ _ h => h)
      fun _ _ => trivial) ?_
    rintro _ f₂ - ⟨-, -, -, -, -, cat₂, lay₂, -, hsound₂, hdict₂, -⟩
    refine does_pure ⟨cat₂, lay₂, hsound₂, ?_⟩
    rw [hdict₂, hdict₁, Dictionary.after]
    split <;> rfl

/-! ## Tables -/

theorem does_executeCreateTable (h : Sound lib ∅ f cat lay) (name : String)
    (columns : List ColumnDef) :
    Does f (executeCreateTable name columns)
      (fun _ f' => Kept lib cat (.createTable name columns) f') fun _ => True := by
  unfold executeCreateTable
  refine does_ite (fun _ => does_throw trivial) fun hcount => ?_
  refine Does.seq (does_createTree_fresh h) fun (root : PageNo) f₁ _ hsound₁ => ?_
  refine Does.seq (does_createTable hsound₁ _ (Function.update_self ..)) ?_
  rintro _ f₂ - ⟨habsent, cat₂, lay₂, hsound₂, -, -, hdict₂⟩
  refine does_pure ⟨cat₂, lay₂, hsound₂, ?_⟩
  rw [Dictionary.after, if_pos ⟨tables_none habsent, not_not.mp hcount⟩, hdict₂, tableEntry,
    storedSchema, List.map_map]
  rfl

theorem does_dropTable (h : Sound lib ∅ f cat lay) (name : String) :
    Does f (dropTable name) (fun _ f' => Kept lib cat (.dropTable name) f') fun _ => True := by
  refine (h.dropTable name).mono ?_ fun _ _ => trivial
  rintro _ f' - ⟨schema, rfl, ht, cat', lay', hremoved⟩
  refine ⟨cat', lay', hremoved.sound, ?_⟩
  rw [Dictionary.after, if_neg (by simp [ht.listed]), hremoved.dictionary_table h]

theorem does_setTableRls (h : Sound lib ∅ f cat lay) (table : String) (enabled : Bool) :
    Does f (setTableRls table enabled)
      (fun _ f' => Kept lib cat (.alterTableRls table enabled) f') fun _ => True := by
  refine (h.setTableRls table enabled).mono ?_ fun _ h => h
  rintro _ f' - ⟨schema, rfl, ht, hchanged⟩
  refine ⟨_, lay, hchanged.sound, ?_⟩
  have hsmall := small_of_fits (hchanged.sound.filed (tableKey schema.name) _
    (by rw [OrdMap.get_insert, if_pos rfl])).2
  rw [dictionary_insert_table (decode_encodeTable hsmall), Dictionary.after, ht.listed, tableEntry,
    storedSchema, h.storedColumns ht]
  rfl

theorem does_renameTable (h : Sound lib ∅ f cat lay) (table newName : String) :
    Does f (renameTable table newName)
      (fun _ f' => Kept lib cat (.alterTableRename table newName) f') fun _ => True := by
  refine (h.renameTable table newName).mono ?_ fun _ h => h
  rintro _ f' - ⟨habsent, schema, rfl, ht, hchanged⟩
  refine ⟨_, _, hchanged.sound, ?_⟩
  have hsmall := small_of_fits (hchanged.sound.filed (tableKey newName) _
    (by rw [OrdMap.get_insert, if_pos rfl])).2
  rw [dictionary_insert_table (decode_encodeTable hsmall), dictionary_erase_table, Dictionary.after,
    ht.listed, tables_none habsent, tableEntry, storedSchema, h.storedColumns ht]
  rfl

/-! ## Changing the columns of a table -/

/-- What a loop writes into a new tree leaves all tables as they are. -/
theorem Reached.sound_fresh {tree : OrdMap Bytes Bytes} {p : Progress} {f' : Forest} {lay₀ lay' : Layout}
    {f₀ : Forest} (h : Sound lib ∅ f₀ cat lay₀)
    (hreached : Reached f₀ cat lay₀ .fresh indexes tree p f' lay') :
    Sound lib {key | ∃ idx ∈ indexes, key = indexKey idx.name} f' cat lay' where
  toHoused := hreached.housed
  filed := h.filed
  owned key hkey := by
    rw [hreached.beside (.record key) (by simp)]
    · exact h.owned key (Set.notMem_empty _)
    · exact fun idx hmem heq => hkey ⟨idx, hmem, Owner.record.inj heq⟩

/-- The rows go into a new tree, which takes the place of the table's. -/
theorem does_rewriteTable (h : Sound lib ∅ f cat lay) (hlists : Lists cat schema.name indexes) (columns : List Column) (rows : List Row) :
    Does f (rewriteTable schema columns indexes rows)
      (fun _ f' => ∃ cat' lay', Sound lib ∅ f' cat' lay' ∧
        dictionary lib cat' = (dictionary lib cat).setTable schema.name
          (some ⟨columns.map storedColumn, schema.rlsEnabled⟩)) fun _ => True := by
  refine Does.seq (does_createTree_fresh h) fun (newRoot : PageNo) f₁ _ hsound₁ => ?_
  let rewritten : TableSchema := { schema with columns := columns, rootPage := newRoot }
  have hne : ∀ idx ∈ indexes, Owner.fresh ≠ indexOwner idx := fun _ _ => by simp [indexOwner]
  have hrooted : Rooted (Function.update lay .fresh (some (newRoot, OrdMap.empty))) indexes :=
    rooted_of_lists hsound₁ hlists
  have hstart : Reached f₁ cat (Function.update lay .fresh (some (newRoot, OrdMap.empty))) .fresh indexes
      .empty (.start rewritten indexes) f₁ _ :=
    reached_start hsound₁.toHoused (Function.update_self ..) hrooted
  refine Does.seq (does_forEach (Q := fun p f' => ∃ tree lay',
    Reached f₁ cat _ .fresh indexes tree p f' lay') (fun _ p f' => ∃ tree lay',
    Reached f₁ cat _ .fresh indexes tree p f' lay') ?_ (fun _ _ h => h)
    ⟨.empty, _, hstart⟩) ?_
  · rintro _ row _ p f' - - ⟨tree, lay', hreached⟩
    have hlaid : lay' .fresh = some ((p.schema rewritten).rootPage, tree) := hreached.tree
    refine Does.seq (Does.mapError (does_insertRow hreached.housed hlaid hreached.rooted
      (owners_withRoots.mpr hne)) fun _ _ => trivial) ?_
    rintro roots f'' - ⟨-, key, payload, lay'', -, -, -, -, hwrote⟩
    exact does_pure ⟨_, lay'', hreached.next row hwrote⟩
  · rintro p f₂ - ⟨tree, lay₂, hreached⟩
    have hsound₂ := hreached.sound_fresh hsound₁
    have hfresh : lay₂ .fresh = some (({ rewritten with rootPage := p.tableRoot } : TableSchema).rootPage,
      tree) := hreached.tree
    refine Does.seq (hsound₂.updateTableSchema hfresh) ?_
    rintro _ f₃ - ⟨-, hsound₃⟩
    have hindexes : ∀ idx ∈ indexes, IsIndex (cat.insert (tableKey schema.name)
        (encodeTableRecord { rewritten with rootPage := p.tableRoot })) idx := fun idx hmem =>
      (isIndex_insert_of_ne (tableKey_ne_indexKey _ _).symm).mpr ((hlists.mem idx).mp hmem).1
    have hrooted₃ : Rooted (adopted lay₂ (tableKey schema.name)) (withRoots p.indexRoots indexes) := by
      refine ⟨hreached.rooted.nodup, fun idx hmem => ?_⟩
      obtain ⟨tree', htree'⟩ := hreached.rooted.planted idx hmem
      exact ⟨tree', by rw [indexOwner, adopted_of_ne (tableKey_ne_indexKey _ _).symm]; exact htree'⟩
    refine Does.seq ((does_updateIndexRoots hsound₃ hindexes hrooted₃).mono (fun _ _ _ h => h)
      fun _ h => h.elim) ?_
    rintro _ f₄ - ⟨-, cat₄, hdict₄, -, hsound₄⟩
    refine does_pure ⟨cat₄, _, hsound₄.weaken ?_, ?_⟩
    · rintro key ⟨⟨hmem, -⟩, hnot⟩
      exact (hnot hmem).elim
    · have hsmall := small_of_fits (hsound₃.filed (tableKey schema.name) _
        (by rw [OrdMap.get_insert, if_pos rfl])).2
      rw [hdict₄, dictionary_insert_table (decode_encodeTable hsmall)]
      rfl

/-- Reading all rows, whatever has become of the indexes. -/
theorem peeks_readAll_none (h : Housed f cat lay) {o : Owner} (ho : lay o = some (schema.rootPage, m))
    (indexes : List IndexSchema) : Peeks f (readAll lib schema indexes none ctx) := by
  refine Views.seq (views_ofOutcome fun _ _ => trivial) fun plan hplan => ?_
  have hpath : plan.path = .seqScan := by
    obtain ⟨pkIdx, -, hplan⟩ := Outcome.bind_eq_ok.mp (Outcome.mapError_eq_ok.mp hplan)
    obtain ⟨pkCol, -, hplan⟩ := Outcome.bind_eq_ok.mp hplan
    cases hplan
    rfl
  refine Peeks.seq (Peeks.mapError (Peeks.seq ?_ fun rows => peeks_pure _) _) fun _ =>
    peeks_collectRows _
  rw [hpath]
  exact (views_seqScan h ho).peeks

theorem does_executeAlterTableAddColumn (h : Sound lib ∅ f cat lay) (table : String)
    (column : ColumnDef) :
    Does f (executeAlterTableAddColumn lib table column)
      (fun _ f' => Kept lib cat (.alterTableAddColumn table column) f') fun _ => True := by
  refine Looks.seq ((h.requireTable table).mono (fun _ _ _ h => h) fun _ _ => trivial) ?_
  rintro schema ⟨rfl, ht⟩
  obtain ⟨m, hlay⟩ := h.tree ht (Set.notMem_empty _)
  refine does_ite (fun _ => does_throw trivial) fun hnew => ?_
  refine Looks.seq (h.listIndexes schema.name) fun indexes hlists => ?_
  refine Looks.seq (peeks_readAll_none h.toHoused hlay indexes).looks fun rows _ => ?_
  refine (does_rewriteTable h hlists _ _).mono ?_ fun _ h => h
  rintro _ f' - ⟨cat', lay', hsound, hdict⟩
  refine ⟨cat', lay', hsound, ?_⟩
  rw [hdict, Dictionary.after, ht.listed]
  change (if _ then _ else _) = _
  rw [tableEntry, if_neg hnew, List.map_append, h.storedColumns ht]
  rfl

theorem dropIndexesOn_eq (column : String) (indexes : List IndexSchema) :
    dropIndexesOn column indexes = dropIndexes (indexes.filter fun idx => idx.column = column) := by
  induction indexes with
  | nil => rfl
  | cons idx rest ih =>
      by_cases heq : idx.column = column
      · rw [List.filter_cons_of_pos (by simpa using heq), dropIndexes, ← ih, dropIndexesOn, if_pos heq]
      · rw [List.filter_cons_of_neg (by simpa using heq), ← ih, dropIndexesOn, if_neg heq]

theorem does_dropIndexesOn (h : Sound lib ∅ f cat lay) {table : String}
    (hlists : Lists cat table indexes) (column : String) :
    Does f (dropIndexesOn column indexes)
      (fun _ f' => ∃ cat' lay', Removed lib {key | ∃ idx, IsIndex cat idx ∧
        (decide ((indexEntry idx).table = table) && decide ((indexEntry idx).column = column)) = true ∧
          key = indexKey idx.name} f f' cat cat' lay lay') fun _ => True := by
  rw [dropIndexesOn_eq]
  have hindexes : ∀ idx ∈ indexes.filter fun idx => idx.column = column, IsIndex cat idx :=
    fun idx hmem => ((hlists.mem idx).mp (List.mem_filter.mp hmem).1).1
  refine (h.dropIndexes hindexes (hlists.nodup.sublist (List.filter_sublist.map _))).mono ?_
    fun _ h => h.elim
  rintro _ f' - ⟨cat', lay', hremoved⟩
  refine ⟨cat', lay', (Set.ext fun key => exists_congr fun idx => ?_) ▸ hremoved⟩
  rw [List.mem_filter, hlists.mem, Bool.and_eq_true, decide_eq_true_eq, decide_eq_true_eq,
    decide_eq_true_eq, indexEntry, and_assoc, and_assoc, and_assoc]

theorem does_executeAlterTableDropColumn (h : Sound lib ∅ f cat lay) (table column : String) :
    Does f (executeAlterTableDropColumn lib table column)
      (fun _ f' => Kept lib cat (.alterTableDropColumn table column) f') fun _ => True := by
  refine Looks.seq ((h.requireTable table).mono (fun _ _ _ h => h) fun _ _ => trivial) ?_
  rintro schema ⟨rfl, ht⟩
  cases hcolumn : schema.columnIndex column with
  | none => exact does_throw trivial
  | some colIdx =>
      refine Looks.seq (looks_unwrap _) fun col hcol => ?_
      refine does_ite (fun _ => does_throw trivial) fun hkey => ?_
      refine Looks.seq (h.listIndexes schema.name) fun indexes hlists => ?_
      refine Does.seq (does_dropIndexesOn h hlists column) ?_
      rintro _ f₁ - ⟨cat₁, lay₁, hremoved⟩
      have hkept := hremoved.kept (tableKey schema.name) fun ⟨_, _, _, hkey⟩ =>
        tableKey_ne_indexKey _ _ hkey
      obtain ⟨m, hlay⟩ := h.tree ht (Set.notMem_empty _)
      have hlay₁ : lay₁ (.record (tableKey schema.name)) = some (schema.rootPage, m) :=
        hkept.2.trans hlay
      refine Looks.seq (hremoved.sound.listIndexes schema.name) fun remaining hlists₁ => ?_
      refine Looks.seq (peeks_readAll_none hremoved.sound.toHoused hlay₁ indexes).looks fun rows _ => ?_
      refine (does_rewriteTable hremoved.sound hlists₁ _ _).mono ?_ fun _ h => h
      rintro _ f' - ⟨cat', lay', hsound, hdict⟩
      refine ⟨cat', lay', hsound, ?_⟩
      have hdict₁ : dictionary lib cat₁ = (dictionary lib cat).withoutIndexes fun idx =>
          idx.table = schema.name && idx.column = column := hremoved.dictionary_indexes h
      have hfind : (tableEntry schema).columns.findIdx? (fun c => c.name = column) = some colIdx := hcolumn
      have hcol' : (tableEntry schema).columns[colIdx]? = some col := hcol
      simp only [Dictionary.after, ht.listed, Option.bind_eq_bind, Option.bind_some, hfind, hcol']
      rw [if_neg hkey, hdict, hdict₁, ← List.eraseIdx_map, h.storedColumns ht]
      rfl

/-! ## Indexes and policies -/

theorem does_executeCreateIndex (h : Sound lib ∅ f cat lay) (name table column : String) :
    Does f (executeCreateIndex name table column)
      (fun _ f' => Kept lib cat (.createIndex name table column) f') fun _ => True := by
  refine Looks.seq ((h.requireTable table).mono (fun _ _ _ h => h) fun _ _ => trivial) ?_
  rintro schema ⟨rfl, ht⟩
  cases hcolumn : schema.columnIndex column with
  | none => exact does_throw trivial
  | some colIdx =>
      refine Looks.seq (looks_unwrap _) fun col hcol => ?_
      refine does_ite (fun _ => does_throw trivial) fun hnull => ?_
      refine Does.seq (does_createTree_fresh h) fun (initialRoot : PageNo) f₁ _ hsound₁ => ?_
      obtain ⟨m, -, hscan⟩ := scans_table hsound₁ ht
      refine Looks.seq (Peeks.mapError hscan.peeks _).looks fun scanned _ => ?_
      refine Does.seq (does_forEach (Q := fun (root : PageNo) f' => ∃ tree,
        Sound lib ∅ f' cat (Function.update lay .fresh (some (root, tree)))) (fun _ root f' => ∃ tree,
        Sound lib ∅ f' cat (Function.update lay .fresh (some (root, tree)))) ?_ (fun _ _ h => h)
        ⟨.empty, hsound₁⟩) ?_
      · rintro _ row _ root f' - - ⟨tree, hsound⟩
        refine Looks.seq (looks_unwrap _) fun key _ => ?_
        refine (hsound.insert (Function.update_self ..) key []).mono ?_ fun _ _ => trivial
        rintro root' f'' - ⟨-, -, -, hhoused⟩
        have hfresh := hsound.fresh hhoused
        rw [Function.update_idem] at hfresh
        exact ⟨tree.insert key [], hfresh⟩
      · rintro (root : PageNo) f₂ - ⟨tree, hsound₂⟩
        refine Looks.seq (peeks_ofOutcome _).looks fun _ _ => ?_
        refine Does.seq (hsound₂.createIndex ⟨name, schema.name, column, root⟩
          (Function.update_self ..)) ?_
        rintro _ f₃ - ⟨habsent, hchanged⟩
        refine does_pure ⟨_, _, hchanged.sound, ?_⟩
        have hsmall := small_of_fits (hchanged.sound.filed (indexKey name) _
          (by rw [OrdMap.get_insert, if_pos rfl])).2
        rw [dictionary_insert_index (decode_encodeIndex hsmall), Dictionary.after,
          if_pos ⟨by simp [ht.listed], indexes_none habsent⟩]
        rfl

theorem does_dropIndex (h : Sound lib ∅ f cat lay) (name : String) :
    Does f (dropIndex name) (fun _ f' => Kept lib cat (.dropIndex name) f') fun _ => True := by
  refine (h.dropIndex name).mono ?_ fun _ _ => trivial
  rintro _ f' - ⟨⟨idx, rfl, hi⟩, cat', lay', hremoved⟩
  refine ⟨cat', lay', hremoved.sound, ?_⟩
  rw [hremoved.dictionary_index, Dictionary.after, if_neg (by simp [hi.listed])]

theorem does_createPolicy (h : Sound lib ∅ f cat lay) (policy : PolicySchema) :
    Does f (createPolicy lib policy)
      (fun _ f' => Kept lib cat (.createPolicy policy.name policy.table policy.cmd policy.usingExpr
        policy.withCheck) f') fun _ => True := by
  refine (h.createPolicy policy).mono ?_ fun _ h => h
  rintro _ f' - ⟨habsent, payload, hdecode, hchanged⟩
  refine ⟨_, lay, hchanged.sound, ?_⟩
  rw [dictionary_insert_policy hdecode, Dictionary.after, if_pos (policies_none habsent)]

theorem does_dropPolicy (h : Sound lib ∅ f cat lay) (name table : String) :
    Does f (dropPolicy name) (fun _ f' => Kept lib cat (.dropPolicy name table) f')
      fun _ => True := by
  refine (h.dropPolicy name).mono ?_ fun _ h => h.elim
  rintro _ f' - hchanged
  exact ⟨_, lay, hchanged.sound, by rw [dictionary_erase_policy]; rfl⟩

end Definitions

end ChocoBase.Engine
