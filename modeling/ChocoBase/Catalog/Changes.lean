import ChocoBase.Catalog.Sound

/-!
# Statements on the catalog

What creating, renaming and dropping tables, indexes and policies does to a sound
catalog.  Nothing here looks at the policies of a table that is dropped or renamed.
-/

namespace ChocoBase.Catalog

open ChocoBase.Foundation ChocoBase.Storage ChocoBase.BTree ChocoBase.Sql ChocoBase.Types
  ChocoBase.Engine

section Changes

variable {lib : Library} {f : Forest} {cat : OrdMap Bytes Bytes} {lay : Layout}

/-- The catalog is sound, with these changes to the records and trees of the keys. -/
structure Changed (lib : Library) (f f' : Forest) (cat' : OrdMap Bytes Bytes) (lay' : Layout) :
    Prop where
  sound : Sound lib ∅ f' cat' lay'
  events : f'.transactionEvents = f.transactionEvents

theorem Sound.toEmpty {key : Bytes} (h : Sound lib (∅ \ {key}) f cat lay) : Sound lib ∅ f cat lay :=
  h.weaken Set.sdiff_subset

/-- The layout after the new tree got the record of this key. -/
def adopted (lay : Layout) (key : Bytes) : Layout :=
  Function.update (Function.update lay (.record key) (lay .fresh)) .fresh none

@[simp] theorem adopted_self (lay : Layout) (key : Bytes) :
    adopted lay key (.record key) = lay .fresh := by
  rw [adopted, Function.update_of_ne (by simp), Function.update_self]

theorem adopted_of_ne {key key' : Bytes} (h : key' ≠ key) :
    adopted lay key (.record key') = lay (.record key') := by
  rw [adopted, Function.update_of_ne (by simp), Function.update_of_ne (by simpa using h)]

/-! ## Tables -/

/-- The record of the tree that is new. -/
theorem Sound.createTable (h : Sound lib ∅ f cat lay) {schema : TableSchema}
    {m : OrdMap Bytes Bytes} (hfresh : lay .fresh = some (schema.rootPage, m)) :
    Does f (createTable schema)
      (fun _ f' => cat.get (tableKey schema.name) = none ∧
        singleEntrySize (tableKey schema.name) (encodeTableRecord schema) ≤ pageSize ∧
        Changed lib f f' (cat.insert (tableKey schema.name) (encodeTableRecord schema))
          (adopted lay (tableKey schema.name)))
      fun e => e = .plan (.tableAlreadyExists schema.name) ∧ cat.get (tableKey schema.name) ≠ none ∨
        pageSize < singleEntrySize (tableKey schema.name) (encodeTableRecord schema) := by
  refine (does_createRecord h.toHoused _ _ _).mono ?_ fun e he => ?_
  · rintro _ f' - ⟨hevents, habsent, hsize, hhoused⟩
    refine ⟨habsent, hsize, (h.record (hhoused.move .fresh _) (filed_table schema hsize) hsize ?_
      fun key' hne => ?_).toEmpty, hevents⟩
    · have hroot := recordRoot_table (decode_encodeTable (small_of_fits hsize))
      change (adopted lay _ _).map _ = _
      rw [adopted_self, hfresh, hroot]
      rfl
    · exact adopted_of_ne hne
  · exact he.symm.imp_right And.right

theorem Sound.renameTable (h : Sound lib ∅ f cat lay) (oldName newName : String) :
    Does f (renameTable oldName newName)
      (fun _ f' => cat.get (tableKey newName) = none ∧ ∃ schema, schema.name = oldName ∧
        IsTable cat schema ∧ Changed lib f f' ((cat.erase (tableKey oldName)).insert
            (tableKey newName) (encodeTableRecord { schema with name := newName }))
          (Function.update (Function.update lay (.record (tableKey newName))
            (lay (.record (tableKey oldName)))) (.record (tableKey oldName)) none))
      fun _ => True := by
  refine Looks.seq ((h.getTable newName).mono (fun _ _ _ h => h) fun _ h => h.elim) ?_
  rintro found (⟨habsent, rfl⟩ | ⟨schema, -, -, rfl⟩)
  · refine Looks.seq ((h.requireTable oldName).mono (fun _ _ _ h => h) fun _ _ => trivial) ?_
    rintro schema ⟨rfl, ht⟩
    have hne : tableKey newName ≠ tableKey schema.name := fun heq => by
      rw [heq, ht.recorded] at habsent
      cases habsent
    obtain ⟨m, hlay⟩ := h.tree ht (Set.notMem_empty _)
    refine (does_replaceRecord h.toHoused _ _ _).mono ?_ fun _ _ => trivial
    rintro _ f' - ⟨hevents, -, hsize, hhoused⟩
    refine ⟨habsent, schema, rfl, ht, h.change (hhoused.move _ _) fun key => ?_, hevents⟩
    by_cases hold : key = tableKey schema.name
    · subst hold
      refine .inl (settled_none ?_ (Function.update_self ..))
      rw [OrdMap.get_insert, if_neg hne.symm, OrdMap.get_erase, if_pos rfl]
    · by_cases hnew : key = tableKey newName
      · subst hnew
        refine .inl (settled_some (by rw [OrdMap.get_insert, if_pos rfl])
          (filed_table { schema with name := newName } hsize) hsize ?_)
        rw [Function.update_of_ne (by simpa using hne), Function.update_self, hlay,
          recordRoot_table (decode_encodeTable (small_of_fits hsize))]
        rfl
      · refine .inr ⟨id, ?_, ?_⟩
        · rw [OrdMap.get_insert, if_neg hnew, OrdMap.get_erase, if_neg hold]
        · rw [Function.update_of_ne (by simpa using hold), Function.update_of_ne (by simpa using hnew)]
  · exact does_throw trivial

theorem Sound.setTableRls (h : Sound lib ∅ f cat lay) (table : String) (enabled : Bool) :
    Does f (setTableRls table enabled)
      (fun _ f' => ∃ schema, schema.name = table ∧ IsTable cat schema ∧
        Changed lib f f' (cat.insert (tableKey table)
          (encodeTableRecord { schema with rlsEnabled := enabled })) lay) fun _ => True := by
  refine Looks.seq ((h.requireTable table).mono (fun _ _ _ h => h) fun _ _ => trivial) ?_
  rintro schema ⟨rfl, ht⟩
  obtain ⟨m, hlay⟩ := h.tree ht (Set.notMem_empty _)
  refine (does_replaceRecord h.toHoused _ _ _).mono ?_ fun _ _ => trivial
  rintro _ f' - ⟨hevents, -, hsize, hhoused⟩
  rw [OrdMap.insert_erase] at hhoused
  refine ⟨schema, rfl, ht, (h.record hhoused
    (filed_table { schema with rlsEnabled := enabled } hsize) hsize ?_ fun _ _ => rfl).toEmpty, hevents⟩
  rw [hlay, recordRoot_table (decode_encodeTable (small_of_fits hsize))]
  rfl

/-- The new tree takes the place of the table's, which stays behind. -/
theorem Sound.updateTableSchema {stale : Set Bytes} (h : Sound lib stale f cat lay)
    {schema : TableSchema} {m : OrdMap Bytes Bytes}
    (hfresh : lay .fresh = some (schema.rootPage, m)) :
    Does f (updateTableSchema schema)
      (fun _ f' => f'.transactionEvents = f.transactionEvents ∧
        Sound lib (stale \ {tableKey schema.name}) f'
          (cat.insert (tableKey schema.name) (encodeTableRecord schema))
          (adopted lay (tableKey schema.name))) fun _ => True := by
  refine Looks.seq (looks_root.mono (fun _ _ _ h => h) fun _ h => h.elim) ?_
  rintro _ rfl
  refine Does.seq (does_attempt (does_delete h.laid housed_catalog (tableKey schema.name))) ?_
  rintro _ f₁ - ⟨⟨present, root⟩, rfl, hgrown, -, hlaid⟩
  refine Does.seq ((does_insert hlaid (Function.update_self ..) _ _).mono (fun _ _ _ h => h)
    fun _ _ => trivial) ?_
  rintro (root' : PageNo) f₂ - ⟨hgrown', -, hsize, hlaid'⟩
  rw [Function.update_idem, update_withCatalog, OrdMap.insert_erase] at hlaid'
  refine (does_moveRoot hlaid').mono ?_ fun _ _ => trivial
  rintro _ f₃ - ⟨hevents, hhoused⟩
  refine ⟨hevents.trans (hgrown'.events.trans hgrown.events), h.record (hhoused.move .fresh _)
    (filed_table schema hsize) hsize ?_ fun key' hne => adopted_of_ne hne⟩
  rw [adopted_self, hfresh, recordRoot_table (decode_encodeTable (small_of_fits hsize))]
  rfl

/-! ## Indexes -/

theorem Sound.createIndex (h : Sound lib ∅ f cat lay) (schema : IndexSchema)
    {m : OrdMap Bytes Bytes} (hfresh : lay .fresh = some (schema.rootPage, m)) :
    Does f (createIndex schema)
      (fun _ f' => cat.get (indexKey schema.name) = none ∧
        Changed lib f f' (cat.insert (indexKey schema.name) (encodeIndexRecord schema))
          (adopted lay (indexKey schema.name))) fun _ => True := by
  refine (does_createRecord h.toHoused _ _ _).mono ?_ fun _ _ => trivial
  rintro _ f' - ⟨hevents, habsent, hsize, hhoused⟩
  refine ⟨habsent, (h.record (hhoused.move .fresh _) (filed_index schema hsize) hsize ?_
    fun key' hne => adopted_of_ne hne).toEmpty, hevents⟩
  change (adopted lay _ _).map _ = _
  rw [adopted_self, hfresh, recordRoot_index (decode_encodeIndex (small_of_fits hsize))]
  rfl

/-- The records of these keys and their trees are gone. -/
structure Removed (lib : Library) (keys : Set Bytes) (f f' : Forest) (cat cat' : OrdMap Bytes Bytes)
    (lay lay' : Layout) : Prop extends Changed lib f f' cat' lay' where
  removed : ∀ key ∈ keys, cat'.get key = none
  kept : ∀ key, key ∉ keys → cat'.get key = cat.get key ∧ lay' (.record key) = lay (.record key)
  fresh : lay' .fresh = lay .fresh

theorem Removed.trans {keys keys' : Set Bytes} {f' f'' : Forest} {cat' cat'' : OrdMap Bytes Bytes}
    {lay' lay'' : Layout} (h : Removed lib keys f f' cat cat' lay lay')
    (h' : Removed lib keys' f' f'' cat' cat'' lay' lay'') :
    Removed lib (keys ∪ keys') f f'' cat cat'' lay lay'' where
  sound := h'.sound
  events := h'.events.trans h.events
  removed key hkey := by
    by_cases hmem : key ∈ keys'
    · exact h'.removed key hmem
    · rw [(h'.kept key hmem).1]
      exact h.removed key (hkey.resolve_right hmem)
  kept key hkey := by
    obtain ⟨hold, hnew⟩ := not_or.mp hkey
    rw [(h'.kept key hnew).1, (h'.kept key hnew).2]
    exact h.kept key hold
  fresh := h'.fresh.trans h.fresh

/-- Freeing a tree and taking out its record. -/
theorem Sound.remove (h : Sound lib ∅ f cat lay) {key : Bytes} {root : PageNo}
    {m : OrdMap Bytes Bytes} (hlay : lay (.record key) = some (root, m)) :
    Does f (do ask fromPager (.walkAndFree root); deleteRecord key)
      (fun _ f' => ∃ cat' lay', Removed lib {key} f f' cat cat' lay lay') fun _ => False := by
  refine Does.seq (h.walkAndFree hlay) ?_
  rintro _ f₁ - ⟨hevents₁, hhoused₁⟩
  refine (does_deleteRecord hhoused₁ key).mono ?_ fun _ h => h
  rintro _ f₂ - ⟨hevents₂, hhoused₂⟩
  have hothers : ∀ key', key' ≠ key →
      Function.update lay (.record key) none (.record key') = lay (.record key') :=
    fun key' hne => Function.update_of_ne (by simpa using hne) ..
  refine ⟨_, _, ⟨(h.erased hhoused₂ (Function.update_self ..) hothers).toEmpty,
    hevents₂.trans hevents₁⟩, ?_, ?_, Function.update_of_ne (by simp) ..⟩
  · rintro _ rfl
    rw [OrdMap.get_erase, if_pos rfl]
  · intro key' hne
    have hne : key' ≠ key := hne
    exact ⟨by rw [OrdMap.get_erase, if_neg hne], hothers key' hne⟩

theorem Sound.dropIndex (h : Sound lib ∅ f cat lay) (name : String) :
    Does f (dropIndex name)
      (fun _ f' => (∃ idx, idx.name = name ∧ IsIndex cat idx) ∧
        ∃ cat' lay', Removed lib {indexKey name} f f' cat cat' lay lay')
      fun e => e = .plan (.noSuchIndex name) ∧ cat.get (indexKey name) = none := by
  refine Looks.seq (h.requireIndex name) ?_
  rintro schema ⟨rfl, hi⟩
  obtain ⟨m, hlay⟩ := h.indexTree hi (Set.notMem_empty _)
  exact (h.remove hlay).mono (fun _ _ _ hremoved => ⟨⟨schema, rfl, hi⟩, hremoved⟩) fun _ h => h.elim

theorem Sound.dropIndexes (h : Sound lib ∅ f cat lay) {indexes : List IndexSchema}
    (hindexes : ∀ idx ∈ indexes, IsIndex cat idx) (hnodup : (indexes.map IndexSchema.name).Nodup) :
    Does f (dropIndexes indexes)
      (fun _ f' => ∃ cat' lay', Removed lib {key | ∃ idx ∈ indexes, key = indexKey idx.name}
        f f' cat cat' lay lay') fun _ => False := by
  induction indexes generalizing f cat lay with
  | nil =>
      refine does_pure ⟨cat, lay, ⟨h, rfl⟩, ?_, fun _ _ => ⟨rfl, rfl⟩, rfl⟩
      rintro key ⟨idx, hmem, -⟩
      cases hmem
  | cons idx rest ih =>
      obtain ⟨hhead, hrest⟩ := List.nodup_cons.mp hnodup
      have hi := hindexes idx List.mem_cons_self
      refine Does.seq ((h.dropIndex idx.name).mono (fun _ _ _ h => h) fun _ habsent => ?_) ?_
      · rw [hi.recorded] at habsent
        cases habsent.2
      rintro _ f₁ - ⟨-, cat₁, lay₁, hremoved⟩
      have hkept : ∀ idx' ∈ rest, IsIndex cat₁ idx' := fun idx' hmem => by
        have hi := hindexes idx' (List.mem_cons_of_mem _ hmem)
        have hne : indexKey idx'.name ∉ ({indexKey idx.name} : Set Bytes) := fun heq =>
          hhead (List.mem_map.mpr ⟨idx', hmem, indexKey_injective heq⟩)
        exact ⟨(hremoved.kept _ hne).1.trans hi.recorded, hi.decodes⟩
      refine (ih hremoved.sound hkept hrest).mono ?_ fun _ h => h
      rintro _ f₂ - ⟨cat₂, lay₂, hremoved₂⟩
      have hkeys : ({indexKey idx.name} : Set Bytes) ∪ {key | ∃ idx ∈ rest, key = indexKey idx.name} =
          {key | ∃ idx' ∈ idx :: rest, key = indexKey idx'.name} := by
        ext key
        simp
      exact ⟨cat₂, lay₂, hkeys ▸ hremoved.trans hremoved₂⟩

/-- The keys of a table and of its indexes. -/
def keysOf (cat : OrdMap Bytes Bytes) (table : String) : Set Bytes :=
  {key | key = tableKey table ∨ ∃ idx, IsIndex cat idx ∧ idx.table = table ∧ key = indexKey idx.name}

theorem Sound.dropTable (h : Sound lib ∅ f cat lay) (name : String) :
    Does f (dropTable name)
      (fun _ f' => ∃ schema, schema.name = name ∧ IsTable cat schema ∧
        ∃ cat' lay', Removed lib (keysOf cat name) f f' cat cat' lay lay')
      fun _ => cat.get (tableKey name) = none := by
  refine Looks.seq ((h.requireTable name).mono (fun _ _ _ h => h) fun _ habsent => habsent.2) ?_
  rintro schema ⟨rfl, ht⟩
  refine Looks.seq (h.listIndexes schema.name) fun indexes hlists => ?_
  refine Does.seq ((h.dropIndexes (fun idx hmem => ((hlists.mem idx).mp hmem).1)
    hlists.nodup).mono (fun _ _ _ h => h) fun _ h => h.elim) ?_
  rintro _ f₁ - ⟨cat₁, lay₁, hremoved⟩
  obtain ⟨m, hlay⟩ := h.tree ht (Set.notMem_empty _)
  have hkey : tableKey schema.name ∉ {key | ∃ idx ∈ indexes, key = indexKey idx.name} := by
    rintro ⟨idx, -, heq⟩
    exact tableKey_ne_indexKey _ _ heq
  rw [← (hremoved.kept _ hkey).2] at hlay
  refine (hremoved.sound.remove hlay).mono ?_ fun _ h => h.elim
  rintro _ f₂ - ⟨cat₂, lay₂, hremoved₂⟩
  have hkeys : {key | ∃ idx ∈ indexes, key = indexKey idx.name} ∪ {tableKey schema.name} =
      keysOf cat schema.name := by
    ext key
    simp only [Set.mem_union, Set.mem_ofPred_eq, Set.mem_singleton_iff, keysOf, hlists.mem, and_assoc]
    exact or_comm
  exact ⟨schema, rfl, ht, cat₂, lay₂, hkeys ▸ hremoved.trans hremoved₂⟩

/-! ## Policies -/

theorem Sound.createPolicy (h : Sound lib ∅ f cat lay) (policy : PolicySchema) :
    Does f (createPolicy lib policy)
      (fun _ f' => cat.get (policyKey policy.name) = none ∧ ∃ payload,
        decodePolicyRecord lib payload = some (storedPolicy lib policy) ∧
          Changed lib f f' (cat.insert (policyKey policy.name) payload) lay) fun _ => True := by
  refine (does_createRecord h.toHoused _ _ _).mono ?_ fun _ _ => trivial
  rintro _ f' - ⟨hevents, habsent, hsize, hhoused⟩
  have hdecode : decodePolicyRecord lib (encodePolicyRecord lib policy) =
      some (storedPolicy lib policy) := decode_encodePolicy (small_of_fits hsize)
  refine ⟨habsent, _, hdecode, (h.record hhoused (filed_policy policy hsize) hsize ?_
    fun _ _ => rfl).toEmpty, hevents⟩
  rw [recordRoot_policy hdecode, h.owned _ (Set.notMem_empty _), habsent]
  rfl

theorem Sound.noTree (h : Sound lib ∅ f cat lay) (name : String) :
    lay (.record (policyKey name)) = none := by
  have howned := h.owned (policyKey name) (Set.notMem_empty _)
  cases hget : cat.get (policyKey name) with
  | none =>
      rw [hget] at howned
      exact Option.map_eq_none_iff.mp howned
  | some payload =>
      generalize hkey : policyKey name = key at hget
      rw [hkey, hget, Option.bind_some] at howned
      cases (h.filed _ _ hget).1 with
      | table schema _ => exact absurd hkey.symm (tableKey_ne_policyKey _ _)
      | index schema _ => exact absurd hkey.symm (indexKey_ne_policyKey _ _)
      | policy policy hdecode =>
          rw [recordRoot_policy hdecode] at howned
          exact Option.map_eq_none_iff.mp howned

theorem Sound.dropPolicy (h : Sound lib ∅ f cat lay) (name : String) :
    Does f (dropPolicy name)
      (fun _ f' => Changed lib f f' (cat.erase (policyKey name)) lay) fun _ => False := by
  refine (does_deleteRecord h.toHoused (policyKey name)).mono ?_ fun _ h => h
  rintro _ f' - ⟨hevents, hhoused⟩
  exact ⟨(h.erased hhoused (h.noTree name) fun _ _ => rfl).toEmpty, hevents⟩

/-- The catalog has a policy that reads as this one. -/
def IsPolicy (lib : Library) (cat : OrdMap Bytes Bytes) (policy : PolicySchema) : Prop :=
  ∃ payload, cat.get (policyKey policy.name) = some payload ∧
    decodePolicyRecord lib payload = some policy

theorem Sound.listPolicies {E : DbError → Prop} (h : Sound lib ∅ f cat lay) (table : String) :
    Looks f (listPoliciesForTable lib table)
      (fun policies => ∀ policy, policy ∈ policies ↔ IsPolicy lib cat policy ∧ policy.table = table)
      E := by
  refine Looks.seq (looks_listRecords h.toHoused kindPolicy (decodePolicyRecord lib)) ?_
  rintro all rfl
  refine looks_pure fun policy => ?_
  rw [List.mem_filter, List.mem_filterMap, decide_eq_true_eq]
  refine and_congr_left fun _ => ⟨?_, ?_⟩
  · rintro ⟨⟨key, payload⟩, he, hpolicy⟩
    obtain ⟨-, hpolicy⟩ := Option.ite_none_right_eq_some.mp hpolicy
    have hget := OrdMap.get_eq_some.mpr he
    exact ⟨payload, (h.filed _ _ hget).1.of_policy hpolicy ▸ hget, hpolicy⟩
  · rintro ⟨payload, hget, hdecode⟩
    refine ⟨_, OrdMap.get_eq_some.mp hget, ?_⟩
    rw [if_pos (kind_of_policy hdecode), hdecode]

theorem Sound.views_listPolicies {E : DbError → Prop} (h : Sound lib ∅ f cat lay) (table : String) :
    Views f (listPoliciesForTable lib table)
      (fun policies => ∀ policy, policy ∈ policies ↔ IsPolicy lib cat policy ∧ policy.table = table)
      E :=
  (h.listPolicies table).views (.bind (only_listRecords _ _) fun _ => trivial)

end Changes

end ChocoBase.Catalog
