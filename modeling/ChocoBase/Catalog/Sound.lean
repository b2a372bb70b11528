import ChocoBase.Catalog.RoundTrip
import ChocoBase.Engine.Layout

/-!
# A sound catalog

Every entry of a sound catalog is a record under its key, and every table and index
has its tree where its record says.  While a statement is at work, the records of
some keys may be stale.
-/

namespace ChocoBase.Catalog

open ChocoBase.Foundation ChocoBase.Storage ChocoBase.BTree ChocoBase.Sql ChocoBase.Types
  ChocoBase.Engine

/-! ## Changing records -/

section Records

variable {f : Forest} {cat : OrdMap Bytes Bytes} {lay : Layout}

theorem does_moveRoot {root : PageNo} (h : Laid f.now.roots (withCatalog root cat lay)) :
    Does f (moveRoot root)
      (fun _ f' => f'.transactionEvents = f.transactionEvents ∧ Housed f' cat lay) fun _ => False := by
  refine ⟨trivial, ?_, fun _ _ hfalse => hfalse.elim, fun _ _ _ => trivial⟩
  rintro _ f' rfl
  refine ⟨trivial, ?_, fun _ _ hfalse => hfalse.elim, fun _ _ _ => trivial⟩
  rintro _ f' rfl
  exact ⟨⟨_, _, _, [], by rw [List.append_nil]; rfl⟩, rfl, h, rfl⟩

/-- The catalog as a tree among the others. -/
theorem housed_catalog : withCatalog f.root cat lay none = some (f.root, cat) := rfl

theorem does_createRecord (h : Housed f cat lay) (key payload : Bytes) (existing : PlanError) :
    Does f (createRecord key payload existing)
      (fun _ f' => f'.transactionEvents = f.transactionEvents ∧ cat.get key = none ∧
        singleEntrySize key payload ≤ pageSize ∧ Housed f' (cat.insert key payload) lay)
      fun e => e = .btree (.rowTooLarge (singleEntrySize key payload) pageSize) ∧
          pageSize < singleEntrySize key payload ∨
        e = .plan existing ∧ cat.get key ≠ none := by
  refine Looks.seq ((looks_root).mono (fun _ _ _ h => h) fun _ h => h.elim) ?_
  rintro _ rfl
  refine Does.seq (does_insert h.laid housed_catalog key payload) ?_
  rintro (root' : PageNo) f' - ⟨hgrown, habsent, hsize, hlaid⟩
  rw [update_withCatalog] at hlaid
  refine (does_moveRoot hlaid).mono ?_ fun _ h => h.elim
  rintro _ f'' - ⟨hevents, hhoused⟩
  exact ⟨hevents.trans hgrown.events, habsent, hsize, hhoused⟩

theorem does_replaceRecord (h : Housed f cat lay) (oldKey newKey payload : Bytes) :
    Does f (replaceRecord oldKey newKey payload)
      (fun _ f' => f'.transactionEvents = f.transactionEvents ∧
        (cat.erase oldKey).get newKey = none ∧ singleEntrySize newKey payload ≤ pageSize ∧
        Housed f' ((cat.erase oldKey).insert newKey payload) lay)
      fun e => e = .btree (.rowTooLarge (singleEntrySize newKey payload) pageSize) ∧
          pageSize < singleEntrySize newKey payload ∨
        e = .btree .duplicateKey ∧ (cat.erase oldKey).get newKey ≠ none := by
  refine Looks.seq ((looks_root).mono (fun _ _ _ h => h) fun _ h => h.elim) ?_
  rintro _ rfl
  refine Does.seq ((does_delete h.laid housed_catalog oldKey).mono (fun _ _ _ h => h)
    fun _ h => h.elim) ?_
  rintro ⟨present, root⟩ f₁ - ⟨hgrown, -, hlaid⟩
  refine Does.seq (does_insert hlaid (Function.update_self ..) newKey payload) ?_
  rintro (root' : PageNo) f₂ - ⟨hgrown', habsent, hsize, hlaid'⟩
  rw [Function.update_idem, update_withCatalog] at hlaid'
  refine (does_moveRoot hlaid').mono ?_ fun _ h => h.elim
  rintro _ f₃ - ⟨hevents, hhoused⟩
  exact ⟨hevents.trans (hgrown'.events.trans hgrown.events), habsent, hsize, hhoused⟩

theorem does_deleteRecord (h : Housed f cat lay) (key : Bytes) :
    Does f (deleteRecord key)
      (fun _ f' => f'.transactionEvents = f.transactionEvents ∧ Housed f' (cat.erase key) lay)
      fun _ => False := by
  refine Looks.seq looks_root ?_
  rintro _ rfl
  refine Does.seq (does_delete h.laid housed_catalog key) ?_
  rintro ⟨present, root⟩ f₁ - ⟨hgrown, -, hlaid⟩
  rw [update_withCatalog] at hlaid
  refine (does_moveRoot hlaid).mono ?_ fun _ h => h.elim
  rintro _ f₂ - ⟨hevents, hhoused⟩
  exact ⟨hevents.trans hgrown.events, hhoused⟩

theorem looks_getRecord {ρ : Type} (h : Housed f cat lay) (decode : Bytes → Option ρ) (key : Bytes) :
    Looks f (getRecord decode key) (fun found =>
      cat.get key = none ∧ found = none ∨
        ∃ payload record, cat.get key = some payload ∧ decode payload = some record ∧
          found = some record) fun _ => False := by
  refine Looks.seq looks_root ?_
  rintro _ rfl
  refine Looks.seq (looks_search h.laid housed_catalog key) ?_
  rintro found rfl
  cases hget : cat.get key with
  | none => exact looks_pure (.inl ⟨rfl, rfl⟩)
  | some payload =>
      refine Looks.seq (looks_unwrap (decode payload)) fun record hrecord => ?_
      exact looks_pure (.inr ⟨payload, record, rfl, hrecord, rfl⟩)

theorem decodeKind_ok {ρ : Type} {kind : UInt8} {decode : Bytes → Option ρ}
    {entries : List (Bytes × Bytes)} {records : List ρ}
    (h : decodeKind kind decode entries = .ok records) :
    records = entries.filterMap fun e =>
      if recordKind e.2 = some kind then decode e.2 else none := by
  induction entries generalizing records with
  | nil =>
      cases h
      rfl
  | cons e entries ih =>
      rw [decodeKind] at h
      cases hkind : recordKind e.2 with
      | none => rw [hkind] at h; cases h
      | some k =>
          rw [hkind] at h
          change (if k = kind then _ else _) = _ at h
          split at h
          · next heq =>
              subst heq
              cases hdecode : decode e.2 with
              | none => rw [hdecode] at h; cases h
              | some record =>
                  rw [hdecode] at h
                  change (decodeKind k decode entries).bind _ = _ at h
                  cases hrest : decodeKind k decode entries with
                  | ok rest =>
                      rw [hrest] at h
                      cases h
                      simp [hkind, hdecode, ← ih hrest]
                  | error reason => rw [hrest] at h; cases h
                  | stop why => rw [hrest] at h; cases h
          · next hne =>
              simp [hkind, hne, ← ih h]

/-- A record that does not decode stops the program. -/
theorem decodeKind_ne_error {ρ : Type} {kind : UInt8} {decode : Bytes → Option ρ}
    (entries : List (Bytes × Bytes)) (e : BTreeError) : decodeKind kind decode entries ≠ .error e := by
  induction entries with
  | nil => exact fun h => by cases h
  | cons entry entries ih =>
      intro h
      rw [decodeKind] at h
      rcases hkind : recordKind entry.2 with _ | k
      · rw [hkind] at h
        cases h
      · rw [hkind] at h
        change (if k = kind then _ else _) = _ at h
        split at h
        · rcases hdecode : decode entry.2 with _ | record
          · rw [hdecode] at h
            cases h
          · rw [hdecode] at h
            change (decodeKind kind decode entries).bind _ = _ at h
            cases hrest : decodeKind kind decode entries with
            | ok rest => rw [hrest] at h; cases h
            | error reason => rw [hrest] at h; cases h; exact ih hrest
            | stop why => rw [hrest] at h; cases h
        · exact ih h

theorem looks_listRecords {ρ : Type} {E : DbError → Prop} (h : Housed f cat lay) (kind : UInt8)
    (decode : Bytes → Option ρ) :
    Looks f (listRecords kind decode) (fun records => records = cat.entries.filterMap fun e =>
      if recordKind e.2 = some kind then decode e.2 else none) E := by
  refine Looks.seq ((looks_root).mono (fun _ _ _ h => h) fun _ h => h.elim) ?_
  rintro _ rfl
  refine Looks.seq ((looks_scan h.laid housed_catalog).mono (fun _ _ _ h => h) fun _ h => h.elim) ?_
  rintro scanned rfl
  refine (looks_ofOutcome fun e he => ?_).mono ?_ fun _ h => h
  · cases hdecode : decodeKind kind decode cat.entries with
    | ok decoded => rw [hdecode] at he; cases he
    | error reason => exact (decodeKind_ne_error _ _ hdecode).elim
    | stop why => rw [hdecode] at he; cases he
  rintro records f' - ⟨rfl, hrecords⟩
  refine ⟨rfl, ?_⟩
  cases hdecode : decodeKind kind decode cat.entries with
  | ok decoded =>
      rw [hdecode] at hrecords
      cases hrecords
      exact decodeKind_ok hdecode
  | error reason => rw [hdecode] at hrecords; cases hrecords
  | stop why => rw [hdecode] at hrecords; cases hrecords

theorem only_getRecord {ρ : Type} (decode : Bytes → Option ρ) (key : Bytes) :
    (getRecord decode key).Only Inspects := by
  refine .bind (Prog.only_request trivial) fun root => .bind (Prog.only_request trivial) fun found => ?_
  cases found with
  | none => trivial
  | some payload => exact .bind (Prog.only_unwrap _) fun _ => trivial

theorem only_ofOutcome {ε α : Type} (o : Outcome ε α) : (Prog.ofOutcome o : DbProg ε α).Only Inspects := by
  cases o <;> trivial

theorem only_listRecords {ρ : Type} (kind : UInt8) (decode : Bytes → Option ρ) :
    (listRecords kind decode).Only Inspects :=
  .bind (Prog.only_request trivial) fun _ => .bind (Prog.only_request trivial) fun _ => only_ofOutcome _

end Records

/-! ## Soundness -/

structure Sound (lib : Library) (stale : Set Bytes) (f : Forest) (cat : OrdMap Bytes Bytes)
    (lay : Layout) : Prop extends Housed f cat lay where
  filed : ∀ key payload, cat.get key = some payload →
    Filed lib key payload ∧ singleEntrySize key payload ≤ pageSize
  owned : ∀ key, key ∉ stale → (lay (.record key)).map Prod.fst = (cat.get key).bind recordRoot

/-- The catalog has this table. -/
structure IsTable (cat : OrdMap Bytes Bytes) (schema : TableSchema) : Prop where
  recorded : cat.get (tableKey schema.name) = some (encodeTableRecord schema)
  decodes : decodeTableRecord (encodeTableRecord schema) = some schema

structure IsIndex (cat : OrdMap Bytes Bytes) (schema : IndexSchema) : Prop where
  recorded : cat.get (indexKey schema.name) = some (encodeIndexRecord schema)
  decodes : decodeIndexRecord (encodeIndexRecord schema) = some schema

theorem recordRoot_table {schema : TableSchema} {payload : Bytes}
    (h : decodeTableRecord payload = some schema) : recordRoot payload = some schema.rootPage := by
  rw [recordRoot, h]

theorem recordRoot_index {schema : IndexSchema} {payload : Bytes}
    (h : decodeIndexRecord payload = some schema) : recordRoot payload = some schema.rootPage := by
  have htable : decodeTableRecord payload = none := by
    by_contra hsome
    obtain ⟨schema', hschema'⟩ := Option.ne_none_iff_exists'.mp hsome
    exact absurd (kind_of_index h) (by rw [kind_of_table hschema']; decide)
  rw [recordRoot, htable, h]
  rfl

theorem recordRoot_policy {lib : Library} {policy : PolicySchema} {payload : Bytes}
    (h : decodePolicyRecord lib payload = some policy) : recordRoot payload = none := by
  have htable : decodeTableRecord payload = none := by
    by_contra hsome
    obtain ⟨schema', hschema'⟩ := Option.ne_none_iff_exists'.mp hsome
    exact absurd (kind_of_policy h) (by rw [kind_of_table hschema']; decide)
  have hindex : decodeIndexRecord payload = none := by
    by_contra hsome
    obtain ⟨schema', hschema'⟩ := Option.ne_none_iff_exists'.mp hsome
    exact absurd (kind_of_policy h) (by rw [kind_of_index hschema']; decide)
  rw [recordRoot, htable, hindex]
  rfl

section Sound

variable {lib : Library} {stale : Set Bytes} {f : Forest} {cat : OrdMap Bytes Bytes} {lay : Layout}

theorem Sound.isTable (h : Sound lib stale f cat lay) {key payload : Bytes} {schema : TableSchema}
    (hget : cat.get key = some payload) (hdecode : decodeTableRecord payload = some schema) :
    key = tableKey schema.name ∧ IsTable cat schema := by
  obtain ⟨rfl, rfl⟩ := (h.filed key payload hget).1.of_table hdecode
  exact ⟨rfl, hget, hdecode⟩

theorem Sound.isIndex (h : Sound lib stale f cat lay) {key payload : Bytes} {schema : IndexSchema}
    (hget : cat.get key = some payload) (hdecode : decodeIndexRecord payload = some schema) :
    key = indexKey schema.name ∧ IsIndex cat schema := by
  obtain ⟨rfl, rfl⟩ := (h.filed key payload hget).1.of_index hdecode
  exact ⟨rfl, hget, hdecode⟩

theorem Sound.tree (h : Sound lib stale f cat lay) {schema : TableSchema} (ht : IsTable cat schema)
    (hstale : tableKey schema.name ∉ stale) :
    ∃ m, lay (.record (tableKey schema.name)) = some (schema.rootPage, m) := by
  have howned := h.owned _ hstale
  rw [ht.recorded, Option.bind_some, recordRoot_table ht.decodes] at howned
  obtain ⟨⟨root, m⟩, hlay, rfl⟩ := Option.map_eq_some_iff.mp howned
  exact ⟨m, hlay⟩

theorem Sound.indexTree (h : Sound lib stale f cat lay) {schema : IndexSchema}
    (hi : IsIndex cat schema) (hstale : indexKey schema.name ∉ stale) :
    ∃ m, lay (.record (indexKey schema.name)) = some (schema.rootPage, m) := by
  have howned := h.owned _ hstale
  rw [hi.recorded, Option.bind_some, recordRoot_index hi.decodes] at howned
  obtain ⟨⟨root, m⟩, hlay, rfl⟩ := Option.map_eq_some_iff.mp howned
  exact ⟨m, hlay⟩

/-! ## Looking up -/

theorem Sound.getTable (h : Sound lib stale f cat lay) (name : String) :
    Looks f (getTable name) (fun found => cat.get (tableKey name) = none ∧ found = none ∨
      ∃ schema, schema.name = name ∧ IsTable cat schema ∧ found = some schema) fun _ => False := by
  refine (looks_getRecord h.toHoused _ _).mono ?_ fun _ h => h
  rintro found f' - ⟨rfl, hfound⟩
  refine ⟨rfl, ?_⟩
  rcases hfound with hnone | ⟨payload, schema, hget, hdecode, rfl⟩
  · exact .inl hnone
  · obtain ⟨hkey, ht⟩ := h.isTable hget hdecode
    exact .inr ⟨schema, (tableKey_injective hkey).symm, ht, rfl⟩

theorem Sound.requireTable (h : Sound lib stale f cat lay) (name : String) :
    Looks f (requireTable name) (fun schema => schema.name = name ∧ IsTable cat schema)
      fun e => e = .plan (.noSuchTable name) ∧ cat.get (tableKey name) = none := by
  refine Looks.seq ((h.getTable name).mono (fun _ _ _ h => h) fun _ h => h.elim) ?_
  rintro found (⟨hnone, rfl⟩ | ⟨schema, hname, ht, rfl⟩)
  · exact does_throw ⟨rfl, hnone⟩
  · exact looks_pure ⟨hname, ht⟩

theorem Sound.requireIndex (h : Sound lib stale f cat lay) (name : String) :
    Looks f (requireIndex name) (fun schema => schema.name = name ∧ IsIndex cat schema)
      fun e => e = .plan (.noSuchIndex name) ∧ cat.get (indexKey name) = none := by
  refine Looks.seq ((looks_getRecord h.toHoused _ _).mono (fun _ _ _ h => h) fun _ h => h.elim) ?_
  rintro found (⟨hnone, rfl⟩ | ⟨payload, schema, hget, hdecode, rfl⟩)
  · exact does_throw ⟨rfl, hnone⟩
  · obtain ⟨hkey, hi⟩ := h.isIndex hget hdecode
    exact looks_pure ⟨(indexKey_injective hkey).symm, hi⟩

/-- The indexes of a table, each by another name. -/
structure Lists (cat : OrdMap Bytes Bytes) (table : String) (indexes : List IndexSchema) : Prop where
  mem : ∀ idx, idx ∈ indexes ↔ IsIndex cat idx ∧ idx.table = table
  nodup : (indexes.map IndexSchema.name).Nodup

theorem Sound.listIndexes {E : DbError → Prop} (h : Sound lib stale f cat lay) (table : String) :
    Looks f (listIndexesForTable table) (Lists cat table) E := by
  refine Looks.seq (looks_listRecords h.toHoused kindIndex decodeIndexRecord) ?_
  rintro all rfl
  have hmem : ∀ idx, idx ∈ (cat.entries.filterMap fun e =>
      if recordKind e.2 = some kindIndex then decodeIndexRecord e.2 else none) ↔ IsIndex cat idx := by
    intro idx
    rw [List.mem_filterMap]
    constructor
    · rintro ⟨⟨key, payload⟩, he, hidx⟩
      obtain ⟨-, hidx⟩ := Option.ite_none_right_eq_some.mp hidx
      exact (h.isIndex (OrdMap.get_eq_some.mpr he) hidx).2
    · intro hi
      refine ⟨_, OrdMap.get_eq_some.mp hi.recorded, ?_⟩
      rw [if_pos (kind_of_index hi.decodes), hi.decodes]
  refine looks_pure ⟨fun idx => ?_, ?_⟩
  · rw [List.mem_filter, hmem, decide_eq_true_eq]
  · have hkeys : (cat.entries.filterMap fun e =>
        if recordKind e.2 = some kindIndex then decodeIndexRecord e.2 else none).Pairwise
        fun i j => i.name ≠ j.name := by
      rw [List.pairwise_filterMap]
      refine cat.sorted.imp_of_mem ?_
      rintro ⟨k, v⟩ ⟨k', v'⟩ he he' hlt i hi j hj heq
      obtain ⟨-, hi⟩ := Option.ite_none_right_eq_some.mp hi
      obtain ⟨-, hj⟩ := Option.ite_none_right_eq_some.mp hj
      have hk := (h.isIndex (OrdMap.get_eq_some.mpr he) hi).1
      have hk' := (h.isIndex (OrdMap.get_eq_some.mpr he') hj).1
      exact hlt.ne (by rw [hk, hk', heq])
    exact List.pairwise_map.mpr (hkeys.filter _)

theorem Sound.views_getTable (h : Sound lib stale f cat lay) (name : String) :
    Views f (Catalog.getTable name) (fun found => cat.get (tableKey name) = none ∧ found = none ∨
      ∃ schema, schema.name = name ∧ IsTable cat schema ∧ found = some schema) fun _ => False :=
  (h.getTable name).views (only_getRecord _ _)

theorem Sound.views_requireTable (h : Sound lib stale f cat lay) (name : String) :
    Views f (Catalog.requireTable name) (fun schema => schema.name = name ∧ IsTable cat schema)
      fun e => e = .plan (.noSuchTable name) ∧ cat.get (tableKey name) = none := by
  refine (h.requireTable name).views (.bind (only_getRecord _ _) fun found => ?_)
  cases found <;> trivial

theorem Sound.views_listIndexes {E : DbError → Prop} (h : Sound lib stale f cat lay) (table : String) :
    Views f (listIndexesForTable table) (Lists cat table) E :=
  (h.listIndexes table).views (.bind (only_listRecords _ _) fun _ => trivial)

/-! ## Recording -/

variable {f' : Forest} {lay' : Layout} {key payload : Bytes}

theorem Sound.weaken {stale' : Set Bytes} (h : Sound lib stale f cat lay) (hle : stale ⊆ stale') :
    Sound lib stale' f cat lay :=
  { h with owned := fun key hkey => h.owned key fun hmem => hkey (hle hmem) }

/-- The key has no record and no tree, or a record and the tree where it says. -/
structure Settled (lib : Library) (cat : OrdMap Bytes Bytes) (lay : Layout) (key : Bytes) :
    Prop where
  filed : ∀ payload, cat.get key = some payload →
    Filed lib key payload ∧ singleEntrySize key payload ≤ pageSize
  owned : (lay (.record key)).map Prod.fst = (cat.get key).bind recordRoot

theorem settled_none {cat : OrdMap Bytes Bytes} (hget : cat.get key = none)
    (hlay : lay (.record key) = none) : Settled lib cat lay key where
  filed payload h := by rw [hget] at h; cases h
  owned := by rw [hget, hlay]; rfl

theorem settled_some {cat : OrdMap Bytes Bytes} (hget : cat.get key = some payload)
    (hfiled : Filed lib key payload) (hsize : singleEntrySize key payload ≤ pageSize)
    (howner : (lay (.record key)).map Prod.fst = recordRoot payload) : Settled lib cat lay key where
  filed payload' h := by
    obtain rfl := Option.some.inj (hget.symm.trans h)
    exact ⟨hfiled, hsize⟩
  owned := by rw [hget, howner, Option.bind_some]

/-- Every key is settled or as it was. -/
theorem Sound.change {stale' : Set Bytes} {cat' : OrdMap Bytes Bytes}
    (h : Sound lib stale f cat lay) (hhoused : Housed f' cat' lay')
    (hkeys : ∀ key, Settled lib cat' lay' key ∨ (key ∈ stale → key ∈ stale') ∧
      cat'.get key = cat.get key ∧ lay' (.record key) = lay (.record key)) :
    Sound lib stale' f' cat' lay' where
  toHoused := hhoused
  filed key payload hget := by
    rcases hkeys key with hsettled | ⟨-, hcat, -⟩
    · exact hsettled.filed payload hget
    · exact h.filed key payload (hcat ▸ hget)
  owned key hkey := by
    rcases hkeys key with hsettled | ⟨hstale, hcat, hlay⟩
    · exact hsettled.owned
    · rw [hcat, hlay]
      exact h.owned key fun hmem => hkey (hstale hmem)

/-- A record is put under its key, and its tree is where it says. -/
theorem Sound.record (h : Sound lib stale f cat lay)
    (hhoused : Housed f' (cat.insert key payload) lay') (hfiled : Filed lib key payload)
    (hsize : singleEntrySize key payload ≤ pageSize)
    (howner : (lay' (.record key)).map Prod.fst = recordRoot payload)
    (hothers : ∀ key', key' ≠ key → lay' (.record key') = lay (.record key')) :
    Sound lib (stale \ {key}) f' (cat.insert key payload) lay' := by
  refine h.change hhoused fun key' => ?_
  by_cases heq : key' = key
  · subst heq
    exact .inl (settled_some (by rw [OrdMap.get_insert, if_pos rfl]) hfiled hsize howner)
  · exact .inr ⟨fun hmem => ⟨hmem, heq⟩, by rw [OrdMap.get_insert, if_neg heq], hothers key' heq⟩

/-- A record is taken out, and its owner has no tree. -/
theorem Sound.erased (h : Sound lib stale f cat lay) (hhoused : Housed f' (cat.erase key) lay')
    (howner : lay' (.record key) = none)
    (hothers : ∀ key', key' ≠ key → lay' (.record key') = lay (.record key')) :
    Sound lib (stale \ {key}) f' (cat.erase key) lay' := by
  refine h.change hhoused fun key' => ?_
  by_cases heq : key' = key
  · subst heq
    exact .inl (settled_none (by rw [OrdMap.get_erase, if_pos rfl]) howner)
  · exact .inr ⟨fun hmem => ⟨hmem, heq⟩, by rw [OrdMap.get_erase, if_neg heq], hothers key' heq⟩

theorem Sound.size {schema : TableSchema} (h : Sound lib stale f cat lay) (ht : IsTable cat schema)
    (root : PageNo) : singleEntrySize (tableKey schema.name)
      (encodeTableRecord { schema with rootPage := root }) ≤ pageSize := by
  have hsize := (h.filed _ _ ht.recorded).2
  unfold singleEntrySize at hsize ⊢
  rwa [encodeTable_length_withRoot]

theorem IsTable.withRoot {schema : TableSchema} (ht : IsTable cat schema) (root : PageNo)
    (hsize : singleEntrySize (tableKey schema.name)
      (encodeTableRecord { schema with rootPage := root }) ≤ pageSize) :
    decodeTableRecord (encodeTableRecord { schema with rootPage := root }) =
      some { schema with rootPage := root } := by
  have hsmall := small_of_fits hsize
  have hcolumns : schema.columns.map storedColumn = schema.columns :=
    stored_of_decodes ht.decodes (by rwa [encodeTable_length_withRoot] at hsmall)
  exact decodes_of_stored hcolumns hsmall

/-- The record of a table gets the root that its tree has now. -/
theorem Sound.updateTableRoot (h : Sound lib stale f cat lay) {schema : TableSchema}
    (ht : IsTable cat schema) {root : PageNo} {m : OrdMap Bytes Bytes}
    (hlay : lay (.record (tableKey schema.name)) = some (root, m)) :
    Does f (updateTableRoot schema.name root)
      (fun _ f' => f'.transactionEvents = f.transactionEvents ∧
        Sound lib (stale \ {tableKey schema.name}) f' (cat.insert (tableKey schema.name)
          (encodeTableRecord { schema with rootPage := root })) lay) fun _ => False := by
  refine Looks.seq ((h.requireTable schema.name).mono (fun _ _ _ h => h) fun e he => ?_) ?_
  · rw [ht.recorded] at he
    cases he.2
  · rintro schema' ⟨hname, ht'⟩
    have hrecorded := ht'.recorded
    rw [hname, ht.recorded] at hrecorded
    obtain rfl : schema' = schema := by
      have hdecode := ht'.decodes
      rw [← Option.some.inj hrecorded, ht.decodes] at hdecode
      exact (Option.some.inj hdecode).symm
    have hsize := h.size ht root
    refine (does_replaceRecord h.toHoused _ _ _).mono ?_ fun e he => ?_
    · rintro _ f' - ⟨hevents, -, -, hhoused⟩
      rw [OrdMap.insert_erase] at hhoused
      refine ⟨hevents, h.record hhoused (.table _ (ht.withRoot root hsize)) hsize ?_ fun _ _ => rfl⟩
      rw [hlay, recordRoot_table (ht.withRoot root hsize)]
      rfl
    · rcases he with ⟨-, hlarge⟩ | ⟨-, hpresent⟩
      · exact absurd hsize (Nat.not_le_of_lt hlarge)
      · rw [OrdMap.get_erase, if_pos rfl] at hpresent
        exact hpresent rfl

theorem IsIndex.withRoot {schema : IndexSchema} {root : PageNo}
    (hsize : singleEntrySize (indexKey schema.name)
      (encodeIndexRecord { schema with rootPage := root }) ≤ pageSize) :
    decodeIndexRecord (encodeIndexRecord { schema with rootPage := root }) =
      some { schema with rootPage := root } := decode_encodeIndex (small_of_fits hsize)

theorem Sound.updateIndexRoot (h : Sound lib stale f cat lay) {schema : IndexSchema}
    (hi : IsIndex cat schema) {root : PageNo} {m : OrdMap Bytes Bytes}
    (hlay : lay (.record (indexKey schema.name)) = some (root, m)) :
    Does f (updateIndexRoot schema.name root)
      (fun _ f' => f'.transactionEvents = f.transactionEvents ∧
        Sound lib (stale \ {indexKey schema.name}) f' (cat.insert (indexKey schema.name)
          (encodeIndexRecord { schema with rootPage := root })) lay) fun _ => False := by
  refine Looks.seq ((h.requireIndex schema.name).mono (fun _ _ _ h => h) fun e he => ?_) ?_
  · rw [hi.recorded] at he
    cases he.2
  · rintro schema' ⟨hname, hi'⟩
    have hrecorded := hi'.recorded
    rw [hname, hi.recorded] at hrecorded
    obtain rfl : schema' = schema := by
      have hdecode := hi'.decodes
      rw [← Option.some.inj hrecorded, hi.decodes] at hdecode
      exact (Option.some.inj hdecode).symm
    have hsize : singleEntrySize (indexKey schema'.name)
        (encodeIndexRecord { schema' with rootPage := root }) ≤ pageSize := by
      have hold := (h.filed _ _ hi.recorded).2
      unfold singleEntrySize at hold ⊢
      rwa [encodeIndex_length_withRoot]
    refine (does_replaceRecord h.toHoused _ _ _).mono ?_ fun e he => ?_
    · rintro _ f' - ⟨hevents, -, -, hhoused⟩
      rw [OrdMap.insert_erase] at hhoused
      refine ⟨hevents, h.record hhoused (.index _ (IsIndex.withRoot hsize)) hsize ?_ fun _ _ => rfl⟩
      rw [hlay, recordRoot_index (IsIndex.withRoot hsize)]
      rfl
    · rcases he with ⟨-, hlarge⟩ | ⟨-, hpresent⟩
      · exact absurd hsize (Nat.not_le_of_lt hlarge)
      · rw [OrdMap.get_erase, if_pos rfl] at hpresent
        exact hpresent rfl

/-- A tree without a record does not matter to the catalog. -/
theorem Sound.fresh {tree : Option (PageNo × OrdMap Bytes Bytes)}
    (h : Sound lib stale f cat lay) (hhoused : Housed f' cat (Function.update lay .fresh tree)) :
    Sound lib stale f' cat (Function.update lay .fresh tree) :=
  h.change hhoused fun _ => .inr ⟨id, rfl, Function.update_of_ne (by simp) ..⟩

/-- Soundness is a matter of the trees and of the root of the catalog. -/
theorem Sound.congr (h : Sound lib stale f cat lay) (hnow : f'.now = f.now)
    (hroot : f'.root = f.root) : Sound lib stale f' cat lay where
  laid := by rw [hnow, hroot]; exact h.laid
  stored := by rw [hnow, hroot]; exact h.stored
  filed := h.filed
  owned := h.owned

end Sound

end ChocoBase.Catalog
