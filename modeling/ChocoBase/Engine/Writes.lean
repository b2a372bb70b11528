import ChocoBase.Catalog.Dictionary

/-!
# Writing rows to sound trees

Rows go into the tree of a table and the trees of its indexes.  While they do, the
roots in the catalog are stale; recording the roots makes it sound again.
-/

namespace ChocoBase.Engine

open ChocoBase.Foundation ChocoBase.Storage ChocoBase.BTree ChocoBase.Sql ChocoBase.Types
  ChocoBase.Auth ChocoBase.Catalog ChocoBase.Plan

def indexOwner (idx : IndexSchema) : Owner := .record (indexKey idx.name)

theorem indexOwner_inj {i j : IndexSchema} (h : indexOwner i = indexOwner j) : i.name = j.name :=
  indexKey_injective (Owner.record.inj h)

/-- Each index has its tree at its root. -/
structure Rooted (lay : Layout) (indexes : List IndexSchema) : Prop where
  nodup : (indexes.map IndexSchema.name).Nodup
  planted : ∀ idx ∈ indexes, ∃ m, lay (indexOwner idx) = some (idx.rootPage, m)

/-- Only these owners' trees may have changed. -/
def Beside (o : Owner) (indexes : List IndexSchema) (lay lay' : Layout) : Prop :=
  ∀ o', o' ≠ o → (∀ idx ∈ indexes, o' ≠ indexOwner idx) → lay' o' = lay o'

section Writes

variable {f : Forest} {cat : OrdMap Bytes Bytes} {lay : Layout} {o : Owner} {m : OrdMap Bytes Bytes}
  {schema : TableSchema} {indexes : List IndexSchema} {row : Row}

theorem withRoots_nil (indexes : List IndexSchema) : withRoots [] indexes = indexes := by
  simp [withRoots]

theorem names_withRoots (roots : IndexRoots) (indexes : List IndexSchema) :
    (withRoots roots indexes).map IndexSchema.name = indexes.map IndexSchema.name := by
  simp [withRoots]

theorem mem_withRoots {roots : IndexRoots} {idx : IndexSchema} :
    idx ∈ withRoots roots indexes ↔ ∃ idx' ∈ indexes,
      { idx' with rootPage := (roots.lookup idx'.name).getD idx'.rootPage } = idx := by
  rw [withRoots, List.mem_map]

theorem owners_withRoots {roots : IndexRoots} {o : Owner} :
    (∀ idx ∈ withRoots roots indexes, o ≠ indexOwner idx) ↔ ∀ idx ∈ indexes, o ≠ indexOwner idx := by
  constructor
  · intro h idx hmem
    have hne := h _ (mem_withRoots.mpr ⟨idx, hmem, rfl⟩)
    exact hne
  · rintro h _ hmem
    obtain ⟨idx, hidx, rfl⟩ := mem_withRoots.mp hmem
    exact h idx hidx

theorem lookup_eq_some {roots : IndexRoots} (hnodup : (roots.map Prod.fst).Nodup) {name : String}
    {root : PageNo} : roots.lookup name = some root ↔ (name, root) ∈ roots := by
  induction roots with
  | nil => simp
  | cons entry roots ih =>
      obtain ⟨hhead, hrest⟩ := List.nodup_cons.mp hnodup
      rw [List.lookup_cons, List.mem_cons]
      by_cases heq : name = entry.1
      · subst heq
        rw [beq_self_eq_true]
        constructor
        · rintro h
          exact .inl (by rw [← Option.some.inj h])
        · rintro (h | h)
          · rw [← h]
          · exact absurd (List.mem_map.mpr ⟨_, h, rfl⟩) hhead
      · rw [beq_false_of_ne heq]
        refine (ih hrest).trans ⟨.inr, fun h => h.resolve_left fun h => heq ?_⟩
        rw [← h]

theorem lookup_reverse {roots : IndexRoots} (hnodup : (roots.map Prod.fst).Nodup) (name : String) :
    roots.reverse.lookup name = roots.lookup name := by
  have hreverse : (roots.reverse.map Prod.fst).Nodup := by
    rwa [List.map_reverse, List.nodup_reverse]
  ext root
  rw [lookup_eq_some hreverse, lookup_eq_some hnodup, List.mem_reverse]

theorem mergeRoots_eq (new old : IndexRoots) : mergeRoots new old = new.reverse ++ old := by
  unfold mergeRoots
  induction new generalizing old with
  | nil => rfl
  | cons entry new ih => rw [List.foldl_cons, ih, List.reverse_cons, List.append_assoc]; rfl

/-- Roots for all indexes take the place of older ones. -/
theorem withRoots_again {new old : IndexRoots}
    (hnames : new.map Prod.fst = indexes.map IndexSchema.name) :
    withRoots new (withRoots old indexes) = withRoots new indexes := by
  simp only [withRoots, List.map_map]
  refine List.map_congr_left fun idx hmem => ?_
  have hin : idx.name ∈ new.map Prod.fst := by
    rw [hnames]
    exact List.mem_map_of_mem hmem
  have hsome : (new.lookup idx.name).isSome := by
    obtain ⟨entry, hentry, heq⟩ := List.mem_map.mp hin
    exact List.lookup_isSome_iff.mpr ⟨entry, hentry, by simp [heq]⟩
  obtain ⟨root, hroot⟩ := Option.isSome_iff_exists.mp hsome
  simp [hroot]

theorem withRoots_merge {new old : IndexRoots}
    (hnames : new.map Prod.fst = indexes.map IndexSchema.name)
    (hnodup : (indexes.map IndexSchema.name).Nodup) :
    withRoots (mergeRoots new old) indexes = withRoots new indexes := by
  have hmerge : withRoots (mergeRoots new old) indexes = withRoots new (withRoots old indexes) := by
    simp only [withRoots, List.map_map]
    refine List.map_congr_left fun idx _ => ?_
    rw [mergeRoots_eq, List.lookup_append, lookup_reverse (hnames ▸ hnodup)]
    cases hlookup : new.lookup idx.name <;> simp [hlookup]
  rw [hmerge, withRoots_again hnames]

/-! ## One row -/

/-- What an operation on the entries of a row does to the trees of the indexes. -/
structure Entered (f : Forest) (cat : OrdMap Bytes Bytes) (lay : Layout)
    (indexes : List IndexSchema) (roots : IndexRoots) (f' : Forest) (lay' : Layout) : Prop where
  housed : Housed f' cat lay'
  events : f'.transactionEvents = f.transactionEvents
  names : roots.map Prod.fst = indexes.map IndexSchema.name
  rooted : Rooted lay' (withRoots roots indexes)
  beside : ∀ o, (∀ idx ∈ indexes, o ≠ indexOwner idx) → lay' o = lay o

theorem entered_nil (h : Housed f cat lay) : Entered f cat lay [] [] f lay where
  housed := h
  events := rfl
  names := rfl
  rooted := ⟨List.nodup_nil, fun _ hmem => by cases hmem⟩
  beside _ _ := rfl

/-- The entry of the first index, then those of the others. -/
theorem Entered.cons {idx : IndexSchema} {root : PageNo} {roots : IndexRoots} {f₁ f' : Forest}
    {lay' : Layout} {tree : OrdMap Bytes Bytes} (hrooted : Rooted lay (idx :: indexes))
    (hevents : f₁.transactionEvents = f.transactionEvents)
    (h : Entered f₁ cat (Function.update lay (indexOwner idx) (some (root, tree))) indexes roots
      f' lay') : Entered f cat lay (idx :: indexes) ((idx.name, root) :: roots) f' lay' := by
  obtain ⟨hhead, hrest⟩ := List.nodup_cons.mp hrooted.nodup
  have hother : ∀ idx' ∈ indexes, idx'.name ≠ idx.name := fun idx' hmem heq =>
    hhead (List.mem_map.mpr ⟨idx', hmem, heq⟩)
  have hself : withRoots ((idx.name, root) :: roots) (idx :: indexes) =
      { idx with rootPage := root } :: withRoots roots indexes := by
    rw [withRoots, List.map_cons, List.lookup_cons_self]
    refine congrArg₂ _ rfl (List.map_congr_left fun idx' hmem => ?_)
    rw [List.lookup_cons, beq_false_of_ne (hother idx' hmem)]
  refine ⟨h.housed, h.events.trans hevents, ?_, ?_, fun o ho => ?_⟩
  · rw [List.map_cons, List.map_cons, h.names]
  · rw [hself]
    refine ⟨?_, ?_⟩
    · rw [List.map_cons, names_withRoots]
      exact hrooted.nodup
    · rintro idx' (_ | ⟨_, hmem⟩)
      · refine ⟨tree, ?_⟩
        have hkept := h.beside (indexOwner idx) fun idx' hmem heq =>
          hother idx' hmem (indexOwner_inj heq).symm
        rw [Function.update_self] at hkept
        exact hkept
      · exact h.rooted.planted idx' hmem
  · rw [h.beside o fun idx' hmem => ho idx' (List.mem_cons_of_mem _ hmem),
      Function.update_of_ne (ho idx List.mem_cons_self)]

theorem Rooted.tail {idx : IndexSchema} {root : PageNo} {tree : OrdMap Bytes Bytes}
    (h : Rooted lay (idx :: indexes)) :
    Rooted (Function.update lay (indexOwner idx) (some (root, tree))) indexes where
  nodup := (List.nodup_cons.mp h.nodup).2
  planted idx' hmem := by
    have hne : indexOwner idx' ≠ indexOwner idx := fun heq =>
      (List.nodup_cons.mp h.nodup).1 (List.mem_map.mpr ⟨idx', hmem, indexOwner_inj heq⟩)
    rw [Function.update_of_ne hne]
    exact h.planted idx' (List.mem_cons_of_mem _ hmem)

theorem does_insertEntries (h : Housed f cat lay) (hrooted : Rooted lay indexes) :
    Does f (insertEntries schema row indexes)
      (fun roots f' => ∃ lay', Entered f cat lay indexes roots f' lay') fun _ => indexes ≠ [] := by
  induction indexes generalizing f lay with
  | nil => exact does_pure ⟨lay, entered_nil h⟩
  | cons idx rest ih =>
      obtain ⟨tree, htree⟩ := hrooted.planted idx List.mem_cons_self
      refine Looks.seq (looks_unwrap _) fun key _ => ?_
      refine Does.seq ((h.insert htree key []).mono (fun _ _ _ h => h) fun _ _ => by simp) ?_
      rintro (root : PageNo) f₁ - ⟨hevents, -, -, hhoused⟩
      refine Does.seq ((ih hhoused hrooted.tail).mono (fun _ _ _ h => h) fun _ _ => by simp) ?_
      rintro roots f₂ - ⟨lay₂, hentered⟩
      exact does_pure ⟨lay₂, hentered.cons hrooted hevents⟩

theorem does_deleteEntries (h : Housed f cat lay) (hrooted : Rooted lay indexes) :
    Does f (deleteEntries schema row indexes)
      (fun roots f' => ∃ lay', Entered f cat lay indexes roots f' lay') fun _ => False := by
  induction indexes generalizing f lay with
  | nil => exact does_pure ⟨lay, entered_nil h⟩
  | cons idx rest ih =>
      obtain ⟨tree, htree⟩ := hrooted.planted idx List.mem_cons_self
      refine Looks.seq (looks_unwrap _) fun key _ => ?_
      refine Does.seq ((h.delete htree key).mono (fun _ _ _ h => h) fun _ h => h.elim) ?_
      rintro ⟨present, root⟩ f₁ - ⟨hevents, -, hhoused⟩
      refine Does.seq (ih hhoused hrooted.tail) ?_
      rintro roots f₂ - ⟨lay₂, hentered⟩
      exact does_pure ⟨lay₂, hentered.cons hrooted hevents⟩

/-- What writing a row does: the table's tree is another map at another root. -/
structure Wrote (f : Forest) (cat : OrdMap Bytes Bytes) (lay : Layout) (o : Owner)
    (indexes : List IndexSchema) (tree : OrdMap Bytes Bytes) (roots : PageNo × IndexRoots)
    (f' : Forest) (lay' : Layout) : Prop where
  housed : Housed f' cat lay'
  events : f'.transactionEvents = f.transactionEvents
  tree : lay' o = some (roots.1, tree)
  names : roots.2.map Prod.fst = indexes.map IndexSchema.name
  rooted : Rooted lay' (withRoots roots.2 indexes)
  beside : Beside o indexes lay lay'

/-- First the tree of the table, then those of the indexes. -/
theorem Entered.wrote {root : PageNo} {tree : OrdMap Bytes Bytes} {roots : IndexRoots}
    {f₁ f' : Forest} {lay' : Layout} (hevents : f₁.transactionEvents = f.transactionEvents)
    (hne : ∀ idx ∈ indexes, o ≠ indexOwner idx)
    (h : Entered f₁ cat (Function.update lay o (some (root, tree))) indexes roots f' lay') :
    Wrote f cat lay o indexes tree (root, roots) f' lay' where
  housed := h.housed
  events := h.events.trans hevents
  tree := by rw [h.beside o hne, Function.update_self]
  names := h.names
  rooted := h.rooted
  beside o' ho' hindexes := by rw [h.beside o' hindexes, Function.update_of_ne ho']

theorem Rooted.update (h : Rooted lay indexes) (hne : ∀ idx ∈ indexes, o ≠ indexOwner idx)
    (tree : Option (PageNo × OrdMap Bytes Bytes)) : Rooted (Function.update lay o tree) indexes where
  nodup := h.nodup
  planted idx hmem := by
    rw [Function.update_of_ne (hne idx hmem).symm]
    exact h.planted idx hmem

/-- Why a row is refused. -/
def Refused (schema : TableSchema) (indexes : List IndexSchema) (m : OrdMap Bytes Bytes) (row : Row)
    (e : ExecError) : Prop :=
  checkValues (schema.columns.zip row) = .error e ∨
    (∃ key payload, rowKey schema row = some key ∧ encodeRow schema row = some payload ∧
      (pageSize < singleEntrySize key payload ∨
        e = .duplicatePrimaryKey ∧ m.get key ≠ none)) ∨ indexes ≠ []

theorem does_insertRow (h : Housed f cat lay) (ho : lay o = some (schema.rootPage, m))
    (hrooted : Rooted lay indexes) (hne : ∀ idx ∈ indexes, o ≠ indexOwner idx) :
    Does f (insertRow schema indexes row)
      (fun roots f' => checkValues (schema.columns.zip row) = .ok () ∧
        ∃ key payload lay', rowKey schema row = some key ∧ encodeRow schema row = some payload ∧
          m.get key = none ∧ singleEntrySize key payload ≤ pageSize ∧
          Wrote f cat lay o indexes (m.insert key payload) roots f' lay')
      (Refused schema indexes m row) := by
  refine Looks.seq (looks_ofOutcome fun e he => .inl he) fun _ hcheck => ?_
  refine Looks.seq (looks_unwrap _) fun key hkey => ?_
  refine Looks.seq (looks_unwrap _) fun payload hpayload => ?_
  refine Does.seq ((h.insert ho key payload).mono (fun _ _ _ h => h) fun e he => ?_) ?_
  · refine .inr (.inl ⟨key, payload, hkey, hpayload, ?_⟩)
    exact he.imp And.right fun h => ⟨h.1, h.2⟩
  · rintro (root : PageNo) f₁ - ⟨hevents, habsent, hsize, hhoused⟩
    refine Does.seq ((does_insertEntries hhoused (hrooted.update hne _)).mono (fun _ _ _ h => h)
      fun _ h => .inr (.inr h)) ?_
    rintro roots f₂ - ⟨lay₂, hentered⟩
    exact does_pure ⟨hcheck, key, payload, lay₂, hkey, hpayload, habsent, hsize,
      hentered.wrote hevents hne⟩

theorem does_deleteRow (h : Housed f cat lay) (ho : lay o = some (schema.rootPage, m))
    (hrooted : Rooted lay indexes) (hne : ∀ idx ∈ indexes, o ≠ indexOwner idx) :
    Does f (deleteRow schema indexes row)
      (fun roots f' => ∃ key lay', rowKey schema row = some key ∧
        Wrote f cat lay o indexes (m.erase key) roots f' lay') fun _ => False := by
  refine Looks.seq (looks_unwrap _) fun key hkey => ?_
  refine Does.seq ((h.delete ho key).mono (fun _ _ _ h => h) fun _ h => h.elim) ?_
  rintro ⟨present, root⟩ f₁ - ⟨hevents, -, hhoused⟩
  refine Does.seq (does_deleteEntries hhoused (hrooted.update hne _)) ?_
  rintro roots f₂ - ⟨lay₂, hentered⟩
  exact does_pure ⟨key, lay₂, hkey, hentered.wrote hevents hne⟩

theorem Beside.trans {lay' lay'' : Layout} {roots : IndexRoots} (h : Beside o indexes lay lay')
    (h' : Beside o (withRoots roots indexes) lay' lay'') : Beside o indexes lay lay'' :=
  fun o' ho' hindexes => (h' o' ho' (owners_withRoots.mpr hindexes)).trans (h o' ho' hindexes)

/-- A row is written where another was taken out. -/
theorem Wrote.again {tree tree' : OrdMap Bytes Bytes} {root : PageNo} {roots : IndexRoots}
    {roots' : PageNo × IndexRoots} {f₁ f' : Forest} {lay₁ lay' : Layout}
    (h : Wrote f cat lay o indexes tree (root, roots) f₁ lay₁)
    (h' : Wrote f₁ cat lay₁ o (withRoots roots indexes) tree' roots' f' lay') :
    Wrote f cat lay o indexes tree' roots' f' lay' where
  housed := h'.housed
  events := h'.events.trans h.events
  tree := h'.tree
  names := h'.names.trans (names_withRoots _ _)
  rooted := by
    rw [← withRoots_again (h'.names.trans (names_withRoots _ _))]
    exact h'.rooted
  beside := h.beside.trans h'.beside

theorem does_updateRow {oldRow newRow : Row} (h : Housed f cat lay)
    (ho : lay o = some (schema.rootPage, m)) (hrooted : Rooted lay indexes)
    (hne : ∀ idx ∈ indexes, o ≠ indexOwner idx) :
    Does f (updateRow schema indexes oldRow newRow)
      (fun roots f' => checkValues (schema.columns.zip newRow) = .ok () ∧
        ∃ old key payload lay', rowKey schema oldRow = some old ∧
          rowKey schema newRow = some key ∧ encodeRow schema newRow = some payload ∧
          (m.erase old).get key = none ∧ singleEntrySize key payload ≤ pageSize ∧
          Wrote f cat lay o indexes ((m.erase old).insert key payload) roots f' lay')
      fun e => ∃ old, rowKey schema oldRow = some old ∧
        Refused schema indexes (m.erase old) newRow e := by
  refine Does.seq ((does_deleteRow h ho hrooted hne).mono (fun _ _ _ h => h) fun _ h => h.elim) ?_
  rintro ⟨root, roots⟩ f₁ - ⟨old, lay₁, hold, hwrote⟩
  let now : TableSchema := { schema with rootPage := root }
  have hnow : lay₁ o = some (now.rootPage, m.erase old) := hwrote.tree
  refine (does_insertRow hwrote.housed hnow hwrote.rooted (owners_withRoots.mpr hne)).mono ?_
    fun e he => ⟨old, hold, ?_⟩
  · rintro roots' f₂ - ⟨hcheck, key, payload, lay₂, hkey, hpayload, habsent, hsize, hwrote'⟩
    exact ⟨hcheck, old, key, payload, lay₂, hold, hkey, hpayload, habsent, hsize,
      hwrote.again hwrote'⟩
  · refine he.imp_right fun h => h.imp_right fun hne' hnil => hne' ?_
    rw [hnil]
    rfl

/-! ## Loops over rows -/

/-- Where the loop has got to: the tree of the table and those of the indexes. -/
structure Reached (f : Forest) (cat : OrdMap Bytes Bytes) (lay : Layout) (o : Owner)
    (indexes : List IndexSchema) (tree : OrdMap Bytes Bytes) (p : Progress) (f' : Forest)
    (lay' : Layout) : Prop where
  housed : Housed f' cat lay'
  tree : lay' o = some (p.tableRoot, tree)
  rooted : Rooted lay' (withRoots p.indexRoots indexes)
  beside : Beside o indexes lay lay'

theorem lookup_start (idx : IndexSchema) (hmem : idx ∈ indexes)
    (hnodup : (indexes.map IndexSchema.name).Nodup) :
    (indexes.map fun idx => (idx.name, idx.rootPage)).lookup idx.name = some idx.rootPage := by
  have hfst : ((indexes.map fun idx => (idx.name, idx.rootPage)).map Prod.fst).Nodup := by
    rwa [List.map_map]
  exact (lookup_eq_some hfst).mpr (List.mem_map.mpr ⟨idx, hmem, rfl⟩)

theorem reached_start (h : Housed f cat lay) (ho : lay o = some (schema.rootPage, m))
    (hrooted : Rooted lay indexes) :
    Reached f cat lay o indexes m (.start schema indexes) f lay where
  housed := h
  tree := ho
  rooted := by
    have hsame : withRoots (Progress.start schema indexes).indexRoots indexes = indexes := by
      rw [withRoots]
      refine (List.map_congr_left fun idx hmem => ?_).trans (List.map_id indexes)
      rw [Progress.start, lookup_start idx hmem hrooted.nodup]
      rfl
    rwa [hsame]
  beside _ _ _ := rfl

theorem Reached.next {tree tree' : OrdMap Bytes Bytes} {p : Progress} {roots : PageNo × IndexRoots}
    {f₁ f' : Forest} {lay₁ lay' : Layout} (row : Row)
    (h : Reached f cat lay o indexes tree p f₁ lay₁)
    (hwrote : Wrote f₁ cat lay₁ o (withRoots p.indexRoots indexes) tree' roots f' lay') :
    Reached f cat lay o indexes tree' (p.next roots row) f' lay' where
  housed := hwrote.housed
  tree := hwrote.tree
  rooted := by
    have hnames : roots.2.map Prod.fst = indexes.map IndexSchema.name :=
      hwrote.names.trans (names_withRoots _ _)
    have hnodup : (indexes.map IndexSchema.name).Nodup := by
      rw [← names_withRoots p.indexRoots indexes]
      exact h.rooted.nodup
    have hrooted := hwrote.rooted
    rw [withRoots_again hnames] at hrooted
    rw [Progress.next, withRoots_merge hnames hnodup]
    exact hrooted
  beside := h.beside.trans hwrote.beside

/-! ## Recording the roots -/

variable {lib : Library} {stale : Set Bytes}

/-- A key whose record is right after all is not stale. -/
theorem sound_settle (h : Sound lib stale f cat lay) {key : Bytes}
    (howned : (lay (.record key)).map Prod.fst = (cat.get key).bind recordRoot) :
    Sound lib (stale \ {key}) f cat lay := by
  refine h.change h.toHoused fun key' => ?_
  by_cases heq : key' = key
  · exact .inl ⟨h.filed key', heq ▸ howned⟩
  · exact .inr ⟨fun hmem => ⟨hmem, heq⟩, rfl, rfl⟩

theorem isTable_insert_of_ne {key payload : Bytes} {schema : TableSchema}
    (hne : tableKey schema.name ≠ key) :
    IsTable (cat.insert key payload) schema ↔ IsTable cat schema := by
  have hget : (cat.insert key payload).get (tableKey schema.name) = cat.get (tableKey schema.name) := by
    rw [OrdMap.get_insert, if_neg hne]
  exact ⟨fun h => ⟨hget ▸ h.recorded, h.decodes⟩, fun h => ⟨hget.trans h.recorded, h.decodes⟩⟩

theorem isIndex_insert_of_ne {key payload : Bytes} {idx : IndexSchema}
    (hne : indexKey idx.name ≠ key) :
    IsIndex (cat.insert key payload) idx ↔ IsIndex cat idx := by
  have hget : (cat.insert key payload).get (indexKey idx.name) = cat.get (indexKey idx.name) := by
    rw [OrdMap.get_insert, if_neg hne]
  exact ⟨fun h => ⟨hget ▸ h.recorded, h.decodes⟩, fun h => ⟨hget.trans h.recorded, h.decodes⟩⟩

/-- The records of the indexes get the roots that their trees have now. -/
theorem does_updateIndexRoots {roots : IndexRoots} (h : Sound lib stale f cat lay)
    (hindexes : ∀ idx ∈ indexes, IsIndex cat idx) (hrooted : Rooted lay (withRoots roots indexes)) :
    Does f (updateIndexRoots roots indexes)
      (fun _ f' => f'.transactionEvents = f.transactionEvents ∧ ∃ cat', dictionary lib cat' = dictionary lib cat ∧
        (∀ name, cat'.get (tableKey name) = cat.get (tableKey name)) ∧
          Sound lib (stale \ {key | ∃ idx ∈ indexes, key = indexKey idx.name}) f' cat' lay)
      fun _ => False := by
  induction indexes generalizing f cat stale with
  | nil =>
      refine does_pure ⟨rfl, cat, rfl, fun _ => rfl, h.weaken fun key hkey => ⟨hkey, ?_⟩⟩
      rintro ⟨idx, hidx, -⟩
      cases hidx
  | cons idx rest ih =>
      have hidx := hindexes idx List.mem_cons_self
      obtain ⟨tree, htree⟩ := hrooted.planted _ (mem_withRoots.mpr ⟨idx, List.mem_cons_self, rfl⟩)
      have hnodup : ((idx :: rest).map IndexSchema.name).Nodup := by
        rw [← names_withRoots roots]
        exact hrooted.nodup
      have hrest : Rooted lay (withRoots roots rest) := by
        refine ⟨?_, fun idx' hmem => hrooted.planted idx' ?_⟩
        · rw [names_withRoots]
          exact (List.nodup_cons.mp hnodup).2
        · obtain ⟨idx', hidx, rfl⟩ := mem_withRoots.mp hmem
          exact mem_withRoots.mpr ⟨idx', List.mem_cons_of_mem _ hidx, rfl⟩
      have hgoal : ∀ {f₁ cat₁}, f₁.transactionEvents = f.transactionEvents → dictionary lib cat₁ = dictionary lib cat →
          (∀ name, cat₁.get (tableKey name) = cat.get (tableKey name)) →
          (∀ idx' ∈ rest, cat₁.get (indexKey idx'.name) = cat.get (indexKey idx'.name)) →
          Sound lib (stale \ {indexKey idx.name}) f₁ cat₁ lay →
          Does f₁ (updateIndexRoots roots rest) (fun _ f' =>
            f'.transactionEvents = f.transactionEvents ∧ ∃ cat', dictionary lib cat' = dictionary lib cat ∧
              (∀ name, cat'.get (tableKey name) = cat.get (tableKey name)) ∧
                Sound lib (stale \ {key | ∃ idx' ∈ idx :: rest, key = indexKey idx'.name}) f' cat' lay)
            fun _ => False := by
        intro f₁ cat₁ hevents hdict htables hkept hsound
        have hindexes₁ : ∀ idx' ∈ rest, IsIndex cat₁ idx' := fun idx' hmem =>
          ⟨(hkept idx' hmem).trans (hindexes idx' (List.mem_cons_of_mem _ hmem)).recorded,
            (hindexes idx' (List.mem_cons_of_mem _ hmem)).decodes⟩
        refine (ih hsound hindexes₁ hrest).mono ?_ fun _ h => h
        rintro _ f₂ - ⟨hevents₂, cat₂, hdict₂, htables₂, hsound₂⟩
        refine ⟨hevents₂.trans hevents, cat₂, hdict₂.trans hdict,
          fun name => (htables₂ name).trans (htables name), hsound₂.weaken ?_⟩
        rintro key ⟨⟨hstale, hne⟩, hrest⟩
        refine ⟨hstale, ?_⟩
        rintro ⟨idx', hmem, rfl⟩
        rcases List.mem_cons.mp hmem with rfl | hmem
        · exact hne rfl
        · exact hrest ⟨idx', hmem, rfl⟩
      have hstay : idx.rootPage = (roots.lookup idx.name).getD idx.rootPage →
          Sound lib (stale \ {indexKey idx.name}) f cat lay := fun heq => by
        refine sound_settle h ?_
        rw [hidx.recorded, Option.bind_some, recordRoot_index hidx.decodes, heq]
        exact congrArg (Option.map Prod.fst) htree
      unfold updateIndexRoots
      simp only
      split
      · refine Does.seq (h.updateIndexRoot hidx htree) ?_
        rintro _ f₁ - ⟨hevents, hsound⟩
        have hget := hsound.filed (indexKey idx.name) _ (by rw [OrdMap.get_insert, if_pos rfl])
        refine hgoal hevents (dictionary_indexRoot hidx (IsIndex.withRoot hget.2)) (fun name => ?_)
          (fun idx' hmem => ?_) hsound
        · rw [OrdMap.get_insert, if_neg (tableKey_ne_indexKey _ _)]
        · rw [OrdMap.get_insert, if_neg]
          intro heq
          exact (List.nodup_cons.mp hnodup).1
            (List.mem_map.mpr ⟨idx', hmem, indexKey_injective heq⟩)
      · next heq =>
          exact hgoal rfl rfl (fun _ => rfl) (fun _ _ => rfl) (hstay (not_not.mp heq).symm)

/-- The keys of the records that are stale while rows are written. -/
def writing (table : String) (indexes : List IndexSchema) : Set Bytes :=
  {key | key = tableKey table ∨ ∃ idx ∈ indexes, key = indexKey idx.name}

theorem does_recordRoots {p : Progress} (h : Sound lib (writing schema.name indexes) f cat lay)
    (ht : IsTable cat schema) (hindexes : ∀ idx ∈ indexes, IsIndex cat idx)
    (hlay : lay (.record (tableKey schema.name)) = some (p.tableRoot, m))
    (hrooted : Rooted lay (withRoots p.indexRoots indexes)) :
    Does f (recordRoots schema.name schema indexes p)
      (fun _ f' => f'.transactionEvents = f.transactionEvents ∧
        ∃ cat', dictionary lib cat' = dictionary lib cat ∧ IsTable cat' { schema with rootPage := p.tableRoot } ∧
          Sound lib ∅ f' cat' lay) fun _ => False := by
  have hgoal : ∀ {f₁ cat₁}, f₁.transactionEvents = f.transactionEvents → dictionary lib cat₁ = dictionary lib cat →
      (∀ idx ∈ indexes, IsIndex cat₁ idx) → IsTable cat₁ { schema with rootPage := p.tableRoot } →
      Sound lib (writing schema.name indexes \ {tableKey schema.name}) f₁ cat₁ lay →
      Does f₁ (updateIndexRoots p.indexRoots indexes) (fun _ f' =>
        f'.transactionEvents = f.transactionEvents ∧ ∃ cat', dictionary lib cat' = dictionary lib cat ∧
          IsTable cat' { schema with rootPage := p.tableRoot } ∧ Sound lib ∅ f' cat' lay)
        fun _ => False := by
    intro f₁ cat₁ hevents hdict hindexes₁ ht₁ hsound
    refine (does_updateIndexRoots hsound hindexes₁ hrooted).mono ?_ fun _ h => h
    rintro _ f₂ - ⟨hevents₂, cat₂, hdict₂, htables, hsound₂⟩
    refine ⟨hevents₂.trans hevents, cat₂, hdict₂.trans hdict,
      ⟨(htables _).trans ht₁.recorded, ht₁.decodes⟩, hsound₂.weaken ?_⟩
    rintro key ⟨⟨hmem, hne⟩, hrest⟩
    exact hmem.elim (fun heq => (hne heq).elim) fun hidx => (hrest hidx).elim
  unfold recordRoots
  split
  · refine Does.seq (h.updateTableRoot ht hlay) ?_
    rintro _ f₁ - ⟨hevents, hsound⟩
    have hget := hsound.filed (tableKey schema.name) _ (by rw [OrdMap.get_insert, if_pos rfl])
    have hdecode := ht.withRoot p.tableRoot hget.2
    refine hgoal hevents (dictionary_tableRoot ht hdecode) (fun idx hmem => ?_)
      ⟨by rw [OrdMap.get_insert, if_pos rfl], hdecode⟩ hsound
    exact (isIndex_insert_of_ne (tableKey_ne_indexKey _ _).symm).mpr (hindexes idx hmem)
  · next heq =>
      have heq : p.tableRoot = schema.rootPage := not_not.mp heq
      refine hgoal rfl rfl hindexes (by rw [heq]; exact ht) (sound_settle h ?_)
      rw [hlay, ht.recorded, Option.bind_some, recordRoot_table ht.decodes, heq]
      rfl

end Writes

end ChocoBase.Engine
