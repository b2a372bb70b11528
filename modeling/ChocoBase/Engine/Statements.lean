import ChocoBase.Engine.Reading
import ChocoBase.Engine.Writes

/-!
# Statements on a sound database

A statement that succeeds inside of a transaction leaves the catalog sound, and
changes its dictionary as `Dictionary.after` says.
-/

namespace ChocoBase.Engine

open ChocoBase.Foundation ChocoBase.Storage ChocoBase.BTree ChocoBase.Sql ChocoBase.Types
  ChocoBase.Auth ChocoBase.Catalog ChocoBase.Plan

section Statements

variable {lib : Library} {ctx : ExecutionContext} {f : Forest} {cat : OrdMap Bytes Bytes}
  {lay : Layout} {schema : TableSchema} {indexes : List IndexSchema} {m : OrdMap Bytes Bytes}

/-! ## Loops over rows -/

/-- Inside of a transaction an event is queued, and no tree changes. -/
theorem does_emit (h : Housed f cat lay) (hactive : f.atBegin.isSome) (table : String)
    (action : ChangeAction) (oldRow newRow : Option Row) :
    Does f (emit table action oldRow newRow) (fun _ f' => Housed f' cat lay) fun _ => False := by
  refine Looks.seq (looks_outside (.inl rfl)) fun now _ => ?_
  refine Looks.seq looks_inTransaction ?_
  rintro _ rfl
  rw [hactive]
  refine ⟨trivial, ?_, fun _ _ hfalse => hfalse.elim, fun _ _ _ => trivial⟩
  rintro _ f' rfl
  exact ⟨⟨_, _, _, [_], rfl⟩, h.laid, h.stored⟩

/-- The owner of a table is not that of an index. -/
theorem table_ne_index (schema : TableSchema) :
    ∀ idx ∈ indexes, Owner.record (tableKey schema.name) ≠ indexOwner idx :=
  fun _ _ heq => tableKey_ne_indexKey _ _ (Owner.record.inj heq)

theorem rooted_of_lists {table : String} (h : Sound lib ∅ f cat lay) (hlists : Lists cat table indexes) :
    Rooted lay indexes where
  nodup := hlists.nodup
  planted idx hmem := h.indexTree ((hlists.mem idx).mp hmem).1 (Set.notMem_empty _)

/-- While rows are written, the records of their trees are stale. -/
theorem Reached.sound {tree : OrdMap Bytes Bytes} {p : Progress} {f' : Forest} {lay' : Layout}
    (h : Sound lib ∅ f cat lay)
    (hreached : Reached f cat lay (.record (tableKey schema.name)) indexes tree p f' lay') :
    Sound lib (writing schema.name indexes) f' cat lay' where
  toHoused := hreached.housed
  filed := h.filed
  owned key hkey := by
    rw [hreached.beside (.record key)]
    · exact h.owned key (Set.notMem_empty _)
    · exact fun heq => hkey (.inl (Owner.record.inj heq))
    · exact fun idx hmem heq => hkey (.inr ⟨idx, hmem, Owner.record.inj heq⟩)

/-- What a statement that only changes rows does to a table. -/
structure Rewritten (lib : Library) (cat : OrdMap Bytes Bytes) (lay : Layout) (schema : TableSchema)
    (indexes : List IndexSchema) (tree : OrdMap Bytes Bytes) (f' : Forest) : Prop where
  exists_sound : ∃ cat' lay' root, Sound lib ∅ f' cat' lay' ∧
    dictionary lib cat' = dictionary lib cat ∧ IsTable cat' { schema with rootPage := root } ∧
    lay' (.record (tableKey schema.name)) = some (root, tree) ∧
    Beside (.record (tableKey schema.name)) indexes lay lay'

/-- The roots that a loop has reached are recorded. -/
theorem Reached.record (h : Sound lib ∅ f cat lay) (ht : IsTable cat schema)
    (hlists : Lists cat schema.name indexes) {tree : OrdMap Bytes Bytes} {p : Progress}
    {f' : Forest} {lay' : Layout}
    (hreached : Reached f cat lay (.record (tableKey schema.name)) indexes tree p f' lay') :
    Does f' (recordRoots schema.name schema indexes p)
      (fun _ f'' => Rewritten lib cat lay schema indexes tree f'') fun _ => False := by
  refine (does_recordRoots (hreached.sound h) ht (fun idx hmem => ((hlists.mem idx).mp hmem).1)
    hreached.tree hreached.rooted).mono ?_ fun _ h => h
  rintro _ f'' - ⟨-, cat', hdict, ht', hsound⟩
  exact ⟨cat', lay', p.tableRoot, hsound, hdict, ht', hreached.tree, hreached.beside⟩

/-! ## INSERT -/

/-- The rows go into the tree one after another; each is new, and its entry fits a page. -/
inductive Inserted (schema : TableSchema) (m : OrdMap Bytes Bytes) :
    List Row → OrdMap Bytes Bytes → Prop where
  | nil : Inserted schema m [] m
  | snoc {rows : List Row} {row : Row} {tree : OrdMap Bytes Bytes} {key payload : Bytes}
      (before : Inserted schema m rows tree)
      (values : checkValues (schema.columns.zip row) = .ok ())
      (hkey : rowKey schema row = some key) (hpayload : encodeRow schema row = some payload)
      (absent : tree.get key = none) (fits : singleEntrySize key payload ≤ pageSize) :
      Inserted schema m (rows ++ [row]) (tree.insert key payload)

/-- The row that an expression row stands for passes the checks. -/
def Accepted (lib : Library) (ctx : ExecutionContext) (schema : TableSchema)
    (columns : Option (List String)) (policies : Option (List PolicySchema)) (exprRow : List Expr)
    (row : Row) : Prop :=
  fullRow lib schema columns exprRow = .ok row ∧
    checkNotNull (schema.columns.zip row) = .ok () ∧ checkPolicies lib ctx schema policies row = .ok ()

/-- Why the loop stops at a row. -/
def Rejected (lib : Library) (ctx : ExecutionContext) (schema : TableSchema)
    (columns : Option (List String)) (policies : Option (List PolicySchema))
    (indexes : List IndexSchema) (tree : OrdMap Bytes Bytes) (exprRow : List Expr) (e : DbError) :
    Prop :=
  fullRow lib schema columns exprRow = .error e ∨
    ∃ row, fullRow lib schema columns exprRow = .ok row ∧
      (checkNotNull (schema.columns.zip row) = .error e ∨
        checkPolicies lib ctx schema policies row = .error e ∨
        ∃ e', e = .exec e' ∧ Refused schema indexes tree row e')

theorem refused_withRoots {roots : IndexRoots} {root : PageNo} {row : Row} {e : ExecError}
    (h : Refused { schema with rootPage := root } (withRoots roots indexes) m row e) :
    Refused schema indexes m row e :=
  h.imp_right fun h => h.imp_right fun hne hnil => hne (by rw [hnil]; rfl)

theorem does_insertOne {columns : Option (List String)} {policies : Option (List PolicySchema)}
    {p : Progress} {exprRow : List Expr} {tree : OrdMap Bytes Bytes} {f₀ : Forest} {o : Owner}
    {lay₀ : Layout} (hreached : Reached f₀ cat lay₀ o indexes tree p f lay)
    (hne : ∀ idx ∈ indexes, o ≠ indexOwner idx) (hactive : f.atBegin.isSome) (table : String) :
    Does f (insertOne lib ctx table schema indexes columns policies p exprRow)
      (fun p' f' => ∃ row key payload lay', Accepted lib ctx schema columns policies exprRow row ∧
        checkValues (schema.columns.zip row) = .ok () ∧ rowKey schema row = some key ∧
        encodeRow schema row = some payload ∧ tree.get key = none ∧
        singleEntrySize key payload ≤ pageSize ∧ p'.affected = p.affected ++ [row] ∧
        Reached f₀ cat lay₀ o indexes (tree.insert key payload) p' f' lay')
      (Rejected lib ctx schema columns policies indexes tree exprRow) := by
  refine Looks.seq (looks_ofOutcome fun e he => .inl he) fun row hrow => ?_
  refine Looks.seq (looks_ofOutcome fun e he => .inr ⟨row, hrow, .inl he⟩) fun _ hnull => ?_
  refine Looks.seq (looks_ofOutcome fun e he => .inr ⟨row, hrow, .inr (.inl he)⟩) fun _ hpolicy => ?_
  have hlaid : lay o = some ((p.schema schema).rootPage, tree) := hreached.tree
  refine Does.seq (Does.mapError (does_insertRow hreached.housed hlaid hreached.rooted
    (owners_withRoots.mpr hne)) fun e he => .inr ⟨row, hrow, .inr (.inr ⟨e, rfl, refused_withRoots he⟩)⟩) ?_
  rintro roots f₁ hworking ⟨hvalues, key, payload, lay₁, hkey, hpayload, habsent, hsize, hwrote⟩
  have hactive₁ : f₁.atBegin.isSome := by rwa [hworking.atBegin]
  refine Does.seq ((does_emit hwrote.housed hactive₁ _ _ _ _).mono (fun _ _ _ h => h)
    fun _ h => h.elim) ?_
  rintro _ f₂ - hhoused
  refine does_pure ⟨row, key, payload, lay₁, ⟨hrow, hnull, hpolicy⟩, hvalues, hkey, hpayload, habsent,
    hsize, rfl, ?_⟩
  exact { hreached.next row hwrote with housed := hhoused }

/-- An admin is not asked for policies. -/
theorem looks_insertPolicies {E : DbError → Prop} (h : Sound lib ∅ f cat lay) (schema : TableSchema)
    (table : String) (herror : ∀ e, ctx.isAdmin = false → E e) :
    Looks f (insertPolicies lib ctx schema table)
      (fun policies => ctx.isAdmin = true → policies = none) E := by
  refine does_ite (fun hforced => ?_) fun _ => looks_pure fun _ => rfl
  have hadmin : ctx.isAdmin = false := by
    simp only [Bool.and_eq_true] at hforced
    simpa using hforced.2
  refine Looks.seq (h.listPolicies table) fun policies _ => ?_
  refine does_ite (fun _ => does_throw (herror _ hadmin)) fun _ => looks_pure fun h => ?_
  rw [h] at hadmin
  cases hadmin

/-- The first rows of a statement went into the tree. -/
structure InsertedFirst (lib : Library) (ctx : ExecutionContext) (schema : TableSchema)
    (columns : Option (List String)) (policies : Option (List PolicySchema))
    (m : OrdMap Bytes Bytes) (exprRows : List (List Expr)) (rows : List Row)
    (tree : OrdMap Bytes Bytes) : Prop where
  accepted : List.Forall₂ (Accepted lib ctx schema columns policies) exprRows rows
  inserted : Inserted schema m rows tree

theorem does_insertRows {columns : Option (List String)} {policies : Option (List PolicySchema)}
    (h : Sound lib ∅ f cat lay) (hlists : Lists cat schema.name indexes)
    (hlay : lay (.record (tableKey schema.name)) = some (schema.rootPage, m))
    (hactive : f.atBegin.isSome) (exprRows : List (List Expr)) :
    Does f (Prog.forEach (insertOne lib ctx schema.name schema indexes columns policies) exprRows
        (.start schema indexes))
      (fun p f' => ∃ tree lay',
        InsertedFirst lib ctx schema columns policies m exprRows p.affected tree ∧
        Reached f cat lay (.record (tableKey schema.name)) indexes tree p f' lay')
      fun e => ∃ before exprRow after rows tree, exprRows = before ++ exprRow :: after ∧
        InsertedFirst lib ctx schema columns policies m before rows tree ∧
        Rejected lib ctx schema columns policies indexes tree exprRow e := by
  refine does_forEach (fun before p f' => ∃ tree lay',
    InsertedFirst lib ctx schema columns policies m before p.affected tree ∧
    Reached f cat lay (.record (tableKey schema.name)) indexes tree p f' lay') ?_
    (fun _ _ h => h) ⟨m, lay, ⟨.nil, .nil⟩, reached_start h.toHoused hlay (rooted_of_lists h hlists)⟩
  rintro before exprRow after p f' rfl hworking ⟨tree, lay', hfirst, hreached⟩
  have hactive' : f'.atBegin.isSome := by rwa [hworking.atBegin]
  refine (does_insertOne hreached (table_ne_index schema) hactive' schema.name).mono ?_
    fun e he => ⟨before, exprRow, after, p.affected, tree, rfl, hfirst, he⟩
  rintro p' f'' - ⟨row, key, payload, lay'', haccepted, hvalues, hkey, hpayload, habsent, hfits,
    haffected, hreached'⟩
  refine ⟨_, lay'', ⟨?_, ?_⟩, hreached'⟩
  · rw [haffected]
    exact List.rel_append hfirst.accepted (.cons haccepted .nil)
  · rw [haffected]
    exact .snoc hfirst.inserted hvalues hkey hpayload habsent hfits

/-- The table of a statement with its tree, as the statement finds them. -/
structure Found (cat : OrdMap Bytes Bytes) (lay : Layout) (table : String) (schema : TableSchema)
    (indexes : List IndexSchema) (m : OrdMap Bytes Bytes) : Prop where
  name : schema.name = table
  table : IsTable cat schema
  lists : Lists cat schema.name indexes
  tree : lay (.record (tableKey schema.name)) = some (schema.rootPage, m)

theorem does_executeInsert {table : String} {columns : Option (List String)}
    {exprRows : List (List Expr)} {returning : Option SelectColumns} (h : Sound lib ∅ f cat lay)
    (hactive : f.atBegin.isSome) :
    Does f (executeInsert lib ctx table columns exprRows returning)
      (fun res f' => ∃ schema indexes m policies rows tree, Found cat lay table schema indexes m ∧
        (ctx.isAdmin = true → policies = none) ∧
        InsertedFirst lib ctx schema columns policies m exprRows rows tree ∧
        finishDml lib ctx schema rows returning = .ok res ∧
        Rewritten lib cat lay schema indexes tree f')
      fun e => cat.get (tableKey table) = none ∨ ctx.isAdmin = false ∨
        ∃ schema indexes m policies, Found cat lay table schema indexes m ∧
          (ctx.isAdmin = true → policies = none) ∧
          ((∃ before exprRow after rows tree, exprRows = before ++ exprRow :: after ∧
              InsertedFirst lib ctx schema columns policies m before rows tree ∧
              Rejected lib ctx schema columns policies indexes tree exprRow e) ∨
            ∃ rows, finishDml lib ctx schema rows returning = .error e) := by
  refine Looks.seq ((h.requireTable table).mono (fun _ _ _ h => h) fun _ he => .inl he.2) ?_
  rintro schema ⟨rfl, ht⟩
  obtain ⟨m, hlay⟩ := h.tree ht (Set.notMem_empty _)
  refine Looks.seq (h.listIndexes schema.name) fun indexes hlists => ?_
  have hfound : Found cat lay schema.name schema indexes m := ⟨rfl, ht, hlists, hlay⟩
  refine Looks.seq (looks_insertPolicies h schema schema.name fun e hadmin => .inr (.inl hadmin))
    fun policies hpolicies => ?_
  refine Does.seq ((does_insertRows h hlists hlay hactive exprRows).mono (fun _ _ _ h => h)
    fun e he => .inr (.inr ⟨schema, indexes, m, policies, hfound, hpolicies, .inl he⟩)) ?_
  rintro p f₁ - ⟨tree, lay₁, hfirst, hreached⟩
  refine Does.seq ((hreached.record h ht hlists).mono (fun _ _ _ h => h) fun _ h => h.elim) ?_
  rintro _ f₂ - hrewritten
  refine (looks_ofOutcome fun e he =>
    .inr (.inr ⟨schema, indexes, m, policies, hfound, hpolicies, .inr ⟨p.affected, he⟩⟩)).mono ?_
    fun _ h => h
  rintro res f₃ - ⟨rfl, hres⟩
  exact ⟨schema, indexes, m, policies, p.affected, tree, hfound, hpolicies, hfirst, hres, hrewritten⟩

/-! ## UPDATE and DELETE -/

/-- The rows that a statement is about, and their table. -/
theorem views_selectRows {execute : Statement → DbProg DbError ExecResult}
    (h : Sound lib ∅ f cat lay) (hplain : Unforced lib cat ctx)
    (hexecute : ∀ stmt, Query stmt → Peeks f (execute stmt)) (table : String) (cmd : PolicyCmd)
    {whereClause : Option Expr} (hwhere : Asking whereClause) :
    Views f (selectRows lib ctx execute table cmd whereClause)
      (fun found => ∃ m, Found cat lay table found.1 found.2.1 m) fun _ => True := by
  refine Views.seq (views_applyRlsFilter h hplain table cmd hwhere) fun whereClause hasking => ?_
  refine Views.seq (peeks_resolveWhere fun w hw stmt hmem => hexecute _ (hasking w hw stmt hmem))
    fun whereClause _ => ?_
  refine Views.seq ((h.views_requireTable table).mono (fun _ h => h) fun _ _ => trivial) ?_
  rintro schema ⟨rfl, ht⟩
  refine Views.seq (h.views_listIndexes schema.name) fun indexes hlists => ?_
  obtain ⟨m, hlay⟩ := h.tree ht (Set.notMem_empty _)
  exact views_pure ⟨m, rfl, ht, hlists, hlay⟩

theorem peeks_readAll {table : String} (h : Sound lib ∅ f cat lay)
    (hfound : Found cat lay table schema indexes m) (whereClause : Option Expr)
    (ctx : ExecutionContext) : Peeks f (readAll lib schema indexes whereClause ctx) :=
  peeks_plan h hfound.table hfound.lists fun _ => peeks_collectRows _

/-- A loop over rows that only writes them. -/
theorem does_rewriteRows {body : Progress → Row → DbProg DbError Progress} {table : String}
    (h : Sound lib ∅ f cat lay) (hfound : Found cat lay table schema indexes m)
    (hactive : f.atBegin.isSome) {returning : Option SelectColumns} {rows : List Row}
    (hbody : ∀ {f' lay' tree p} row, f'.atBegin.isSome →
      Reached f cat lay (.record (tableKey schema.name)) indexes tree p f' lay' →
      Does f' (body p row) (fun p' f'' => ∃ tree' lay'',
        Reached f cat lay (.record (tableKey schema.name)) indexes tree' p' f'' lay'') fun _ => True) :
    Does f (do
        let p ← Prog.forEach body rows (.start schema indexes)
        recordRoots table schema indexes p
        Prog.ofOutcome (finishDml lib ctx schema p.affected returning))
      (fun _ f' => ∃ tree, Rewritten lib cat lay schema indexes tree f') fun _ => True := by
  obtain ⟨rfl, ht, hlists, hlay⟩ := hfound
  refine Does.seq (does_forEach (Q := fun p f' => ∃ tree lay',
    Reached f cat lay (.record (tableKey schema.name)) indexes tree p f' lay')
    (fun _ p f' => ∃ tree lay',
      Reached f cat lay (.record (tableKey schema.name)) indexes tree p f' lay') ?_ (fun _ _ h => h)
    ⟨m, lay, reached_start h.toHoused hlay (rooted_of_lists h hlists)⟩) ?_
  · rintro _ row _ p f' - hworking ⟨tree, lay', hreached⟩
    exact hbody row (by rwa [hworking.atBegin]) hreached
  · rintro p f₁ - ⟨tree, lay₁, hreached⟩
    refine Does.seq ((hreached.record h ht hlists).mono (fun _ _ _ h => h) fun _ h => h.elim) ?_
    rintro _ f₂ - hrewritten
    refine (looks_ofOutcome fun _ _ => trivial).mono ?_ fun _ h => h
    rintro res f₃ - ⟨rfl, -⟩
    exact ⟨tree, hrewritten⟩

/-- A statement has kept the catalog sound and changed its dictionary. -/
def Kept (lib : Library) (cat : OrdMap Bytes Bytes) (stmt : Statement) (f' : Forest) : Prop :=
  ∃ cat' lay', Sound lib ∅ f' cat' lay' ∧
    (dictionary lib cat).after lib stmt = some (dictionary lib cat')

theorem Rewritten.kept {tree : OrdMap Bytes Bytes} {stmt : Statement} {f' : Forest}
    (hstmt : (dictionary lib cat).after lib stmt = some (dictionary lib cat))
    (h : Rewritten lib cat lay schema indexes tree f') : Kept lib cat stmt f' := by
  obtain ⟨cat', lay', root, hsound, hdict, -⟩ := h
  exact ⟨cat', lay', hsound, hdict ▸ hstmt⟩

theorem does_executeUpdate {execute : Statement → DbProg DbError ExecResult}
    (h : Sound lib ∅ f cat lay) (hplain : Unforced lib cat ctx) (hactive : f.atBegin.isSome)
    (hexecute : ∀ stmt, Query stmt → Peeks f (execute stmt)) {table : String}
    {assignments : List (String × Expr)} {whereClause : Option Expr}
    {returning : Option SelectColumns} (hwhere : Asking whereClause) :
    Does f (executeUpdate lib ctx execute table assignments whereClause returning)
      (fun _ f' => Kept lib cat (.update table assignments whereClause returning) f')
      fun _ => True := by
  refine Looks.seq (views_selectRows h hplain hexecute table .update hwhere).looks ?_
  rintro ⟨schema, indexes, whereClause⟩ ⟨m, hfound⟩
  refine Looks.seq (peeks_ofOutcome _).looks fun assignments _ => ?_
  refine Looks.seq (peeks_readAll h hfound whereClause ctx).looks fun oldRows _ => ?_
  refine (does_rewriteRows h hfound hactive fun {f' lay' tree p} row hactive' hreached => ?_).mono
    (fun _ f' _ ⟨tree, hrewritten⟩ => hrewritten.kept rfl) fun _ h => h
  refine Looks.seq (looks_ofOutcome fun _ _ => trivial) fun newRow _ => ?_
  have hlaid : lay' (.record (tableKey schema.name)) = some ((p.schema schema).rootPage, tree) :=
    hreached.tree
  refine Does.seq (Does.mapError (does_updateRow hreached.housed hlaid hreached.rooted
    (owners_withRoots.mpr (table_ne_index schema))) fun _ _ => trivial) ?_
  rintro roots f₁ hworking ⟨-, old, key, payload, lay₁, -, -, -, -, -, hwrote⟩
  refine Does.seq ((does_emit hwrote.housed (by rwa [hworking.atBegin]) _ _ _ _).mono
    (fun _ _ _ h => h) fun _ h => h.elim) ?_
  rintro _ f₂ - hhoused
  exact does_pure ⟨_, lay₁, { hreached.next newRow hwrote with housed := hhoused }⟩

theorem does_executeDelete {execute : Statement → DbProg DbError ExecResult}
    (h : Sound lib ∅ f cat lay) (hplain : Unforced lib cat ctx) (hactive : f.atBegin.isSome)
    (hexecute : ∀ stmt, Query stmt → Peeks f (execute stmt)) {table : String}
    {whereClause : Option Expr} {returning : Option SelectColumns} (hwhere : Asking whereClause) :
    Does f (executeDelete lib ctx execute table whereClause returning)
      (fun _ f' => Kept lib cat (.delete table whereClause returning) f') fun _ => True := by
  refine Looks.seq (views_selectRows h hplain hexecute table .delete hwhere).looks ?_
  rintro ⟨schema, indexes, whereClause⟩ ⟨m, hfound⟩
  refine Looks.seq (peeks_readAll h hfound whereClause ctx).looks fun rows _ => ?_
  refine (does_rewriteRows h hfound hactive fun {f' lay' tree p} row hactive' hreached => ?_).mono
    (fun _ f' _ ⟨tree, hrewritten⟩ => hrewritten.kept rfl) fun _ h => h
  have hlaid : lay' (.record (tableKey schema.name)) = some ((p.schema schema).rootPage, tree) :=
    hreached.tree
  refine Does.seq (Does.mapError ((does_deleteRow hreached.housed hlaid hreached.rooted
    (owners_withRoots.mpr (table_ne_index schema))).mono (fun _ _ _ h => h) fun _ h => h.elim)
    fun _ (h : False) => h.elim) ?_
  rintro roots f₁ hworking ⟨key, lay₁, -, hwrote⟩
  refine Does.seq ((does_emit hwrote.housed (by rwa [hworking.atBegin]) _ _ _ _).mono
    (fun _ _ _ h => h) fun _ h => h.elim) ?_
  rintro _ f₂ - hhoused
  exact does_pure ⟨_, lay₁, { hreached.next row hwrote with housed := hhoused }⟩

end Statements

end ChocoBase.Engine
