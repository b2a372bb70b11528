import ChocoBase.Engine.Execute
import ChocoBase.Foundation.Returns

/-!
# Rows that are read back

A statement writes a row of values; their kinds come from its literals and
expressions.  The row is read back by the types of the columns, so it comes back only
if each value is of its column's type.
-/

namespace ChocoBase.Engine

open ChocoBase.Foundation ChocoBase.Storage ChocoBase.Sql ChocoBase.Types ChocoBase.Auth
  ChocoBase.Catalog ChocoBase.Plan

/-! ## Values one after another -/

/-- What is set last at a position. -/
def lastSet {α : Type} : List (Nat × α) → Nat → Option α
  | [], _ => none
  | (j, a) :: rest, i => (lastSet rest i).or (if j = i then some a else none)

/-- Set the columns at the given positions, each to its value. -/
def setAll (value : Nat × Expr → Outcome DbError Value) :
    List (Nat × Expr) → Row → Outcome DbError Row
  | [], row => .ok row
  | set :: rest, row => (value set).bind fun v => setAll value rest (row.set set.1 v)

section Sets

variable {value : Nat × Expr → Outcome DbError Value} {sets : List (Nat × Expr)} {row row' : Row}

theorem setAll_length (h : setAll value sets row = .ok row') : row'.length = row.length := by
  induction sets generalizing row with
  | nil => cases h; rfl
  | cons set sets ih =>
      obtain ⟨v, -, hrest⟩ := Outcome.bind_eq_ok.mp h
      rw [ih hrest, List.length_set]

/-- The value of a column after the last setting of it, or else the one before all. -/
theorem setAll_fits (cols : List Column) (fits : ColumnType → Expr → Prop)
    (hvalue : ∀ set ∈ sets, ∀ col v, cols[set.1]? = some col → value set = .ok v →
      (v.Typed col.ty ↔ fits col.ty set.2))
    (hlength : row.length = cols.length) (h : setAll value sets row = .ok row') :
    (∀ (i : Nat) (col : Column), cols[i]? = some col → ∀ v, row'[i]? = some v →
      v.Typed col.ty) ↔ ∀ (i : Nat) (col : Column), cols[i]? = some col →
        match lastSet sets i with
        | some e => fits col.ty e
        | none => ∀ v, row[i]? = some v → v.Typed col.ty := by
  induction sets generalizing row with
  | nil =>
      cases h
      rfl
  | cons set sets ih =>
      obtain ⟨v, hv, hrest⟩ := Outcome.bind_eq_ok.mp h
      rw [ih (fun s hs => hvalue s (List.mem_cons_of_mem _ hs)) (by simpa using hlength) hrest]
      refine forall₃_congr fun i col hcol => ?_
      obtain ⟨j, e⟩ := set
      rw [lastSet]
      cases lastSet sets i with
      | some e' => rfl
      | none =>
          by_cases hij : j = i
          · subst hij
            have hlt : j < row.length := by
              rw [hlength]
              exact (List.getElem?_eq_some_iff.mp hcol).1
            simp [hlt, hvalue (j, e) List.mem_cons_self col v hcol hv]
          · simp [hij]

end Sets

/-! ## What is written -/

/-- A row that a statement writes. -/
inductive Write where
  | insert (columns : Option (List String)) (exprRow : List Expr)
  | update (oldRow : Row) (assignments : List (Nat × Expr))

section Writes

variable (lib : Library) (ctx : ExecutionContext) (schema : TableSchema)

/-- The literals that a column of the type takes. -/
def Suits (ty : ColumnType) : Expr → Bool
  | .intLiteral _ => ty = .integer || ty = .float
  | .floatLiteral _ => ty = .float
  | .stringLiteral s =>
      match ty with
      | .text | .json => true
      | .vector _ =>
          match lib.parseVector s with
          | .ok xs => xs.length < 65536
          | .error _ => false
      | _ => false
  | .boolLiteral _ => ty = .boolean
  | .null => true
  | _ => false

namespace Write

def row : Write → Outcome DbError Row
  | .insert columns exprRow => fullRow lib schema columns exprRow
  | .update oldRow assignments => assign lib ctx schema oldRow assignments oldRow

/-- The positions of the columns and what is written there, in order. -/
def sets : Write → List (Nat × Expr)
  | .insert none exprRow => (List.range exprRow.length).zip exprRow
  | .insert (some names) exprRow =>
      (names.zip exprRow).filterMap fun (name, e) => (schema.columnIndex name).map (·, e)
  | .update _ assignments => assignments

/-- The expression gives a value of the type. -/
def Fits (w : Write) (ty : ColumnType) (e : Expr) : Prop :=
  match w with
  | .insert .. => Suits lib ty e
  | .update oldRow _ => ∀ v, evalWithContext lib schema oldRow ctx e = .ok v → v.Typed ty

/-- What is written last in a column gives a value of its type. -/
def Suited (w : Write) : Prop :=
  ∀ (i : Nat) (col : Column), schema.columns[i]? = some col →
    ∀ e, lastSet (w.sets schema) i = some e → w.Fits lib ctx schema col.ty e

end Write

end Writes

section Writes

variable {lib : Library} {ctx : ExecutionContext} {schema : TableSchema}

theorem literal_typed_iff {e : Expr} {ty : ColumnType} {v : Value}
    (h : literalToValueTyped lib e (some ty) = .ok v) : v.Typed ty ↔ Suits lib ty e := by
  cases e with
  | intLiteral n => cases ty <;> cases h <;> simp [Value.Typed, Suits]
  | floatLiteral x => cases h; cases ty <;> simp [Value.Typed, Suits]
  | boolLiteral b => cases h; cases ty <;> simp [Value.Typed, Suits]
  | null => cases h; cases ty <;> simp [Value.Typed, Suits]
  | stringLiteral s =>
      cases ty with
      | json =>
          simp only [literalToValueTyped] at h
          split at h <;> cases h
          simp [Value.Typed, Suits]
      | vector dim =>
          simp only [literalToValueTyped] at h
          cases hparse : lib.parseVector s with
          | error e => rw [hparse] at h; cases h
          | ok xs =>
              rw [hparse] at h
              simp only at h
              split at h <;> cases h
              simp [Value.Typed, Suits, hparse]
      | _ => cases h; simp [Value.Typed, Suits]
  | _ => cases h

theorem setLiterals_eq (sets : List (Nat × Expr)) (row : Row) :
    setLiterals lib schema sets row = setAll (fun set => (Outcome.unwrap schema.columns[set.1]?).bind
      fun col => literalToValueTyped lib set.2 (some col.ty)) sets row := by
  induction sets generalizing row with
  | nil => rfl
  | cons set sets ih =>
      obtain ⟨idx, e⟩ := set
      simp only [setLiterals, setAll, ih]
      cases schema.columns[idx]? <;> rfl

theorem setNamed_eq {sets : List (String × Expr)} {row row' : Row}
    (h : setNamed lib schema sets row = .ok row') :
    setLiterals lib schema (sets.filterMap fun (name, e) => (schema.columnIndex name).map (·, e)) row =
      .ok row' := by
  induction sets generalizing row with
  | nil => exact h
  | cons set sets ih =>
      obtain ⟨name, e⟩ := set
      cases hidx : schema.columnIndex name with
      | none => simp [setNamed, hidx] at h
      | some idx =>
          rw [List.filterMap_cons_some (b := (idx, e)) (by simp [hidx])]
          simp only [setNamed, hidx] at h
          obtain ⟨row₁, hfirst, hrest⟩ := Outcome.bind_eq_ok.mp h
          rw [setLiterals] at hfirst ⊢
          obtain ⟨col, hcol, hset⟩ := Outcome.bind_eq_ok.mp hfirst
          obtain ⟨v, hv, heq⟩ := Outcome.bind_eq_ok.mp hset
          cases heq
          exact Outcome.bind_eq_ok.mpr ⟨col, hcol, Outcome.bind_eq_ok.mpr ⟨v, hv, ih hrest⟩⟩

theorem assign_eq (oldRow : Row) (sets : List (Nat × Expr)) (row : Row) :
    assign lib ctx schema oldRow sets row = setAll (fun set =>
      (evalWithContext lib schema oldRow ctx set.2).mapError .plan) sets row := by
  induction sets generalizing row with
  | nil => rfl
  | cons set sets ih => simp only [assign, setAll, ih]

theorem replicate_null_typed {i : Nat} {col : Column} {v : Value} {n : Nat}
    (h : (List.replicate n Value.null)[i]? = some v) : v.Typed col.ty := by
  obtain rfl := List.eq_of_mem_replicate (List.mem_of_getElem? h)
  cases col.ty <;> trivial

theorem Write.insert_typed_iff {columns : Option (List String)} {exprRow : List Expr} {row : Row}
    (h : fullRow lib schema columns exprRow = .ok row) :
    RowTyped schema row ↔ (Write.insert columns exprRow).Suited lib ctx schema := by
  have hsets : setLiterals lib schema ((Write.insert columns exprRow).sets schema)
      (List.replicate schema.columns.length .null) = .ok row := by
    unfold fullRow at h
    cases columns with
    | none =>
        simp only at h
        split at h
        · cases h
        · exact h
    | some names =>
        simp only at h
        split at h
        · cases h
        · exact setNamed_eq h
  rw [setLiterals_eq] at hsets
  have hlength := setAll_length hsets
  rw [List.length_replicate] at hlength
  rw [rowTyped_iff hlength, setAll_fits schema.columns (fun ty e => Suits lib ty e) ?_ (by simp) hsets]
  · refine forall₃_congr fun i col hcol => ?_
    cases lastSet ((Write.insert columns exprRow).sets schema) i with
    | none => simpa using fun v hv => replicate_null_typed hv
    | some e => simp [Write.Fits]
  · intro set _ col v hcol hv
    obtain ⟨col', hcol', hv⟩ := Outcome.bind_eq_ok.mp hv
    rw [hcol] at hcol'
    cases hcol'
    exact literal_typed_iff hv

theorem Write.update_typed_iff {oldRow : Row} {assignments : List (Nat × Expr)} {row : Row}
    (hold : RowTyped schema oldRow)
    (h : assign lib ctx schema oldRow assignments oldRow = .ok row) :
    RowTyped schema row ↔ (Write.update oldRow assignments).Suited lib ctx schema := by
  rw [assign_eq] at h
  have hlength := (setAll_length h).trans hold.length_eq.symm
  have hbase := (rowTyped_iff hold.length_eq.symm).mp hold
  rw [rowTyped_iff hlength, setAll_fits schema.columns
    (fun ty e => ∀ v, evalWithContext lib schema oldRow ctx e = .ok v → v.Typed ty) ?_
    hold.length_eq.symm h]
  · refine forall₃_congr fun i col hcol => ?_
    rw [Write.sets]
    cases lastSet assignments i with
    | none => simpa using hbase i col hcol
    | some e => simp [Write.Fits]
  · intro set _ col v _ hv
    have heval := Outcome.mapError_eq_ok.mp hv
    simp [heval]

/-- The row is one of the columns' types exactly if what was written suits them. -/
theorem Write.typed_iff {w : Write} {row : Row}
    (hold : ∀ oldRow assignments, w = .update oldRow assignments → RowTyped schema oldRow)
    (h : w.row lib ctx schema = .ok row) : RowTyped schema row ↔ w.Suited lib ctx schema := by
  cases w with
  | insert columns exprRow => exact Write.insert_typed_iff h
  | update oldRow assignments => exact Write.update_typed_iff (hold _ _ rfl) h

end Writes

/-! ## What is read -/

section Reads

variable {lib : Library} {ctx : ExecutionContext} {schema : TableSchema}

def TypedRows (schema : TableSchema) (r : Rows) : Prop := ∀ row ∈ r.rows, RowTyped schema row

theorem mem_collect {α : Type} {f : α → Outcome ExecError (Option Row)}
    {ending : Outcome ExecError Unit} {items : List α} {row : Row}
    (h : row ∈ (collect f ending items).rows) : ∃ item ∈ items, f item = .ok (some row) := by
  induction items with
  | nil => cases h
  | cons item items ih =>
      have hrest : row ∈ (collect f ending items).rows →
          ∃ item' ∈ item :: items, f item' = .ok (some row) := fun h => by
        obtain ⟨item', hmem, hf⟩ := ih h
        exact ⟨item', List.mem_cons_of_mem _ hmem, hf⟩
      cases hitem : f item with
      | ok found =>
          cases found with
          | none =>
              rw [collect, hitem] at h
              exact hrest h
          | some row' =>
              rw [collect, hitem] at h
              rcases List.mem_cons.mp h with rfl | h
              · exact ⟨item, List.mem_cons_self, hitem⟩
              · exact hrest h
      | error reason => rw [collect, hitem] at h; cases h
      | stop why => rw [collect, hitem] at h; cases h

theorem typed_of_rowOf {payload : Bytes} {row : Row} (h : rowOf schema payload = .ok (some row)) :
    RowTyped schema row := by
  obtain ⟨row', hdecode, heq⟩ := Outcome.bind_eq_ok.mp h
  cases heq
  cases hrow : decodeRow schema payload with
  | none => rw [hrow] at hdecode; cases hdecode
  | some row' =>
      rw [hrow] at hdecode
      cases hdecode
      exact rowTyped_of_decodeRow hrow

theorem seqScan_typed {ops : List DbRequest} {rows : Rows} (h : (seqScan schema).Returns ops rows) :
    TypedRows schema rows := by
  obtain ⟨scanned, _, _, rfl, _, _, rfl⟩ := Prog.returns_bind h
  intro row hrow
  obtain ⟨entry, -, hentry⟩ := mem_collect hrow
  exact typed_of_rowOf hentry

theorem fetch_typed {ops : List DbRequest} {key : Bytes} {row : Row}
    (h : (fetch schema key).Returns ops (.ok (some row))) : RowTyped schema row := by
  obtain ⟨found, _, _, rfl, _, h⟩ := Prog.returns_bind h
  rcases found with reason | _ | payload
  · cases h.2
  · cases h.2
  · exact typed_of_rowOf h.2

theorem tableSeek_typed {ops : List DbRequest} {key : Bytes} {rows : Rows}
    (h : (tableSeek schema key).Returns ops rows) : TypedRows schema rows := by
  obtain ⟨found, _, _, rfl, hfound, _, rfl⟩ := Prog.returns_bind h
  intro row hrow
  obtain ⟨item, hitem, heq⟩ := mem_collect hrow
  obtain rfl := List.mem_singleton.mp hitem
  obtain rfl : item = .ok (some row) := heq
  exact fetch_typed hfound

theorem fetchEach_typed {start : Bytes} {ending : Outcome ExecError Unit}
    {entries : List (Bytes × Bytes)} {ops : List DbRequest} {rows : Rows}
    (h : (fetchEach schema start ending entries).Returns ops rows) : TypedRows schema rows := by
  induction entries generalizing ops rows with
  | nil =>
      obtain ⟨-, rfl⟩ := h
      exact fun row hrow => by cases hrow
  | cons entry entries ih =>
      obtain ⟨key, payload⟩ := entry
      rw [fetchEach] at h
      split at h
      · obtain ⟨-, rfl⟩ := h
        exact fun row hrow => by cases hrow
      · obtain ⟨found, _, _, rfl, hfound, h⟩ := Prog.returns_bind h
        obtain ⟨later, _, _, rfl, hlater, _, rfl⟩ := Prog.returns_bind h
        rcases found with (_ | row') | reason | why
        · exact ih hlater
        · rintro row (_ | ⟨_, hrow⟩)
          · exact fetch_typed hfound
          · exact ih hlater row hrow
        · exact fun row hrow => by cases hrow
        · exact fun row hrow => by cases hrow

theorem read_typed {path : AccessPath} {ops : List DbRequest} {rows : Rows}
    (h : (path.read schema).Returns ops rows) : TypedRows schema rows := by
  cases path with
  | tableSeek v => exact tableSeek_typed h
  | indexSeek idx v =>
      obtain ⟨scanned, _, _, rfl, _, h⟩ := Prog.returns_bind h
      exact fetchEach_typed h
  | seqScan => exact seqScan_typed h

theorem filter_typed {predicate : Expr} {rows : Rows} (h : TypedRows schema rows) :
    TypedRows schema (filter lib schema predicate ctx rows) := by
  intro row hrow
  obtain ⟨row', hmem, hfilter⟩ := mem_collect hrow
  obtain ⟨v, -, heq⟩ := Outcome.bind_eq_ok.mp hfilter
  split at heq <;> cases heq
  exact h row hmem

theorem indexAll_eq {row out : Row} {indices : List Nat} (h : indexAll row indices = .ok out) :
    out.map some = indices.map fun i => row[i]? := by
  induction indices generalizing out with
  | nil => cases h; rfl
  | cons i indices ih =>
      obtain ⟨v, hv, h⟩ := Outcome.bind_eq_ok.mp h
      obtain ⟨vs, hvs, heq⟩ := Outcome.bind_eq_ok.mp h
      cases heq
      cases hi : row[i]? with
      | none => rw [hi] at hv; cases hv
      | some v' =>
          rw [hi] at hv
          cases hv
          rw [List.map_cons, List.map_cons, ih hvs, hi]

/-- Projecting to all columns gives the row back. -/
theorem indexAll_range {row out : Row} (h : indexAll row (List.range row.length) = .ok out) :
    out = row := by
  have hout := indexAll_eq h
  have hrow : (List.range row.length).map (fun i => row[i]?) = row.map some := by
    refine List.ext_getElem (by simp) fun i hi hi' => ?_
    simp at hi
    simp [hi]
  exact List.map_injective_iff.mpr (Option.some_injective _) (hout.trans hrow)

theorem project_typed {rows : Rows} (h : TypedRows schema rows) :
    TypedRows schema (project (List.range schema.columns.length) rows) := by
  intro row hrow
  obtain ⟨row', hmem, hproject⟩ := mem_collect hrow
  obtain ⟨out, hout, heq⟩ := Outcome.bind_eq_ok.mp hproject
  cases heq
  have htyped := h row' hmem
  rw [htyped.length_eq] at hout
  exact indexAll_range hout ▸ htyped

theorem above_typed {indexes : List IndexSchema} {whereClause : Option Expr} {plan : SelectPlan}
    (h : buildSelectPlanWithContext lib schema indexes whereClause
      (List.range schema.columns.length) none none ctx = .ok plan) {rows : Rows}
    (hrows : TypedRows schema rows) : TypedRows schema (plan.above rows) := by
  obtain ⟨pkIdx, -, h⟩ := Outcome.bind_eq_ok.mp h
  obtain ⟨pkCol, -, h⟩ := Outcome.bind_eq_ok.mp h
  rcases hchoose : choosePath pkCol.name indexes whereClause with ⟨path, residual⟩
  rw [hchoose] at h
  cases residual with
  | none => cases h; exact project_typed hrows
  | some predicate => cases h; exact project_typed (filter_typed hrows)

theorem readAll_typed {indexes : List IndexSchema} {whereClause : Option Expr}
    {ops : List DbRequest} {rows : List Row}
    (h : (readAll lib schema indexes whereClause ctx).Returns ops rows) :
    ∀ row ∈ rows, RowTyped schema row := by
  obtain ⟨plan, _, _, rfl, hplan, h⟩ := Prog.returns_bind h
  obtain ⟨read, _, _, rfl, hread, h⟩ := Prog.returns_bind h
  obtain ⟨rows', _, _, rfl, hrows, _, rfl⟩ := Prog.returns_bind (Prog.returns_mapError hread)
  have hbuild := Outcome.mapError_eq_ok.mp (Prog.returns_ofOutcome hplan).2
  have hout := Outcome.mapError_eq_ok.mp (Prog.returns_ofOutcome h).2
  obtain ⟨-, -, heq⟩ := Outcome.bind_eq_ok.mp hout
  cases heq
  exact above_typed hbuild (read_typed hrows)

end Reads

/-! ## Statements that write rows -/

section Statements

variable {lib : Library} {ctx : ExecutionContext} {schema : TableSchema}

/-- The rows that a statement writes, as the expressions of the statement give them. -/
inductive Writes (schema : TableSchema) : Statement → List Write → Prop
  | insert (table columns rows returning) :
      Writes schema (.insert table columns rows returning) (rows.map (Write.insert columns))
  | update (table assignments whereClause returning) {oldRows : List Row} {indices}
      (hindices : assignmentIndices schema assignments = .ok indices)
      (hold : ∀ row ∈ oldRows, RowTyped schema row) :
      Writes schema (.update table assignments whereClause returning)
        (oldRows.map fun oldRow => Write.update oldRow indices)

def writesRows : Statement → Bool
  | .insert .. | .update .. => true
  | _ => false

/-- The row of a write went into the tree of the table. -/
def Stored (lib : Library) (ctx : ExecutionContext) (schema : TableSchema) (ops : List DbRequest)
    (w : Write) : Prop :=
  ∃ row root key payload, w.row lib ctx schema = .ok row ∧ rowKey schema row = some key ∧
    encodeRow schema row = some payload ∧ .insert root key payload ∈ ops

theorem stored_of_insertRow {root : PageNo} {indexes : List IndexSchema} {row : Row}
    {ops : List DbRequest} {out : PageNo × IndexRoots}
    (h : (insertRow { schema with rootPage := root } indexes row).Returns ops out) :
    ∃ key payload, rowKey schema row = some key ∧ encodeRow schema row = some payload ∧
      .insert root key payload ∈ ops := by
  obtain ⟨_, _, _, rfl, _, h⟩ := Prog.returns_bind h
  obtain ⟨key, _, _, rfl, hkey, h⟩ := Prog.returns_bind h
  obtain ⟨payload, _, _, rfl, hpayload, h⟩ := Prog.returns_bind h
  obtain ⟨tableRoot, _, _, rfl, hinsert, h⟩ := Prog.returns_bind h
  obtain rfl := Prog.returns_request hinsert
  refine ⟨key, payload, (Prog.returns_unwrap hkey).2, (Prog.returns_unwrap hpayload).2, ?_⟩
  exact List.mem_append_right _ (List.mem_append_right _ (List.mem_append_right _
    (List.mem_append_left _ List.mem_cons_self)))

theorem Stored.mono {ops ops' : List DbRequest} {w : Write} (h : Stored lib ctx schema ops w)
    (hsub : ops ⊆ ops') : Stored lib ctx schema ops' w := by
  obtain ⟨row, root, key, payload, hrow, hkey, hpayload, hmem⟩ := h
  exact ⟨row, root, key, payload, hrow, hkey, hpayload, hsub hmem⟩

theorem insertOne_stores {table : String} {indexes : List IndexSchema}
    {columns : Option (List String)} {policies : Option (List PolicySchema)} {p p' : Progress}
    {exprRow : List Expr} {ops : List DbRequest}
    (h : (insertOne lib ctx table schema indexes columns policies p exprRow).Returns ops p') :
    Stored lib ctx schema ops (.insert columns exprRow) := by
  obtain ⟨row, _, _, rfl, hrow, h⟩ := Prog.returns_bind h
  obtain ⟨_, _, _, rfl, _, h⟩ := Prog.returns_bind h
  obtain ⟨_, _, _, rfl, _, h⟩ := Prog.returns_bind h
  obtain ⟨_, _, _, rfl, hinsert, _⟩ := Prog.returns_bind h
  obtain ⟨key, payload, hkey, hpayload, hmem⟩ :=
    stored_of_insertRow (Prog.returns_mapError hinsert)
  exact ⟨row, p.tableRoot, key, payload, (Prog.returns_ofOutcome hrow).2, hkey, hpayload,
    List.mem_append_right _ (List.mem_append_right _ (List.mem_append_right _
      (List.mem_append_left _ hmem)))⟩

theorem updateOne_stores {table : String} {indexes : List IndexSchema}
    {assignments : List (Nat × Expr)} {p p' : Progress} {oldRow : Row} {ops : List DbRequest}
    (h : (updateOne lib ctx table schema indexes assignments p oldRow).Returns ops p') :
    Stored lib ctx schema ops (.update oldRow assignments) := by
  obtain ⟨row, _, _, rfl, hrow, h⟩ := Prog.returns_bind h
  obtain ⟨_, _, _, rfl, hupdate, _⟩ := Prog.returns_bind h
  obtain ⟨⟨tableRoot, roots⟩, _, _, rfl, _, hinsert⟩ :=
    Prog.returns_bind (Prog.returns_mapError hupdate)
  obtain ⟨key, payload, hkey, hpayload, hmem⟩ := stored_of_insertRow hinsert
  exact ⟨row, tableRoot, key, payload, (Prog.returns_ofOutcome hrow).2, hkey, hpayload,
    List.mem_append_right _ (List.mem_append_left _ (List.mem_append_right _ hmem))⟩

theorem executeInsert_stores {table : String} {columns : Option (List String)}
    {rows : List (List Expr)} {returning : Option SelectColumns} {ops : List DbRequest}
    {res : ExecResult}
    (h : (executeInsert lib ctx table columns rows returning).Returns ops res) :
    ∃ schema, ∀ exprRow ∈ rows, Stored lib ctx schema ops (.insert columns exprRow) := by
  obtain ⟨schema, _, _, rfl, _, h⟩ := Prog.returns_bind h
  obtain ⟨indexes, _, _, rfl, _, h⟩ := Prog.returns_bind h
  obtain ⟨policies, _, _, rfl, _, h⟩ := Prog.returns_bind h
  obtain ⟨_, _, _, rfl, hloop, _⟩ := Prog.returns_bind h
  refine ⟨schema, fun exprRow hmem => ?_⟩
  obtain ⟨_, _, part, hpart, hsub⟩ := Prog.returns_forEach hloop exprRow hmem
  exact (insertOne_stores hpart).mono fun op hop => List.mem_append_right _
    (List.mem_append_right _ (List.mem_append_right _ (List.mem_append_left _ (hsub hop))))

theorem executeUpdate_stores {execute : Statement → DbProg DbError ExecResult} {table : String}
    {assignments : List (String × Expr)} {whereClause : Option Expr}
    {returning : Option SelectColumns} {ops : List DbRequest} {res : ExecResult}
    (h : (executeUpdate lib ctx execute table assignments whereClause returning).Returns ops res) :
    ∃ schema indices, ∃ oldRows : List Row, assignmentIndices schema assignments = .ok indices ∧
      (∀ row ∈ oldRows, RowTyped schema row) ∧
        ∀ oldRow ∈ oldRows, Stored lib ctx schema ops (.update oldRow indices) := by
  obtain ⟨⟨schema, indexes, whereClause⟩, _, _, rfl, _, h⟩ := Prog.returns_bind h
  obtain ⟨indices, _, _, rfl, hindices, h⟩ := Prog.returns_bind h
  obtain ⟨oldRows, _, _, rfl, hread, h⟩ := Prog.returns_bind h
  obtain ⟨_, _, _, rfl, hloop, _⟩ := Prog.returns_bind h
  refine ⟨schema, indices, oldRows, (Prog.returns_ofOutcome hindices).2, readAll_typed hread,
    fun oldRow hmem => ?_⟩
  obtain ⟨_, _, part, hpart, hsub⟩ := Prog.returns_forEach hloop oldRow hmem
  exact (updateOne_stores hpart).mono fun op hop => List.mem_append_right _
    (List.mem_append_right _ (List.mem_append_right _ (List.mem_append_left _ (hsub hop))))

theorem returns_autoCommit {x : DbProg DbError ExecResult} {ops : List DbRequest}
    {res : ExecResult} (h : (autoCommit x).Returns ops res) :
    ∃ part res', x.Returns part res' ∧ part ⊆ ops := by
  obtain ⟨_, _, _, rfl, _, h⟩ := Prog.returns_bind h
  obtain ⟨result, part, _, rfl, hx, h⟩ := Prog.returns_bind h
  cases result with
  | ok res' =>
      exact ⟨part, res', Prog.returns_attempt hx, fun op hop =>
        List.mem_append_right _ (List.mem_append_left _ hop)⟩
  | error reason =>
      -- a failed statement ends in its error
      obtain ⟨_, _, _, _, _, h⟩ := Prog.returns_bind h
      obtain ⟨_, _, _, _, _, h⟩ := Prog.returns_bind h
      obtain ⟨_, _, _, _, _, h⟩ := Prog.returns_bind h
      cases h

theorem returns_ownTransaction {x : DbProg DbError ExecResult} {ops : List DbRequest}
    {res : ExecResult}
    (h : (do if ← inTransaction then x else autoCommit x : DbProg DbError ExecResult).Returns ops res) :
    ∃ part res', x.Returns part res' ∧ part ⊆ ops := by
  obtain ⟨open', _, rest, rfl, _, h⟩ := Prog.returns_bind h
  cases open' with
  | true => exact ⟨rest, res, h, List.subset_append_right _ _⟩
  | false =>
      obtain ⟨part, res', hx, hsub⟩ := returns_autoCommit h
      exact ⟨part, res', hx, List.subset_append_of_subset_right _ hsub⟩

/-- A statement that returns has stored all its rows. -/
theorem execute_stores {fuel : Nat} {stmt : Statement} {ops : List DbRequest} {res : ExecResult}
    (h : (executeStatement lib ctx fuel stmt).Returns ops res) (hstmt : writesRows stmt) :
    ∃ schema ws, Writes schema stmt ws ∧ ∀ w ∈ ws, Stored lib ctx schema ops w := by
  cases fuel with
  | zero => cases h
  | succ fuel =>
      cases stmt with
      | insert table columns rows returning =>
          obtain ⟨part, res', hx, hsub⟩ := returns_ownTransaction h
          obtain ⟨schema, hstored⟩ := executeInsert_stores hx
          refine ⟨schema, _, .insert table columns rows returning, fun w hw => ?_⟩
          obtain ⟨exprRow, hmem, rfl⟩ := List.mem_map.mp hw
          exact (hstored exprRow hmem).mono hsub
      | update table assignments whereClause returning =>
          obtain ⟨part, res', hx, hsub⟩ := returns_ownTransaction h
          obtain ⟨schema, indices, oldRows, hindices, hold, hstored⟩ := executeUpdate_stores hx
          refine ⟨schema, _, .update table assignments whereClause returning hindices hold,
            fun w hw => ?_⟩
          obtain ⟨oldRow, hmem, rfl⟩ := List.mem_map.mp hw
          exact (hstored oldRow hmem).mono hsub
      | _ => cases hstmt

theorem Writes.typed_iff {stmt : Statement} {ws : List Write}
    (h : Writes schema stmt ws) {w : Write} (hw : w ∈ ws) {row : Row}
    (hrow : w.row lib ctx schema = .ok row) :
    RowTyped schema row ↔ w.Suited lib ctx schema := by
  refine Write.typed_iff (fun oldRow assignments heq => ?_) hrow
  cases h with
  | insert =>
      obtain ⟨exprRow, -, rfl⟩ := List.mem_map.mp hw
      cases heq
  | update _ _ _ _ _ hold =>
      obtain ⟨oldRow', hmem, rfl⟩ := List.mem_map.mp hw
      cases heq
      exact hold _ hmem

end Statements

/-! ## A table with two integers -/

def plainEnvironment : Environment := ⟨fun _ => 0, fun _ password => password, "postgres"⟩

def pairs : Database :=
  Database.runAll plainLibrary plainEnvironment
    [.createTable "pairs" [⟨"a", .integer, true, true⟩, ⟨"b", .integer, false, false⟩]]
    (Database.created plainEnvironment).2.sorting

def insertPair (e : Expr) : Statement := .insert "pairs" none [[.intLiteral 1, e]] none

def selectPairs : Statement := .select .all "pairs" none none none none none none

end ChocoBase.Engine
