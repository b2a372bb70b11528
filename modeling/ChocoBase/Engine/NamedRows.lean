import ChocoBase.Engine.Dml

/-!
# Rows of named literals

An `INSERT` that names the columns of its table in their order writes each literal to
its own column.
-/

namespace ChocoBase.Engine

open ChocoBase.Foundation ChocoBase.Sql ChocoBase.Types ChocoBase.Catalog

section Rows

variable (lib : Library)

/-- The value that an expression is in a column, if it is a literal for it. -/
def literalIn (col : Column) (expr : Expr) : Option Value :=
  match literalToValueTyped lib expr (some col.ty) with
  | .ok v => some v
  | _ => none

/-- The values of a row, one literal for each column. -/
def literalRow : List Column → List Expr → Option Row
  | col :: cols, expr :: exprs => do
      let v ← literalIn lib col expr
      let rest ← literalRow cols exprs
      return v :: rest
  | _, _ => some []

variable {lib} {schema : TableSchema}

theorem literalIn_eq_some {col : Column} {expr : Expr} {v : Value} :
    literalIn lib col expr = some v ↔ literalToValueTyped lib expr (some col.ty) = .ok v := by
  rw [literalIn]
  cases literalToValueTyped lib expr (some col.ty) <;> simp

theorem columnIndex_append {done : List Column} {col : Column} {cols : List Column}
    (hschema : schema.columns = done ++ col :: cols)
    (hnodup : (schema.columns.map Column.name).Nodup) :
    schema.columnIndex col.name = some done.length := by
  rw [hschema, List.map_append, List.map_cons] at hnodup
  have hother : ∀ c ∈ done, c.name ≠ col.name := fun c hc heq =>
    List.disjoint_of_nodup_append hnodup (List.mem_map_of_mem hc) (heq ▸ List.mem_cons_self)
  rw [TableSchema.columnIndex, hschema, List.findIdx?_append,
    List.findIdx?_eq_none_iff.mpr (by simpa using hother)]
  simp [List.findIdx?_cons]

/-- The column behind those that are done is set. -/
theorem setLiterals_next {done : List Column} {col : Column} {cols : List Column} {values : Row}
    (hschema : schema.columns = done ++ col :: cols) (hvalues : values.length = done.length)
    (expr : Expr) :
    setLiterals lib schema [(done.length, expr)]
        (values ++ List.replicate (col :: cols).length Value.null) =
      (literalToValueTyped lib expr (some col.ty)).bind fun v =>
        .ok (values ++ [v] ++ List.replicate cols.length .null) := by
  have hcol : schema.columns[done.length]? = some col := by simp [hschema]
  have hset : ∀ v, (values ++ List.replicate (col :: cols).length Value.null).set done.length v =
      values ++ [v] ++ List.replicate cols.length .null := by
    intro v
    rw [← hvalues, List.set_append_right _ _ le_rfl, Nat.sub_self, List.append_assoc]
    rfl
  simp only [setLiterals, hcol, hset]
  rfl

/-- One column after another is set. -/
theorem setNamed_columns (hnodup : (schema.columns.map Column.name).Nodup) {cols : List Column}
    {exprs : List Expr} (hlength : cols.length = exprs.length) {done : List Column}
    (hschema : schema.columns = done ++ cols) {values : Row} (hvalues : values.length = done.length)
    {row : Row} :
    setNamed lib schema ((cols.map Column.name).zip exprs)
        (values ++ List.replicate cols.length .null) = .ok row ↔
      ∃ rest, literalRow lib cols exprs = some rest ∧ row = values ++ rest := by
  induction cols generalizing exprs done values with
  | nil =>
      simp only [List.map_nil, List.zip_nil_left, setNamed, literalRow]
      simp [eq_comm]
  | cons col cols ih =>
      obtain ⟨expr, exprs, rfl⟩ := List.exists_cons_of_length_eq_add_one hlength.symm
      have hindex := columnIndex_append hschema hnodup
      have hone := @setLiterals_next lib _ _ _ _ _ hschema hvalues expr
      rw [List.map_cons, List.zip_cons_cons, setNamed, hindex, literalRow, literalIn]
      simp only [hone]
      cases literalToValueTyped lib expr (some col.ty) with
      | error e => simp [Outcome.bind]
      | stop why => simp [Outcome.bind]
      | ok v =>
          have hnext := @ih exprs (by simpa using hlength) (done ++ [col]) (by simp [hschema])
            (values ++ [v]) (by simp [hvalues])
          refine hnext.trans ?_
          cases literalRow lib cols exprs <;> simp

theorem fullRow_columns (hnodup : (schema.columns.map Column.name).Nodup) {exprs : List Expr}
    (hlength : schema.columns.length = exprs.length) {row : Row} :
    fullRow lib schema (some (schema.columns.map Column.name)) exprs = .ok row ↔
      literalRow lib schema.columns exprs = some row := by
  have hset := @setNamed_columns lib schema hnodup schema.columns exprs hlength [] rfl [] rfl row
  rw [fullRow, if_neg (by simpa using hlength)]
  simpa using hset

/-- The columns that are listed, each with what it is listed with. -/
def listedColumns {ι : Type} (listed : Column → Option ι) (cols : List Column) : List (String × ι) :=
  cols.filterMap fun col => (listed col).map fun item => (col.name, item)

/-- A column that is listed gets its literal, and any other stays null. -/
def Lands {ι : Type} (lib : Library) (listed : Column → Option ι) (R : ι → Expr → Prop) (col : Column)
    (v : Value) : Prop :=
  match listed col with
  | some item => ∃ expr, R item expr ∧ literalIn lib col expr = some v
  | none => v = .null

theorem setNamed_listed {ι : Type} {listed : Column → Option ι} {R : ι → Expr → Prop}
    (hnodup : (schema.columns.map Column.name).Nodup) {cols : List Column} {exprs : List Expr}
    (hexprs : List.Forall₂ R ((listedColumns listed cols).map Prod.snd) exprs) {done : List Column}
    (hschema : schema.columns = done ++ cols) {values : Row} (hvalues : values.length = done.length)
    {row : Row}
    (h : setNamed lib schema (((listedColumns listed cols).map Prod.fst).zip exprs)
      (values ++ List.replicate cols.length .null) = .ok row) :
    ∃ rest, row = values ++ rest ∧ List.Forall₂ (Lands lib listed R) cols rest := by
  induction cols generalizing exprs done values with
  | nil =>
      cases h
      exact ⟨[], by simp, .nil⟩
  | cons col cols ih =>
      have hnext : ∀ {v exprs}, List.Forall₂ R ((listedColumns listed cols).map Prod.snd) exprs →
          Lands lib listed R col v →
          setNamed lib schema (((listedColumns listed cols).map Prod.fst).zip exprs)
            (values ++ [v] ++ List.replicate cols.length .null) = .ok row →
          ∃ rest, row = values ++ rest ∧ List.Forall₂ (Lands lib listed R) (col :: cols) rest := by
        intro v exprs hexprs hv hrest
        obtain ⟨rest, rfl, hlands⟩ := @ih exprs hexprs (done ++ [col]) (by simp [hschema])
          (values ++ [v]) (by simp [hvalues]) hrest
        exact ⟨v :: rest, by simp, .cons hv hlands⟩
      cases hlisted : listed col with
      | none =>
          have hskip : listedColumns listed (col :: cols) = listedColumns listed cols := by
            simp [listedColumns, hlisted]
          rw [hskip] at h hexprs
          refine hnext (v := .null) hexprs (by simp [Lands, hlisted]) ?_
          simpa [List.replicate_succ] using h
      | some item =>
          have htake : listedColumns listed (col :: cols) =
              (col.name, item) :: listedColumns listed cols := by
            simp [listedColumns, hlisted]
          rw [htake] at h hexprs
          obtain ⟨expr, exprs, hexpr, hrest', rfl⟩ := List.forall₂_cons_left_iff.mp hexprs
          rw [List.map_cons, List.zip_cons_cons, setNamed, columnIndex_append hschema hnodup] at h
          obtain ⟨row₁, hfirst, hrest⟩ := Outcome.bind_eq_ok.mp h
          rw [setLiterals_next hschema hvalues] at hfirst
          obtain ⟨v, hv, heq⟩ := Outcome.bind_eq_ok.mp hfirst
          cases heq
          refine hnext hrest' ?_ hrest
          rw [Lands, hlisted]
          exact ⟨expr, hexpr, literalIn_eq_some.mpr hv⟩

/-- An `INSERT` that lists columns in the order of the table. -/
theorem fullRow_listed {ι : Type} {listed : Column → Option ι} {R : ι → Expr → Prop}
    (hnodup : (schema.columns.map Column.name).Nodup) {exprs : List Expr}
    (hexprs : List.Forall₂ R ((listedColumns listed schema.columns).map Prod.snd) exprs) {row : Row}
    (h : fullRow lib schema (some ((listedColumns listed schema.columns).map Prod.fst)) exprs =
      .ok row) :
    List.Forall₂ (Lands lib listed R) schema.columns row := by
  rw [fullRow] at h
  split at h
  · cases h
  · obtain ⟨rest, rfl, hlands⟩ := @setNamed_listed lib schema ι listed R hnodup schema.columns exprs
      hexprs [] rfl [] rfl row h
    exact hlands

end Rows

end ChocoBase.Engine
