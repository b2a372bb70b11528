import ChocoBase.Engine.NamedRows
import ChocoBase.Server.BindParameters
import ChocoBase.Server.CopyText
import ChocoBase.Sql.InsertTexts

/-!
# Copied fields as values

The literal that a field of copy data becomes, the row that its statement inserts, and
a database that does nothing but take the rows of one table.
-/

namespace ChocoBase.Server.PostgresWire

open ChocoBase.Foundation ChocoBase.Engine ChocoBase.Auth ChocoBase.Sql ChocoBase.Types
  ChocoBase.Catalog

open Text (Chars)

section Fields

variable (host : Host)

def isNullMark (field : Chars) : Bool :=
  field = ['\\', 'N'] || Parser.eqIgnoreAsciiCase (String.ofList field) "null"

/-- The literal that a field is in the statement, if it is one. -/
def fieldExpr (field : Chars) : Option Expr :=
  if isNullMark field then some .null
  else match parseI64 field with
    | some n => some (.intLiteral n)
    | none =>
        match host.text.parseF64 (String.ofList field) with
        | some x => numberLiteral host.text (host.floatText x).toList
        | none => some (.stringLiteral (String.ofList field))

/-- The value that a field is in a column. -/
def fieldIn (col : Column) (field : Chars) : Option Value :=
  (fieldExpr host field).bind (literalIn host.lib col)

def fieldRow : List Column → List Chars → Option Row
  | col :: cols, field :: fields => do
      let v ← fieldIn host col field
      let rest ← fieldRow cols fields
      return v :: rest
  | _, _ => some []

end Fields

/-- What is relied on of `f64::to_string`, `str::parse` and the `Debug` of a vector. -/
structure WritesNumbers (host : Host) : Prop where
  text : ∀ x, NumberText (host.floatText x).toList
  parse : ∀ x, host.floatText x ≠ "NaN" → host.text.parseF64 (host.floatText x) = some x
  nan : ∀ x, host.text.parseF64 "NaN" = some x → host.floatText x = "NaN"
  vector : ∀ xs, Text.Tight host.text.isWhitespace (host.debugVector xs).toList ∧
    '\t' ∉ (host.debugVector xs).toList ∧ '\n' ∉ (host.debugVector xs).toList

section Reading

variable {host : Host} (hascii : host.text.LikeAscii)
include hascii

theorem fieldExpr_reads (hwrites : WritesNumbers host) (field : Chars) :
    ReadsValue host.text (copyValue host field) (fieldExpr host field) := by
  change ReadsValue host.text (if isNullMark field = true then _ else _)
    (if isNullMark field = true then _ else _)
  by_cases hnull : isNullMark field = true
  · rw [if_pos hnull, if_pos hnull]
    exact .literal (exact_token hascii (readsAs_null hascii)) rfl
  · rw [if_neg hnull, if_neg hnull]
    cases parseI64 field with
    | some n =>
        have hread := readsValue_number hascii (numberText_int n.toInt)
        rwa [numberLiteral, parseI64_toString] at hread
    | none =>
        cases host.text.parseF64 (String.ofList field) with
        | some x => exact readsValue_number hascii (hwrites.text x)
        | none => exact .literal (exact_token hascii (readsAs_quotedText hascii _)) rfl

end Reading

/-! ## The statement of a row -/

section Statements

variable (host : Host) (schema : TableSchema)

def columnTexts : List Chars := schema.columns.map fun col => col.name.toList

/-- The row that a statement inserts into the table. -/
def insertedRow (sql : String) : Option Row :=
  match parse host.text host.debugToken sql with
  | .ok (.insert table (some names) [exprs] none) =>
      if table = schema.name then
        match fullRow host.lib schema (some names) exprs with
        | .ok row => some row
        | _ => none
      else none
  | _ => none

/-- The names of the table and of its columns are read as they stand. -/
structure PlainNames : Prop where
  table : NamesTable host.text host.debugToken schema.name.toList schema.name
  columns : ∀ col ∈ schema.columns, NamesColumn host.text col.name.toList col.name
  nodup : (schema.columns.map Column.name).Nodup
  ne_nil : schema.columns ≠ []

/-- Take the row that a statement inserts. -/
def takeRow (sql : String) (rows : List Row) : Except QueryError ExecResult × List Row :=
  match insertedRow host schema sql with
  | some row => (.ok (.modified 1), rows ++ [row])
  | none => (.error (.parse ⟨0, "no row"⟩), rows)

/-- A database that takes the rows of one table and nothing else. -/
def tableHandler : Handler calls (List Row)
  | .execute sql _ => fun rows => (.ok (takeRow host schema sql rows).1, (takeRow host schema sql rows).2)
  | _ => fun rows => (.stop .diverges, rows)

end Statements

section Rows

variable {host : Host} {schema : TableSchema}

theorem tableHandler_execute (sql : String) (ctx : ExecutionContext) (rows : List Row) :
    tableHandler host schema (.execute sql ctx) rows =
      (.ok (takeRow host schema sql rows).1, (takeRow host schema sql rows).2) := rfl

theorem literalRow_readValues {fields : List Chars} {exprs : List Expr}
    (h : List.Forall₂ ReadValue (fields.map (fieldExpr host)) exprs) (cols : List Column) :
    literalRow host.lib cols exprs = fieldRow host cols fields := by
  induction fields generalizing exprs cols with
  | nil =>
      cases h
      cases cols <;> rfl
  | cons field fields ih =>
      cases cols with
      | nil => cases exprs <;> rfl
      | cons col cols =>
          cases h with
          | @cons _ expr _ exprs hexpr hrest =>
              have hvalue : literalIn host.lib col expr = fieldIn host col field := by
                rcases hexpr with heq | ⟨hnone, name, rfl⟩
                · rw [fieldIn, heq, Option.bind_some]
                · rw [fieldIn, hnone]
                  rfl
              rw [literalRow, fieldRow, hvalue, ih hrest cols]

theorem fieldRow_of_none {cols : List Column} {fields : List Chars}
    (hlength : fields.length = cols.length) (h : none ∈ fields.map (fieldExpr host)) :
    fieldRow host cols fields = none := by
  induction fields generalizing cols with
  | nil => cases h
  | cons field fields ih =>
      obtain ⟨col, cols, rfl⟩ := List.exists_cons_of_length_eq_add_one hlength.symm
      rw [fieldRow]
      rcases List.mem_cons.mp h with hnone | h
      · rw [fieldIn, ← hnone]
        rfl
      · rw [ih (by simpa using hlength) h]
        cases fieldIn host col field <;> rfl

variable (hascii : host.text.LikeAscii) (hwrites : WritesNumbers host)
  (hnames : PlainNames host schema)
include hascii hwrites hnames

/-- The statement of a line inserts the values of its fields. -/
theorem insertedRow_copyInsert {fields : List Chars}
    (hlength : fields.length = schema.columns.length) :
    insertedRow host schema
        (copyInsert host schema.name.toList (columnTexts schema) fields) =
      fieldRow host schema.columns fields := by
  have hcolumns : List.Forall₂ (NamesColumn host.text) (columnTexts schema)
      (schema.columns.map Column.name) := by
    rw [columnTexts, List.forall₂_map_left_iff, List.forall₂_map_right_iff, List.forall₂_same]
    exact hnames.columns
  have hvalues : List.Forall₂ (ReadsValue host.text) (fields.map (copyValue host))
      (fields.map (fieldExpr host)) := by
    rw [List.forall₂_map_left_iff, List.forall₂_map_right_iff, List.forall₂_same]
    exact fun field _ => fieldExpr_reads hascii hwrites field
  have hne : columnTexts schema ≠ [] := by
    simpa [columnTexts] using hnames.ne_nil
  have hne' : fields.map (copyValue host) ≠ [] := by
    have := List.length_pos_iff.mpr hnames.ne_nil
    rw [← hlength] at this
    simpa using List.length_pos_iff.mp this
  change insertedRow host schema (String.ofList (insertText _ _ _)) = _
  rw [insertedRow]
  rcases parse_insertText hascii hnames.table hne hcolumns hne' hvalues with
    ⟨exprs, hexprs, hparse⟩ | ⟨hnone, hparse⟩
  · have hrow := literalRow_readValues hexprs schema.columns
    have hcount : schema.columns.length = exprs.length := by
      rw [← hexprs.length_eq, List.length_map, hlength]
    have hfull := fun row => @fullRow_columns host.lib _ hnames.nodup _ hcount row
    simp only [hparse, if_true]
    rw [← hrow]
    cases hlit : literalRow host.lib schema.columns exprs with
    | some row => simp only [(hfull row).mpr hlit]
    | none =>
        split
        · next row hrun => rw [(hfull row).mp hrun] at hlit; cases hlit
        · rfl
  · rw [fieldRow_of_none hlength hnone]
    cases hrun : parse host.text host.debugToken (String.ofList (insertText schema.name.toList
        (columnTexts schema) (fields.map (copyValue host)))) with
    | ok stmt => exact absurd hrun (hparse stmt)
    | error e => rfl
    | stop why => rfl

/-- The rows of a copy are added one after another. -/
theorem insertRows_table {ctx : ExecutionContext} {lines : List (List Chars)}
    (h : ∀ fields ∈ lines, fields.length = schema.columns.length) (copied : Nat)
    (rows : List Row) :
    ((insertRows host (columnTexts schema) schema.name.toList ctx copied lines).run
      (tableHandler host schema) rows).2 =
        rows ++ lines.filterMap (fieldRow host schema.columns) := by
  induction lines generalizing copied rows with
  | nil => exact (List.append_nil rows).symm
  | cons fields lines ih =>
      have hrest := fun copied rows =>
        ih (fun fields hmem => h fields (List.mem_cons_of_mem _ hmem)) copied rows
      have hrow := insertedRow_copyInsert hascii hwrites hnames (h fields List.mem_cons_self)
      rw [insertRows, Prog.run_bind, Exec.bind_apply, run_call, List.filterMap_cons]
      cases hfields : fieldRow host schema.columns fields with
      | none =>
          rw [tableHandler_execute, takeRow, hrow, hfields]
          exact hrest copied rows
      | some row =>
          rw [tableHandler_execute, takeRow, hrow, hfields]
          refine (hrest (copied + 1) (rows ++ [row])).trans ?_
          simp

end Rows

end ChocoBase.Server.PostgresWire
