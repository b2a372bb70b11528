import ChocoBase.Engine.Created
import ChocoBase.Engine.NamedRows
import ChocoBase.Engine.TableRows
import ChocoBase.Server.RestBatch
import ChocoBase.Sql.RowTexts

/-!
# Posted values that come back

An object is posted as the literals of an `INSERT`, and `GET` shows what the row holds.
A number or a boolean in a column of documents is stored as what it is, not as a
document, and a string as the document that it contains.
-/

namespace ChocoBase.Server.Rest

open ChocoBase.Foundation ChocoBase.Engine ChocoBase.Sql ChocoBase.Types ChocoBase.Auth
  ChocoBase.Plan ChocoBase.Concurrency
open Text (Chars)

/-! ## Requests -/

section Requests

variable (host : Host) (ofFloat : Float → Json) (ofFloat32 : Float32 → Json) (table : Chars)
  (schema : TableSchema)

/-- The rows that a statement lists, as objects. -/
def listRows (sql : String) (ctx : ExecutionContext) : Talk (Except QueryError (List Json)) := do
  match ← call (.execute sql ctx) with
  | .ok (.rows columns rows) =>
      match GraphQl.rowsJson host ofFloat ofFloat32 columns rows with
      | .ok shown => return .ok shown
      | _ => .halt .panic
  | .ok _ => return .ok []
  | .error e => return .error e

/-- `GET` on a table, without parameters and headers -/
def getAll (ctx : ExecutionContext) : Talk (Except QueryError (List Json)) :=
  listRows host ofFloat ofFloat32 (String.ofList (getSql host.text table [])) ctx

/-- What is posted for a column, null if nothing is. -/
def posted (obj : Members) (col : Column) : Json := (obj.lookup col.name).getD .null

/-- The object is the only row of a request that has inserted it as this row. -/
structure Inserts (req : Posting) (body : String) (obj : Members) (d d' : SharedDatabase)
    (row : Row) : Prop where
  items : rowsToInsert host body = .ok [.object obj]
  exists_sql : ∃ sql reply, insertSql host.lib table schema obj = some sql ∧
    (post host ofFloat ofFloat32 table schema req .admin body).run
      (engineStore host .admin).handler ⟨d, []⟩ = (.ok reply, ⟨d', [⟨sql, [row]⟩]⟩)

/-- `GET` lists the row, with what was posted in each column. -/
def Shows (obj : Members) (row : Row) (d : SharedDatabase) : Prop :=
  ∃ (rows : List Row) (shown : List Json), (SharedDatabase.executeWithContext host (String.ofList (getSql host.text table []))
      .admin d).1 = .ok (.rows (columnNames schema) rows) ∧
    ((getAll host ofFloat ofFloat32 table .admin).run (engineStore host .admin).handler
      ⟨d, []⟩).1 = .ok (.ok shown) ∧
    ∃ (i : Nat) (members : Members), rows[i]? = some row ∧ shown[i]? = some (.object members) ∧
      ∀ col ∈ schema.columns, members.lookup col.name = some (posted obj col)

end Requests

/-! ## Values -/

/-- How the JSON library writes a value, and what it reads there. -/
def Written (lib : Library) : Json → Prop
  | .number n => JsonNumberText n.text.toList
  | .string s => lib.parseJson s ≠ .ok (.string s)
  | .array items => ∃ t, lib.jsonText (.array items) = some t ∧ lib.parseJson t = .ok (.array items)
  | .object members =>
      ∃ t, lib.jsonText (.object members) = some t ∧ lib.parseJson t = .ok (.object members)
  | _ => True

/-- The values of a column's kind. -/
inductive OfKind (lib : Library) : ColumnType → Json → Prop
  | null (ty : ColumnType) : OfKind lib ty .null
  | integer (n : Int64) : OfKind lib .integer (integer n)
  | text (s : String) : OfKind lib .text (.string s)
  | boolean (b : Bool) : OfKind lib .boolean (.bool b)
  | json {v : Json} (h : Written lib v) : OfKind lib .json v

/-- Null, an array or an object. -/
def isDocument : Json → Bool
  | .null | .array _ | .object _ => true
  | _ => false

/-- The literals that a value may be written as. -/
def Means (lib : Library) : Json → Expr → Prop
  | .null, e => e = .null
  | .bool b, e => e = .boolLiteral b
  | .number n, e => isNumberLiteral e = true ∧ ∀ i, n = ⟨some i, toString i.toInt⟩ → e = .intLiteral i
  | .string s, e => e = .stringLiteral s
  | v, e => e = .stringLiteral ((lib.jsonText v).getD "")

/-- A value is kept and shown as it was posted, unless it is no document in a column of documents. -/
theorem kept_iff {host : Host} {ofFloat : Float → Json} {ofFloat32 : Float32 → Json} {ty : ColumnType}
    {val : Json} {e : Expr} {v : Value} (hkind : OfKind host.lib ty val) (hmeans : Means host.lib val e)
    (hv : literalToValueTyped host.lib e (some ty) = .ok v) :
    v.Typed ty ∧ GraphQl.valueJson host ofFloat ofFloat32 v = val ↔ (ty = .json → isDocument val = true) := by
  have hdocument : ∀ {val t}, isDocument val = true → host.lib.parseJson t = .ok val →
      literalToValueTyped host.lib (.stringLiteral t) (some .json) = .ok v →
      (v.Typed .json ∧ GraphQl.valueJson host ofFloat ofFloat32 v = val ↔
        (ColumnType.json = .json → isDocument val = true)) := by
    intro val t hval hparse hv
    simp only [literalToValueTyped, hparse] at hv
    cases hv
    refine iff_of_true ⟨trivial, ?_⟩ fun _ => hval
    rw [GraphQl.valueJson, hparse]
    rfl
  cases hkind with
  | null ty =>
      cases hmeans
      cases hv
      exact iff_of_true ⟨by cases ty <;> trivial, rfl⟩ fun _ => rfl
  | integer n =>
      obtain rfl := hmeans.2 n rfl
      cases hv
      exact iff_of_true ⟨trivial, rfl⟩ (by rintro ⟨⟩)
  | text s =>
      cases hmeans
      cases hv
      exact iff_of_true ⟨trivial, rfl⟩ (by rintro ⟨⟩)
  | boolean b =>
      cases hmeans
      cases hv
      exact iff_of_true ⟨trivial, rfl⟩ (by rintro ⟨⟩)
  | json h =>
      cases val with
      | null =>
          cases hmeans
          cases hv
          exact iff_of_true ⟨trivial, rfl⟩ fun _ => rfl
      | bool b =>
          cases hmeans
          cases hv
          exact iff_of_false (fun h => h.1) fun h => by cases h rfl
      | number n =>
          refine iff_of_false (fun htyped => ?_) fun h => by cases h rfl
          obtain ⟨hnumber, -⟩ := hmeans
          cases e with
          | intLiteral i =>
              cases hv
              exact htyped.1
          | floatLiteral x =>
              cases hv
              exact htyped.1
          | _ => cases hnumber
      | string s =>
          cases hmeans
          refine iff_of_false (fun hkept => ?_) fun h => by cases h rfl
          cases hparse : host.lib.parseJson s with
          | error e => simp [literalToValueTyped, hparse] at hv
          | ok val =>
              simp only [literalToValueTyped, hparse] at hv
              cases hv
              have hval : val = .string s := by
                have hshown := hkept.2
                rwa [GraphQl.valueJson, hparse] at hshown
              exact h (hval ▸ hparse)
      | array items =>
          obtain ⟨t, htext, hparse⟩ := h
          obtain rfl : e = .stringLiteral t := by simpa [Means, htext] using hmeans
          exact hdocument rfl hparse hv
      | object members =>
          obtain ⟨t, htext, hparse⟩ := h
          obtain rfl : e = .stringLiteral t := by simpa [Means, htext] using hmeans
          exact hdocument rfl hparse hv

section Reading

variable {host : Host} {lib : Library} {text : TextLibrary} (hascii : text.LikeAscii) {val : Json}
include hascii

/-- The text of a value is its literal, or for some numbers the end of the statement. -/
theorem readsItem_value (hnumber : ∀ n, val = .number n → (¬∃ i : Int64, n = ⟨some i, toString i.toInt⟩) →
    JsonNumberText n.text.toList) :
    ∃ e, ReadsItem text (jsonToSqlLiteral lib val) e ∧ ∀ e' ∈ e, Means lib val e' := by
  have hquoted : ∀ s : String, ReadsItem text (inQuotes (escapeQuotes s.toList))
      (some (.stringLiteral s)) := fun s => by
    have hread := readsAs_quoted hascii s.toList
    rw [String.ofList_toList] at hread
    exact .literal (exact_token hascii hread) rfl
  cases val with
  | null => exact ⟨some .null, .literal (exact_token hascii (readsAs_null hascii)) rfl, by simp [Means]⟩
  | bool b =>
      have htrue : ownTokens "TRUE" = [.true] := by decide +kernel
      have hfalse : ownTokens "FALSE" = [.false] := by decide +kernel
      have hword : ∀ s, isOwn s → ∀ t, ownTokens s = [t] →
          Parser.literalOf t = some (.boolLiteral b) →
          ReadsItem text s.toList (some (.boolLiteral b)) := fun s hs t ht hlit =>
        .literal (ht ▸ exact_own hascii hs) hlit
      refine ⟨some (.boolLiteral b), ?_, by simp [Means]⟩
      cases b with
      | true => exact hword "TRUE" (by decide +kernel) _ htrue rfl
      | false => exact hword "FALSE" (by decide +kernel) _ hfalse rfl
  | number n =>
      by_cases hint : ∃ i : Int64, n = ⟨some i, toString i.toInt⟩
      · obtain ⟨i, rfl⟩ := hint
        have hread := (readsValue_number hascii (numberText_int i.toInt)).item
        rw [numberLiteral, parseI64_toString] at hread
        refine ⟨some (.intLiteral i), hread, ?_⟩
        intro e' he
        cases he
        refine ⟨rfl, fun j hj => ?_⟩
        cases hj
        rfl
      · obtain ⟨e, hread, he⟩ := readsItem_number hascii (hnumber n rfl hint)
        exact ⟨e, hread, fun e' hmem => ⟨he e' hmem, fun i hi => absurd ⟨i, hi⟩ hint⟩⟩
  | string s => exact ⟨_, hquoted s, by simp [Means]⟩
  | array items => exact ⟨_, hquoted _, by simp [Means]⟩
  | object members => exact ⟨_, hquoted _, by simp [Means]⟩

end Reading

/-! ## The columns of a statement -/

section Columns

variable {lib : Library} {schema : TableSchema} {obj : Members} {table sql : Chars}

/-- The columns are listed in the order of the table, each with what was posted for it. -/
theorem insertColumns_listed (hnodup : (schema.columns.map Column.name).Nodup) :
    ∃ listed : Column → Option Json,
      insertColumns schema obj = listedColumns listed schema.columns ∧
      ∀ col ∈ schema.columns, (listed col).getD .null = posted obj col := by
  have hpresent : listedColumns (fun col => obj.lookup col.name) schema.columns =
      schema.columns.filterMap fun col => (obj.lookup col.name).map fun val => (col.name, val) := rfl
  rw [insertColumns, ← hpresent]
  split
  · next col cols hnone hcols =>
      have hall : ∀ c ∈ schema.columns, obj.lookup c.name = none := by
        simpa [listedColumns] using hnone
      refine ⟨fun c => if c.name = col.name then some .null else none, ?_, ?_⟩
      · rw [hcols, List.map_cons, List.nodup_cons] at hnodup
        have hother : ∀ c ∈ cols, c.name ≠ col.name := fun c hc heq =>
          hnodup.1 (heq ▸ List.mem_map_of_mem hc)
        have hskip : cols.filterMap (fun c => (if c.name = col.name then some Json.null else none).map
            fun item => (c.name, item)) = [] := by
          refine List.filterMap_eq_nil_iff.mpr fun c hc => ?_
          rw [if_neg (hother c hc)]
          rfl
        rw [hcols, listedColumns, List.filterMap_cons, if_pos rfl, hskip]
        rfl
      · intro c hc
        rw [posted, hall c hc]
        dsimp only
        split <;> rfl
  · exact ⟨fun col => obj.lookup col.name, rfl, fun _ _ => rfl⟩

theorem insertSql_eq_some (h : insertSql lib table schema obj = some sql) :
    insertColumns schema obj ≠ [] ∧
      sql = insertText table ((insertColumns schema obj).map fun c => c.1.toList)
        ((insertColumns schema obj).map fun c => jsonToSqlLiteral lib c.2) ++ " RETURNING *".toList := by
  rw [insertSql] at h
  split at h
  · cases h
  · next hne =>
      have hend : ∀ a b c e f g x y z : Chars, z = x ++ y →
          a ++ b ++ c ++ e ++ f ++ g ++ z = a ++ b ++ c ++ e ++ f ++ g ++ x ++ y := by
        rintro a b c e f g x y _ rfl
        exact (List.append_assoc _ _ _).symm
      refine ⟨hne, (Option.some.inj h).symm.trans ?_⟩
      exact hend _ _ _ _ _ _ ")".toList " RETURNING *".toList _ (by decide +kernel)

/-- The names of the table and of its columns are read as they stand. -/
structure PlainNames (host : Host) (table : Chars) (schema : TableSchema) : Prop where
  table : ReadsTable host.text host.debugToken table schema.name
  columns : ∀ col ∈ schema.columns, NamesColumn host.text col.name.toList col.name
  nodup : (schema.columns.map Column.name).Nodup

/-- What was posted for a column is the literal of its value. -/
def Stores (lib : Library) (obj : Members) (col : Column) (v : Value) : Prop :=
  ∃ e, Means lib (posted obj col) e ∧ literalIn lib col e = some v

variable {host : Host} (hascii : host.text.LikeAscii) (hnames : PlainNames host table schema)
  (hkinds : ∀ col ∈ schema.columns, OfKind host.lib col.ty (posted obj col))
include hascii hnames hkinds

/-- The statement is an insertion of one row, with the posted values in their columns. -/
theorem parse_insertSql (hsql : insertSql host.lib table schema obj = some sql) {stmt : Statement}
    (hparse : parse host.text host.debugToken (String.ofList sql) = .ok stmt) :
    ∃ names exprs, stmt = .insert schema.name (some names) [exprs] (some .all) ∧
      ∀ row, fullRow host.lib schema (some names) exprs = .ok row →
        List.Forall₂ (Stores host.lib obj) schema.columns row := by
  obtain ⟨listed, hlisted, hposted⟩ := @insertColumns_listed schema obj hnames.nodup
  obtain ⟨hne, rfl⟩ := insertSql_eq_some hsql
  have hmem : ∀ c ∈ insertColumns schema obj, ∃ col ∈ schema.columns, c.1 = col.name ∧
      c.2 = posted obj col := by
    intro c hc
    rw [hlisted, listedColumns] at hc
    obtain ⟨col, hcol, hc⟩ := List.mem_filterMap.mp hc
    obtain ⟨val, hval, rfl⟩ := Option.map_eq_some_iff.mp hc
    exact ⟨col, hcol, rfl, by rw [← hposted col hcol, hval]; rfl⟩
  have hread : ∀ val : Json, ∃ e, (∃ ty, OfKind host.lib ty val) →
      ReadsItem host.text (jsonToSqlLiteral host.lib val) e ∧ ∀ e' ∈ e, Means host.lib val e' := by
    intro val
    by_cases hkind : ∃ ty, OfKind host.lib ty val
    · obtain ⟨e, he⟩ := @readsItem_value host.lib host.text hascii val fun n hn hint => by
        subst hn
        obtain ⟨ty, hkind⟩ := hkind
        cases hkind with
        | integer i => exact absurd ⟨i, rfl⟩ hint
        | json h => exact h
      exact ⟨e, fun _ => he⟩
    · exact ⟨none, fun h => absurd h hkind⟩
  choose expr hexpr using hread
  have hitem : ∀ c ∈ insertColumns schema obj, ReadsItem host.text (jsonToSqlLiteral host.lib c.2)
      (expr c.2) ∧ ∀ e ∈ expr c.2, Means host.lib c.2 e := by
    intro c hc
    obtain ⟨col, hcol, -, heq⟩ := hmem c hc
    exact hexpr c.2 ⟨col.ty, heq ▸ hkinds col hcol⟩
  have hcolumns : List.Forall₂ (NamesColumn host.text)
      ((insertColumns schema obj).map fun c => c.1.toList) ((insertColumns schema obj).map Prod.fst) := by
    rw [List.forall₂_map_left_iff, List.forall₂_map_right_iff, List.forall₂_same]
    intro c hc
    obtain ⟨col, hcol, heq, -⟩ := hmem c hc
    exact heq ▸ hnames.columns col hcol
  have hvalues : List.Forall₂ (ReadsItem host.text)
      ((insertColumns schema obj).map fun c => jsonToSqlLiteral host.lib c.2)
      ((insertColumns schema obj).map fun c => expr c.2) := by
    rw [List.forall₂_map_left_iff, List.forall₂_map_right_iff, List.forall₂_same]
    exact fun c hc => (hitem c hc).1
  rcases parse_insertReturning hascii hnames.table (by simpa using hne) hcolumns (by simpa using hne)
    hvalues with ⟨exprs, hexprs, heq⟩ | ⟨-, hfails⟩
  · cases hparse.symm.trans heq
    refine ⟨_, exprs, rfl, fun row hrow => ?_⟩
    have hread : List.Forall₂ (fun val e => Means host.lib val e ∨ ∃ name, e = .column name)
        ((insertColumns schema obj).map Prod.snd) exprs := by
      rw [List.forall₂_map_left_iff] at hexprs ⊢
      refine (List.forall₂_and_left _ _ |>.mpr ⟨fun c hc => (hitem c hc).2, hexprs⟩).imp ?_
      rintro c e ⟨hmeans, hsome | ⟨-, name, rfl⟩⟩
      · exact .inl (hmeans e hsome)
      · exact .inr ⟨name, rfl⟩
    rw [hlisted] at hread hrow
    have hlands := fullRow_listed hnames.nodup hread hrow
    refine (List.forall₂_and_left _ _ |>.mpr ⟨hposted, hlands⟩).imp ?_
    rintro col v ⟨heq, hland⟩
    rw [Lands] at hland
    rw [Stores, ← heq]
    cases hcase : listed col with
    | none =>
        rw [hcase] at hland
        exact ⟨.null, rfl, hland ▸ rfl⟩
    | some val =>
        rw [hcase] at hland
        obtain ⟨e, hmeans | ⟨name, rfl⟩, hvalue⟩ := hland
        · exact ⟨e, hmeans, hvalue⟩
        · cases hvalue
  · exact absurd hparse (hfails stmt)

end Columns

/-! ## Statements on a clone -/

section Clones

variable {host : Host} {d d' : SharedDatabase} {ctx : ExecutionContext} {sql : String}
  {stmt : Statement}

theorem runLocked_run (mode : LockMode) :
    (SharedDatabase.runLocked host mode ctx stmt d).1 =
        ((Database.execute host.lib ctx host.env (host.depth + 1) stmt d.db).1).mapError .db ∧
      (SharedDatabase.runLocked host mode ctx stmt d).2.db =
        (Database.execute host.lib ctx host.env (host.depth + 1) stmt d.db).2 := by
  have hrun : SharedDatabase.runLocked host mode ctx stmt d =
      (if d.transaction.isSome then SharedDatabase.run host ctx stmt
      else do
        let token ← SharedDatabase.beginToken
        SharedDatabase.acquire token mode
        SharedDatabase.dropping (some token) (SharedDatabase.run host ctx stmt) :
        SharedDatabase.Action ExecResult) d := rfl
  rw [hrun]
  split
  · exact ⟨rfl, rfl⟩
  · exact ⟨rfl, rfl⟩

/-- A statement that a clone executes, executed by its database. -/
theorem execute_insert {table : String} {columns : Option (List String)} {rows : List (List Expr)}
    {returning : Option SelectColumns}
    (hparse : parse host.text host.debugToken sql = .ok (.insert table columns rows returning))
    {res : ExecResult} (h : SharedDatabase.executeWithContext host sql ctx d = (.ok res, d')) :
    Database.execute host.lib ctx host.env (host.depth + 1) (.insert table columns rows returning)
      d.db = (.ok res, d'.db) := by
  have hrun : SharedDatabase.executeWithContext host sql ctx d =
      SharedDatabase.runLocked host .exclusive ctx (.insert table columns rows returning) d := by
    rw [SharedDatabase.executeWithContext, hparse]
    rfl
  obtain ⟨hresult, hdb⟩ := @runLocked_run host d ctx (.insert table columns rows returning) .exclusive
  rw [← hrun, h] at hresult hdb
  exact Prod.ext (Outcome.mapError_eq_ok.mp hresult.symm) hdb.symm

theorem execute_select (table : String)
    (hparse : parse host.text host.debugToken sql = .ok (selectAll table)) :
    (SharedDatabase.executeWithContext host sql ctx d).1 =
      ((Database.execute host.lib ctx host.env (host.depth + 1) (selectAll table) d.db).1).mapError .db := by
  rw [SharedDatabase.executeWithContext, hparse]
  exact (runLocked_run .shared).1

end Clones

/-! ## An insertion and its row -/

section Insertion

variable {host : Host} {ofFloat : Float → Json} {ofFloat32 : Float32 → Json} {table sql : Chars}
  {schema : TableSchema} {req : Posting} {ctx : ExecutionContext} {body : String} {obj : Members}
  {d d' : SharedDatabase} {row : Row}

/-- Rows that the engine lists are those of its result. -/
theorem answer_rows {listing : Listing} {sql : String} (hne : listing.rows ≠ [])
    (h : (engineStore host ctx).answer sql d = (.ok listing, d')) :
    SharedDatabase.executeWithContext host sql ctx d =
      (.ok (.rows listing.columns listing.rows), d') := by
  unfold engineStore at h
  dsimp only at h
  rcases hrun : SharedDatabase.executeWithContext host sql ctx d with ⟨res | e | why, s⟩
  · rw [hrun] at h
    cases res with
    | rows columns rows =>
        dsimp only at h
        split at h
        · cases h
          rfl
        · cases h
    | modified n =>
        cases h
        exact absurd rfl hne
    | ok =>
        cases h
        exact absurd rfl hne
  · rw [hrun] at h
    cases h
  · rw [hrun] at h
    cases h

/-- The only row of a request is put in its turn. -/
theorem turn_of_post {store : Store SharedDatabase} {reply : Reply} {entry : Entry}
    (hitems : rowsToInsert host body = .ok [.object obj])
    (h : (post host ofFloat ofFloat32 table schema req ctx body).run store.handler ⟨d, []⟩ =
      (.ok reply, ⟨d', [entry]⟩)) :
    turn host table schema req store d (.object obj) = .puts entry d' := by
  have hrow := @run_postRow _ host ofFloat ofFloat32 table schema req ctx store obj ⟨d, []⟩
  rw [post, hitems] at h
  dsimp only at h hrow
  rw [Prog.run_bind, Exec.bind_apply, postRows, Prog.run_bind, Exec.bind_apply] at h
  cases hturn : turn host table schema req store d (.object obj) with
  | puts entry' s =>
      rw [hturn] at hrow
      obtain ⟨n, rows, hrow⟩ := hrow
      rw [hrow] at h
      have hend : (⟨s, [entry']⟩ : Logged SharedDatabase) = ⟨d', [entry]⟩ := congrArg Prod.snd h
      cases hend
      rfl
  | passes s =>
      rw [hturn] at hrow
      have hend : (⟨s, []⟩ : Logged SharedDatabase) = ⟨d', [entry]⟩ := by
        rcases hrow with ⟨n, rows, hrow⟩ | hrow
        · rw [hrow] at h
          exact congrArg Prod.snd h
        · rw [hrow] at h
          exact congrArg Prod.snd h
      cases hend
  | refused s =>
      rw [hturn] at hrow
      obtain ⟨e, hrow⟩ := hrow
      rw [hrow] at h
      have hend : (⟨s, []⟩ : Logged SharedDatabase) = ⟨d', [entry]⟩ := congrArg Prod.snd h
      cases hend

theorem mergeSql_ne {lib : Library} {e : QueryError} (hsql : insertSql lib table schema obj = some sql) :
    mergeSql host table schema req obj e ≠ some sql := by
  intro hmerge
  have hinsert : sql.head? = some 'I' := by
    rw [(insertSql_eq_some hsql).2]
    rfl
  have hupdate : sql.head? = some 'U' := by
    rw [mergeSql] at hmerge
    split at hmerge
    · obtain ⟨col, -, hmerge⟩ := Option.bind_eq_some_iff.mp hmerge
      obtain ⟨val, -, hmerge⟩ := Option.bind_eq_some_iff.mp hmerge
      split at hmerge
      · cases hmerge
      · rw [← Option.some.inj hmerge]
        rfl
    · cases hmerge
  rw [hinsert] at hupdate
  cases hupdate

/-- A text that is put was the insertion, not the update that may follow it. -/
theorem executed_of_turn (hsql : insertSql host.lib table schema obj = some sql)
    (h : turn host table schema req (engineStore host ctx) d (.object obj) = .puts ⟨sql, [row]⟩ d') :
    ∃ columns, SharedDatabase.executeWithContext host (String.ofList sql) ctx d =
      (.ok (.rows columns [row]), d') := by
  have haccepted : ∀ {sql' : Chars} {listing : Listing} {s : SharedDatabase},
      accepted sql' listing.rows s = .puts ⟨sql, [row]⟩ d' → sql' = sql ∧ listing.rows = [row] ∧ s = d' := by
    intro sql' listing s h
    rw [accepted] at h
    split at h
    · cases h
    · injection h with hentry hs
      injection hentry with hsql hrows
      exact ⟨hsql, hrows, hs⟩
  rw [turn, hsql] at h
  dsimp only at h
  split at h
  · next listing s hanswer =>
      obtain ⟨-, hrows, rfl⟩ := haccepted h
      exact ⟨listing.columns, hrows ▸ answer_rows (hrows ▸ List.cons_ne_nil _ _) hanswer⟩
  · split at h
    · cases h
    · split at h
      · cases h
      · next updateSql hmerge =>
          split at h
          · next listing s hupdate =>
              obtain ⟨rfl, -, -⟩ := haccepted h
              exact absurd hmerge (mergeSql_ne hsql)
          · cases h

/-- The nodes that the insertion writes fit their pages. -/
def InsertFits (host : Host) (table : Chars) (schema : TableSchema) (obj : Members)
    (d : SharedDatabase) : Prop :=
  ∀ sql stmt, insertSql host.lib table schema obj = some sql →
    parse host.text host.debugToken (String.ofList sql) = .ok stmt →
      Execute.Fits host.lib .admin host.env (host.depth + 1) stmt d.db

variable {m : OrdMap Bytes Bytes}

/-- The row of the posted values is in the table, under a key that is new. -/
theorem inserted_row (hascii : host.text.LikeAscii) (hnames : PlainNames host table schema)
    (hkinds : ∀ col ∈ schema.columns, OfKind host.lib col.ty (posted obj col))
    (hcontains : Contains host.lib d.db schema m) (hfits : InsertFits host table schema obj d)
    (h : Inserts host ofFloat ofFloat32 table schema req body obj d d' row) :
    ∃ root key payload, List.Forall₂ (Stores host.lib obj) schema.columns row ∧
      rowKey schema row = some key ∧ encodeRow schema row = some payload ∧ m.get key = none ∧
        Contains host.lib d'.db { schema with rootPage := root } (m.insert key payload) := by
  obtain ⟨sql, reply, hsql, hpost⟩ := h.exists_sql
  obtain ⟨columns, hrun⟩ := executed_of_turn hsql (turn_of_post h.items hpost)
  obtain ⟨stmt, hparse⟩ : ∃ stmt, parse host.text host.debugToken (String.ofList sql) = .ok stmt := by
    unfold SharedDatabase.executeWithContext at hrun
    split at hrun
    · next stmt hparse => exact ⟨stmt, hparse⟩
    · cases hrun
    · cases hrun
  obtain ⟨names, exprs, rfl, hstores⟩ := parse_insertSql hascii hnames hkinds hsql hparse
  obtain ⟨rows, tree, root, hfirst, hres, hcontains'⟩ := hcontains.insert rfl
    (hfits sql _ hsql hparse) (execute_insert hparse hrun)
  cases hres
  obtain ⟨haccepted, -⟩ := List.forall₂_cons.mp hfirst.accepted
  obtain ⟨key, payload, hkey, hpayload, habsent, rfl⟩ := inserted_one hfirst.inserted
  exact ⟨root, key, payload, hstores row haccepted.1, hkey, hpayload, habsent, hcontains'⟩

end Insertion

/-! ## What is shown -/

section Shown

variable {host : Host} {ofFloat : Float → Json} {ofFloat32 : Float32 → Json} {row : Row}

theorem lookup_entries {m : OrdMap String Json} (name : String) :
    m.entries.lookup name = m.get name := by
  have hfind : ∀ list : List (String × Json),
      list.lookup name = (list.find? fun e => e.1 = name).map Prod.snd := by
    intro list
    induction list with
    | nil => rfl
    | cons e list ih =>
        obtain ⟨key, json⟩ := e
        by_cases heq : name = key
        · subst heq
          simp
        · have hne : (name == key) = false := beq_false_of_ne heq
          rw [List.lookup_cons, hne, List.find?_cons_of_neg (by simpa using Ne.symm heq)]
          exact ih
  exact hfind m.entries

/-- The members of a row are the values of its columns. -/
theorem rowMembers_get {names : List String} (hnodup : names.Nodup) {idx : Nat}
    {members out : OrdMap String Json}
    (h : GraphQl.rowMembers host ofFloat ofFloat32 row idx names members = .ok out) :
    (∀ name ∉ names, out.get name = members.get name) ∧
      ∀ pair ∈ names.zip (row.drop idx),
        out.get pair.1 = some (GraphQl.valueJson host ofFloat ofFloat32 pair.2) := by
  induction names generalizing idx members with
  | nil =>
      cases h
      exact ⟨fun _ _ => rfl, nofun⟩
  | cons name names ih =>
      obtain ⟨hname, hnames⟩ := List.nodup_cons.mp hnodup
      obtain ⟨v, hv, hrest⟩ := Outcome.bind_eq_ok.mp h
      cases hrow : row[idx]? with
      | none =>
          rw [hrow] at hv
          cases hv
      | some v' =>
          rw [hrow] at hv
          cases hv
          obtain ⟨hother, hpairs⟩ := ih hnames hrest
          obtain ⟨hlt, rfl⟩ := List.getElem?_eq_some_iff.mp hrow
          have hself : out.get name = some (GraphQl.valueJson host ofFloat ofFloat32 row[idx]) := by
            rw [hother name hname, OrdMap.get_insert, if_pos rfl]
          constructor
          · intro other hmem
            obtain ⟨hne, hmem⟩ := not_or.mp (mt List.mem_cons.mpr hmem)
            rw [hother other hmem, OrdMap.get_insert, if_neg hne]
          · rw [List.drop_eq_getElem_cons hlt, List.zip_cons_cons]
            exact List.forall_mem_cons.mpr ⟨hself, hpairs⟩

theorem rowsJson_forall₂ {columns : List String} {rows : List Row} {shown : List Json}
    (h : GraphQl.rowsJson host ofFloat ofFloat32 columns rows = .ok shown) :
    List.Forall₂ (fun row json => ∃ members,
      GraphQl.rowMembers host ofFloat ofFloat32 row 0 columns .empty = .ok members ∧
        json = .object members.entries) rows shown := by
  induction rows generalizing shown with
  | nil =>
      cases h
      exact .nil
  | cons row rows ih =>
      obtain ⟨json, hjson, h⟩ := Outcome.bind_eq_ok.mp h
      obtain ⟨rest, hrest, h⟩ := Outcome.bind_eq_ok.mp h
      cases h
      obtain ⟨members, hmembers, h⟩ := Outcome.bind_eq_ok.mp hjson
      cases h
      exact .cons ⟨members, hmembers, rfl⟩ (ih hrest)

theorem exists_mem_zip {α β : Type} {as : List α} {bs : List β} (hlength : as.length = bs.length)
    {a : α} (h : a ∈ as) : ∃ b, (a, b) ∈ as.zip bs := by
  obtain ⟨i, hi, rfl⟩ := List.mem_iff_getElem.mp h
  refine ⟨bs[i], List.mem_iff_getElem.mpr ⟨i, by simpa using ⟨hi, hlength ▸ hi⟩, ?_⟩⟩
  rw [List.getElem_zip]

variable {schema : TableSchema} {obj : Members}

/-- The row is of the columns' types and shows what was posted, if no column of documents got less. -/
theorem row_kept_iff (hnodup : (schema.columns.map Column.name).Nodup)
    (hkinds : ∀ col ∈ schema.columns, OfKind host.lib col.ty (posted obj col))
    (hstores : List.Forall₂ (Stores host.lib obj) schema.columns row)
    {members : OrdMap String Json} (hmembers : GraphQl.rowMembers host ofFloat ofFloat32 row 0
      (columnNames schema) .empty = .ok members) :
    (RowTyped schema row ∧
        ∀ col ∈ schema.columns, members.entries.lookup col.name = some (posted obj col)) ↔
      ∀ col ∈ schema.columns, col.ty = .json → isDocument (posted obj col) = true := by
  obtain ⟨hlength, hstores⟩ := List.forall₂_iff_zip.mp hstores
  obtain ⟨-, hget⟩ := rowMembers_get hnodup hmembers
  rw [List.drop_zero, List.zip_map_left] at hget
  have hshown : ∀ {col v}, (col, v) ∈ schema.columns.zip row →
      members.entries.lookup col.name = some (GraphQl.valueJson host ofFloat ofFloat32 v) := by
    intro col v hpair
    rw [lookup_entries]
    exact hget (col.name, v) (List.mem_map_of_mem hpair)
  have hkept : ∀ {col v}, (col, v) ∈ schema.columns.zip row →
      (v.Typed col.ty ∧ GraphQl.valueJson host ofFloat ofFloat32 v = posted obj col ↔
        (col.ty = .json → isDocument (posted obj col) = true)) := by
    intro col v hpair
    obtain ⟨e, hmeans, hv⟩ := hstores hpair
    exact kept_iff (hkinds col (List.of_mem_zip hpair).1) hmeans (literalIn_eq_some.mp hv)
  constructor
  · rintro ⟨htyped, hposted⟩ col hcol
    obtain ⟨v, hpair⟩ := exists_mem_zip hlength hcol
    refine (hkept hpair).mp ⟨(List.forall₂_iff_zip.mp htyped).2 hpair, ?_⟩
    exact Option.some.inj ((hshown hpair).symm.trans (hposted col hcol))
  · intro h
    refine ⟨List.forall₂_iff_zip.mpr ⟨hlength, fun hpair => ?_⟩, fun col hcol => ?_⟩
    · exact ((hkept hpair).mpr (h _ (List.of_mem_zip hpair).1)).1
    · obtain ⟨v, hpair⟩ := exists_mem_zip hlength hcol
      rw [hshown hpair, ((hkept hpair).mpr (h col hcol)).2]

end Shown

/-! ## Reading the table -/

section Reading

variable {host : Host} {ofFloat : Float → Json} {ofFloat32 : Float32 → Json} {table : Chars}
  {schema : TableSchema} {d : SharedDatabase} {rows : List Row} {shown : List Json}

theorem getSql_all {text : TextLibrary} (hascii : text.LikeAscii) :
    getSql text table [] = "SELECT * FROM ".toList ++ table := by
  have hselect : selectText text ['*'] = ['*'] := by
    have hspace : text.isWhitespace '*' = false := by
      rw [hascii.isWhitespace _ (by decide)]
      decide
    have htrimmed : trimmed text ['*'] = ['*'] := by
      simp [trimmed, Text.trim, Text.trimStart, Text.trimEnd, hspace]
    have hcolumns : selectedColumns text ['*'] = [['*']] := by
      simp [selectedColumns, selectPieces, selectedColumn, htrimmed, splitOnce, Text.before]
    have hformat : formatSelectCol text ['*'] = ['*'] := by
      have hcolon : splitOnce ':' ['*'] = none := by decide
      have hkey : formatFilterKey ['*'] = ['*'] := by decide
      rw [formatSelectCol, hcolon, htrimmed]
      exact hkey
    rw [selectText, parseSelectEmbedding, hcolumns, List.map_singleton, hformat]
    rfl
  have hstart : "SELECT ".toList ++ ['*'] ++ " FROM ".toList = "SELECT * FROM ".toList := by
    decide +kernel
  have hnothing : ∀ a b c e f : Chars, b = c → a ++ c ++ e = f → a ++ b ++ e ++ table ++ [] ++ [] =
      f ++ table := by
    rintro a b c e _ rfl rfl
    simp
  exact hnothing _ _ _ _ _ hselect hstart

/-- What is shown are the rows that the statement lists. -/
theorem run_listRows {sql : String} {columns : List String} {s : SharedDatabase}
    (hrun : SharedDatabase.executeWithContext host sql .admin d = (.ok (.rows columns rows), s))
    (hwide : ∀ row ∈ rows, columns.length ≤ row.length) :
    ((listRows host ofFloat ofFloat32 sql .admin).run (engineStore host .admin).handler ⟨d, []⟩).1 =
        .ok (.ok shown) ↔
      GraphQl.rowsJson host ofFloat ofFloat32 columns rows = .ok shown := by
  obtain ⟨out, hout⟩ := @rowsJson_wide host ofFloat ofFloat32 columns rows hwide
  have hanswer : (engineStore host .admin).answer sql d = (.ok ⟨columns, rows, hwide⟩, s) := by
    unfold engineStore
    dsimp only
    rw [hrun]
    exact dif_pos hwide
  rw [listRows, Prog.run_bind, Exec.bind_apply, run_execution,
    @execute_accepted _ _ sql ⟨d, []⟩ _ _ hanswer]
  dsimp only
  rw [hout]
  change (Outcome.ok (Except.ok out) : Outcome _ (Except QueryError (List Json))) = _ ↔ _
  simp

/-- What `GET` shows are the rows that its statement lists. -/
theorem run_getAll {columns : List String}
    (hrun : (SharedDatabase.executeWithContext host (String.ofList (getSql host.text table [])) .admin
      d).1 = .ok (.rows columns rows))
    (hwide : ∀ row ∈ rows, columns.length ≤ row.length) :
    ((getAll host ofFloat ofFloat32 table .admin).run (engineStore host .admin).handler ⟨d, []⟩).1 =
        .ok (.ok shown) ↔
      GraphQl.rowsJson host ofFloat ofFloat32 columns rows = .ok shown := by
  rw [getAll]
  exact @run_listRows host ofFloat ofFloat32 d rows shown _ columns (SharedDatabase.executeWithContext
    host (String.ofList (getSql host.text table [])) .admin d).2 (Prod.ext hrun rfl) hwide

/-- The statement lists what the entries of the table decode to. -/
theorem lists_iff (hascii : host.text.LikeAscii) (hnames : PlainNames host table schema)
    {root : Storage.PageNo} {tree : OrdMap Bytes Bytes}
    (hcontains : Contains host.lib d.db { schema with rootPage := root } tree)
    (hkey : schema.primaryKeyIndex.isSome) :
    (SharedDatabase.executeWithContext host (String.ofList (getSql host.text table [])) .admin d).1 =
        .ok (.rows (columnNames schema) rows) ↔
      List.Forall₂ (fun e row => decodeRow schema e.2 = some row) tree.entries rows := by
  have hparse := @parse_selectAll host.text host.debugToken table schema.name hascii hnames.table
  rw [← getSql_all hascii] at hparse
  have hselect : (Database.execute host.lib .admin host.env (host.depth + 1) (selectAll schema.name)
      d.db).1 = allRows schema tree := hcontains.selectAll hkey rfl
  rw [execute_select schema.name hparse, hselect, Outcome.mapError_eq_ok, allRows_eq_ok]

end Reading

/-! ## The round trip -/

section RoundTrip

variable {host : Host} {ofFloat : Float → Json} {ofFloat32 : Float32 → Json} {table : Chars}
  {schema : TableSchema} {req : Posting} {body : String} {obj : Members} {d d' : SharedDatabase}
  {row : Row} {m : OrdMap Bytes Bytes}

theorem forall₂_getElem? {α β : Type} {R : α → β → Prop} {as : List α} {bs : List β}
    (h : List.Forall₂ R as bs) {i : Nat} {a : α} (hi : as[i]? = some a) :
    ∃ b, bs[i]? = some b ∧ R a b := by
  induction h generalizing i with
  | nil => cases hi
  | @cons a' b _ _ hab _ ih =>
      cases i with
      | zero =>
          cases hi
          exact ⟨b, rfl, hab⟩
      | succ i => exact ih hi

theorem typed_of_decoded {entries : List (Bytes × Bytes)} {rows : List Row}
    (h : List.Forall₂ (fun e row => decodeRow schema e.2 = some row) entries rows) :
    ∀ row ∈ rows, RowTyped schema row := by
  induction h with
  | nil => exact List.forall_mem_nil _
  | cons hrow _ ih => exact List.forall_mem_cons.mpr ⟨rowTyped_of_decodeRow hrow, ih⟩

theorem wide_of_typed {rows : List Row} (h : ∀ row ∈ rows, RowTyped schema row) :
    ∀ row ∈ rows, (columnNames schema).length ≤ row.length := by
  intro row hrow
  rw [columnNames, List.length_map, (h row hrow).length_eq]

theorem exists_decoded {entries : List (Bytes × Bytes)}
    (h : ∀ e ∈ entries, (decodeRow schema e.2).isSome) :
    ∃ rows, List.Forall₂ (fun e row => decodeRow schema e.2 = some row) entries rows := by
  induction entries with
  | nil => exact ⟨[], .nil⟩
  | cons e entries ih =>
      obtain ⟨he, hrest⟩ := List.forall_mem_cons.mp h
      obtain ⟨row, hrow⟩ := Option.isSome_iff_exists.mp he
      obtain ⟨rows, hrows⟩ := ih hrest
      exact ⟨row :: rows, .cons hrow hrows⟩

/--
`GET` shows what was posted if and only if the rows that were in the table before can be
read, and no string, number or boolean was posted to a column of documents.
-/
theorem shows_iff (hascii : host.text.LikeAscii) (hnames : PlainNames host table schema)
    (hkinds : ∀ col ∈ schema.columns, OfKind host.lib col.ty (posted obj col))
    (hcontains : Contains host.lib d.db schema m) (hfits : InsertFits host table schema obj d)
    (h : Inserts host ofFloat ofFloat32 table schema req body obj d d' row) :
    Shows host ofFloat ofFloat32 table schema obj row d' ↔
      (∀ e ∈ m.entries, (decodeRow schema e.2).isSome) ∧
        ∀ col ∈ schema.columns, col.ty = .json → isDocument (posted obj col) = true := by
  obtain ⟨root, key, payload, hstores, hkey, hpayload, habsent, hcontains'⟩ :=
    inserted_row hascii hnames hkinds hcontains hfits h
  have hpk : schema.primaryKeyIndex.isSome := by
    obtain ⟨pkIdx, hpkIdx, -⟩ := Option.bind_eq_some_iff.mp hkey
    exact Option.isSome_iff_exists.mpr ⟨pkIdx, hpkIdx⟩
  have hlists := fun {rows} => @lists_iff host table schema d' rows hascii hnames _ _ hcontains' hpk
  have hlength : schema.columns.length = row.length := hstores.length_eq
  obtain ⟨out, hout⟩ := @rowMembers_wide host ofFloat ofFloat32 row (columnNames schema) 0
    (by simp [columnNames, hlength]) .empty
  have hkept := row_kept_iff hnames.nodup hkinds hstores hout
  have hentries : ∀ e, e ∈ (m.insert key payload).entries ↔ e = (key, payload) ∨ e ∈ m.entries := by
    intro e
    refine OrdMap.mem_insert.trans (or_congr_right (and_iff_left_of_imp fun hmem heq => ?_))
    exact OrdMap.get_eq_none.mp habsent e.2 (heq ▸ hmem)
  constructor
  · rintro ⟨rows, shown, hrun, hget, i, members, hrow, hshown, hposted⟩
    have hdecoded := hlists.mp hrun
    have htyped := typed_of_decoded hdecoded
    have hjson := rowsJson_forall₂ ((run_getAll hrun (wide_of_typed htyped)).mp hget)
    obtain ⟨_, hmember, members', hmembers', rfl⟩ := forall₂_getElem? hjson hrow
    cases hmembers'.symm.trans hout
    cases hmember.symm.trans hshown
    refine ⟨fun e he => ?_, hkept.mp ⟨htyped row (List.mem_of_getElem? hrow), hposted⟩⟩
    obtain ⟨j, hj⟩ := List.getElem?_of_mem ((hentries e).mpr (.inr he))
    obtain ⟨_, -, hrow⟩ := forall₂_getElem? hdecoded hj
    exact Option.isSome_iff_exists.mpr ⟨_, hrow⟩
  · rintro ⟨hold, hdocuments⟩
    obtain ⟨htyped, hposted⟩ := hkept.mpr hdocuments
    have hnew : decodeRow schema payload = some row := decodeRow_encodeRow htyped hpayload
    obtain ⟨rows, hdecoded⟩ := @exists_decoded schema (m.insert key payload).entries fun e he => by
      rcases (hentries e).mp he with rfl | he
      · exact Option.isSome_iff_exists.mpr ⟨row, hnew⟩
      · exact hold e he
    obtain ⟨i, hi⟩ := List.getElem?_of_mem ((hentries (key, payload)).mpr (.inl rfl))
    obtain ⟨row', hrow, hdecode⟩ := forall₂_getElem? hdecoded hi
    cases hdecode.symm.trans hnew
    have hrun := hlists.mpr hdecoded
    have hwide := wide_of_typed (typed_of_decoded hdecoded)
    obtain ⟨shown, hshown⟩ := @rowsJson_wide host ofFloat ofFloat32 _ _ hwide
    obtain ⟨_, hmember, members, hmembers, rfl⟩ := forall₂_getElem? (rowsJson_forall₂ hshown) hrow
    cases hmembers.symm.trans hout
    exact ⟨rows, shown, hrun, (run_getAll hrun hwide).mpr hshown, i, _, hrow, hmember, hposted⟩

end RoundTrip

/-! ## A table with a column of documents -/

/-- An object whose document is an object, and one whose document is a text. -/
def objectBody : String := "\x7b\"id\":1,\"note\":\"it's\",\"done\":true,\"data\":\x7b\x7d\x7d"

def stringBody : String := "\x7b\"id\":1,\"data\":\"5\"\x7d"

def objectMembers : Members :=
  [("id", integer 1), ("note", .string "it's"), ("done", .bool true), ("data", .object [])]

def stringMembers : Members := [("id", integer 1), ("data", .string "5")]

/-- A JSON library for these texts. -/
def documentLibrary : Library :=
  { plainLibrary with
    parseJson := fun s =>
      if s = objectBody then .ok (.object objectMembers)
      else if s = stringBody then .ok (.object stringMembers)
      else if s = "5" then .ok (integer 5)
      else if s = "\x7b\x7d" then .ok (.object [])
      else .error "expected value"
    jsonText := fun
      | .object [] => some "\x7b\x7d"
      | _ => none }

def documentHost : Host := { Running.plainHost with lib := documentLibrary }

def docsSchema : TableSchema :=
  ⟨"docs", [⟨"id", .integer, true, true⟩, ⟨"note", .text, false, false⟩,
    ⟨"done", .boolean, false, false⟩, ⟨"data", .json, false, false⟩], 3, false⟩

def createDocs : Statement :=
  .createTable "docs" [⟨"id", .integer, true, true⟩, ⟨"note", .text, false, false⟩,
    ⟨"done", .boolean, false, false⟩, ⟨"data", .json, false, false⟩]

/-- A clone of the database with the empty table. -/
def docs : SharedDatabase where
  db := (Database.execute documentLibrary .admin plainEnvironment 1 createDocs
    (createdAtRest plainEnvironment)).2
  owners _ := []
  nextTx := 1
  transaction := none

/-- The state after a body was posted. -/
def afterPost (body : String) : SharedDatabase :=
  ((post documentHost (fun _ => .null) (fun _ => .null) "docs".toList docsSchema plainPost .admin
    body).run (engineStore documentHost .admin).handler ⟨docs, []⟩).2.db

theorem inserts_docs {body : String} {obj : Members} {row : Row}
    (hitems : rowsToInsert documentHost body = .ok [.object obj])
    (hputs : (entries documentHost "docs".toList docsSchema plainPost
        (engineStore documentHost .admin) docs [.object obj]).map (fun e => (some e.sql, e.rows)) =
      [(insertSql documentLibrary "docs".toList docsSchema obj, [row])]) :
    Inserts documentHost (fun _ => .null) (fun _ => .null) "docs".toList docsSchema plainPost body obj
      docs (afterPost body) row := by
  obtain ⟨reply, db, hrun, -⟩ := @run_post _ documentHost (fun _ => .null) (fun _ => .null)
    "docs".toList docsSchema plainPost .admin (engineStore documentHost .admin) body _ hitems docs
  obtain ⟨⟨sql, rows⟩, hentries, heq⟩ := List.map_eq_singleton_iff.mp hputs
  obtain ⟨hsql, rfl⟩ := Prod.mk.inj heq
  refine ⟨hitems, sql, reply, hsql.symm, ?_⟩
  rw [afterPost, hrun, hentries]

example : (afterPost objectBody).transaction = none := by decide +kernel

theorem plainNames_docs : PlainNames documentHost "docs".toList docsSchema where
  table := (namesColumn_own asciiLibrary_likeAscii (by decide +kernel)
    (show ownTokens "docs" = [.identifier "docs"] by decide +kernel) rfl).readsTable
  columns := by
    have hall : ∀ c ∈ docsSchema.columns, isOwn c.name ∧ ownTokens c.name = [.identifier c.name] := by
      decide +kernel
    intro col hcol
    exact namesColumn_own asciiLibrary_likeAscii (hall col hcol).1 (hall col hcol).2 rfl
  nodup := by decide

theorem contains_docs : ∃ m, Contains documentLibrary docs.db docsSchema m ∧
    ∀ e ∈ m.entries, (decodeRow docsSchema e.2).isSome := by
  obtain ⟨f, hd, ⟨cat, lay, hsound⟩, hidle, hclean⟩ := createdAtRest_plain documentLibrary
  have hstands : Stands documentLibrary (createdAtRest plainEnvironment)
      ⟨Catalog.dictionary documentLibrary cat, none⟩ :=
    ⟨f, hd, ⟨cat, lay, hsound, rfl⟩, hidle ▸ .outside⟩
  have hok : (Database.execute documentLibrary .admin plainEnvironment 1 createDocs
      (createdAtRest plainEnvironment)).1 = .ok .ok := by decide +kernel
  have hplain : Held.Unforced ⟨Catalog.dictionary documentLibrary cat, none⟩ .admin :=
    fun hadmin => by cases hadmin
  have hfits : Execute.Fits documentLibrary .admin plainEnvironment 1 createDocs
      (createdAtRest plainEnvironment) := by
    unfold Execute.Fits
    decide +kernel
  obtain ⟨s, -, hstands⟩ := hstands.execute_ok hplain (show Plain createDocs from trivial)
    (fun hbegin => by cases hbegin) hfits (Prod.ext hok rfl)
  have hfound : ((Catalog.getTable "docs").run (Database.answer plainEnvironment) docs.db).1 =
      .ok (some docsSchema) := by decide +kernel
  obtain ⟨m, hm⟩ := hstands.contains (by decide +kernel) hfound
  refine ⟨m, hm, ?_⟩
  have hselect : (Database.execute documentLibrary .admin plainEnvironment 1 (selectAll "docs")
      docs.db).1 = allRows docsSchema m := hm.selectAll rfl rfl
  have hempty : (Database.execute documentLibrary .admin plainEnvironment 1 (selectAll "docs")
      docs.db).1 = .ok (.rows (columnNames docsSchema) []) := by decide +kernel
  have hrows := allRows_eq_ok.mp (hselect.symm.trans hempty)
  rw [List.forall₂_nil_right_iff.mp hrows]
  exact nofun

/-- The object whose document is an object comes back. -/
theorem shows_docs :
    Shows documentHost (fun _ => .null) (fun _ => .null) "docs".toList docsSchema objectMembers
      [.integer 1, .text "it's", .boolean true, .json "\x7b\x7d"] (afterPost objectBody) := by
  obtain ⟨m, hcontains, hdecode⟩ := contains_docs
  have hitems : rowsToInsert documentHost objectBody = .ok [.object objectMembers] := by
    simp only [rowsToInsert, documentHost, documentLibrary, if_pos]
  have hinserts : Inserts documentHost (fun _ => .null) (fun _ => .null) "docs".toList docsSchema
      plainPost objectBody objectMembers docs (afterPost objectBody)
      [.integer 1, .text "it's", .boolean true, .json "\x7b\x7d"] :=
    inserts_docs hitems (by decide +kernel)
  have hfits : InsertFits documentHost "docs".toList docsSchema objectMembers docs := by
    intro sql' stmt hsql' hparse
    have hall : ((parse documentHost.text documentHost.debugToken (String.ofList
        ((insertSql documentLibrary "docs".toList docsSchema objectMembers).getD []))).bind
          fun stmt => .ok (decide (Execute.Fits documentLibrary .admin documentHost.env
            (documentHost.depth + 1) stmt docs.db))) = .ok true := by decide +kernel
    rw [show insertSql documentLibrary "docs".toList docsSchema objectMembers = some sql' from hsql',
      Option.getD_some, hparse] at hall
    exact of_decide_eq_true (Outcome.ok.inj hall)
  have hkinds : ∀ col ∈ docsSchema.columns,
      OfKind documentLibrary col.ty (posted objectMembers col) := by
    simp only [docsSchema, List.forall_mem_cons]
    exact ⟨.integer 1, .text "it's", .boolean true,
      .json ⟨"\x7b\x7d", rfl, rfl⟩, List.forall_mem_nil _⟩
  exact (shows_iff asciiLibrary_likeAscii plainNames_docs hkinds hcontains hfits hinserts).mpr
    ⟨hdecode, by decide +kernel⟩

/-- A text in a column of documents is shown as the number that it spells. -/
theorem text_becomes_number :
    (∀ col ∈ docsSchema.columns, OfKind documentLibrary col.ty (posted stringMembers col)) ∧
      Inserts documentHost (fun _ => .null) (fun _ => .null) "docs".toList docsSchema plainPost
        stringBody stringMembers docs (afterPost stringBody) [.integer 1, .null, .null, .json "5"] ∧
      (∃ members, ((getAll documentHost (fun _ => .null) (fun _ => .null) "docs".toList .admin).run
          (engineStore documentHost .admin).handler ⟨afterPost stringBody, []⟩).1 =
            .ok (.ok [.object members]) ∧ members.lookup "data" = some (integer 5)) ∧
      ¬Shows documentHost (fun _ => .null) (fun _ => .null) "docs".toList docsSchema stringMembers
        [.integer 1, .null, .null, .json "5"] (afterPost stringBody) := by
  have hitems : rowsToInsert documentHost stringBody = .ok [.object stringMembers] := by
    have hne : stringBody ≠ objectBody := by decide
    simp only [rowsToInsert, documentHost, documentLibrary, if_neg hne, if_pos]
  have hkinds : ∀ col ∈ docsSchema.columns,
      OfKind documentLibrary col.ty (posted stringMembers col) := by
    simp only [docsSchema, List.forall_mem_cons]
    exact ⟨.integer 1, .null .text, .null .boolean, .json (show _ ≠ _ by rintro ⟨⟩), List.forall_mem_nil _⟩
  have hlist : (SharedDatabase.executeWithContext documentHost (String.ofList (getSql
      documentHost.text "docs".toList [])) .admin (afterPost stringBody)).1 =
        .ok (.rows (columnNames docsSchema) [[.integer 1, .null, .null, .json "5"]]) := by
    decide +kernel
  have hget := (@run_getAll documentHost (fun _ => .null) (fun _ => .null) _ _ _
    [.object [("data", integer 5), ("done", .null), ("id", integer 1), ("note", .null)]] _ hlist
    (by decide)).mpr rfl
  refine ⟨hkinds, inserts_docs hitems (by decide +kernel), ⟨_, hget, rfl⟩, ?_⟩
  rintro ⟨_, shown, -, hshown, i, members, -, hmember, hposted⟩
  cases hget.symm.trans hshown
  obtain ⟨hlt, heq⟩ := List.getElem?_eq_some_iff.mp hmember
  obtain rfl : i = 0 := by simpa using hlt
  cases heq
  have hdata := hposted ⟨"data", .json, false, false⟩ (by decide)
  cases hdata

end ChocoBase.Server.Rest
