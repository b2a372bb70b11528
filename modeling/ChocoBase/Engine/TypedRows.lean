import ChocoBase.Engine.StoredRows
import ChocoBase.Engine.World
import ChocoBase.Plan.Semantics

/-!
# Rows of tables and joins

The rows that a join yields have in each column a value of the column's type, or null, like
those of its tables.  So the values of one column compare.
-/

namespace ChocoBase.Engine

open ChocoBase.Foundation ChocoBase.Storage ChocoBase.Sql ChocoBase.Types ChocoBase.Auth
  ChocoBase.Catalog ChocoBase.Plan

theorem comparable_of_typed {ty : ColumnType} {v w : Value} (hv : v.Typed ty) (hw : w.Typed ty) :
    Comparable v w := by
  unfold Comparable
  cases v with
  | null => exact .inl rfl
  | _ =>
      cases w with
      | null => exact .inr (.inl rfl)
      | _ => cases ty <;> first | exact hv.elim | exact hw.elim | exact .inr (.inr rfl)

theorem exists_comparable {schema : TableSchema} {a b : Row} {idx : Nat} (ha : RowTyped schema a)
    (hb : RowTyped schema b) (hidx : idx < schema.columns.length) :
    ∃ v w, a[idx]? = some v ∧ b[idx]? = some w ∧ Comparable v w := by
  have hlta : idx < a.length := ha.length_eq ▸ hidx
  have hltb : idx < b.length := hb.length_eq ▸ hidx
  exact ⟨a[idx], b[idx], List.getElem?_eq_getElem hlta, List.getElem?_eq_getElem hltb,
    comparable_of_typed (ha.get hidx hlta) (hb.get hidx hltb)⟩

theorem returns_of_outcome {ε α : Type} {w : World} {x : DbProg ε α} {a : α}
    (h : w.outcome x = .ok a) : ∃ ops, x.Returns ops a := by
  have hrun : x.run w.handler () = (.ok a, ()) := by
    unfold World.outcome at h
    exact Prod.ext h rfl
  exact ⟨_, Prog.returns_of_run hrun⟩

theorem mem_collectMany {α : Type} {f : α → Rows} {ending : Outcome ExecError Unit}
    {items : List α} {row : Row} (h : row ∈ (collectMany f ending items).rows) :
    ∃ item ∈ items, row ∈ (f item).rows := by
  induction items with
  | nil => simp [collectMany] at h
  | cons item items ih =>
      rw [collectMany] at h
      split at h
      · rcases List.mem_append.mp h with h | h
        · exact ⟨item, List.mem_cons_self, h⟩
        · obtain ⟨item', hmem, hrow⟩ := ih h
          exact ⟨item', List.mem_cons_of_mem _ hmem, hrow⟩
      · exact ⟨item, List.mem_cons_self, h⟩

/-! ## Joins -/

theorem typed_nulls {cols : List Column} :
    List.Forall₂ (fun (c : Column) v => v.Typed c.ty) cols
      (List.replicate cols.length Value.null) := by
  induction cols with
  | nil => exact .nil
  | cons col cols ih => exact .cons trivial ih

theorem rowTyped_append {left right : TableSchema} {a b : Row} (ha : RowTyped left a)
    (hb : RowTyped right b) : RowTyped (joinSchema left right) (a ++ b) :=
  List.rel_append ha hb

theorem rowTyped_qualifiedSchema {base : TableSchema} {qualifier : String} {row : Row}
    (h : RowTyped base row) : RowTyped (qualifiedSchema base qualifier) row := by
  unfold RowTyped qualifiedSchema
  rw [List.forall₂_map_left_iff]
  exact h

theorem eq_of_joinMatches {lib : Library} {schema : TableSchema} {condition : Option Expr}
    {combined found : Row} (h : joinMatches lib schema condition combined = .ok (some found)) :
    found = combined := by
  unfold joinMatches at h
  split at h
  · cases h
    rfl
  · split at h
    · split at h
      · cases h
        rfl
      · cases h
    · cases h
    · cases h

theorem nestedLoopJoin_typed {lib : Library} {left right : TableSchema} {joinType : JoinType}
    {condition : Option Expr} {leftRows rightRows : Rows} (hleft : TypedRows left leftRows)
    (hright : TypedRows right rightRows) :
    TypedRows (joinSchema left right) (nestedLoopJoin lib right.columns.length joinType condition
      (joinSchema left right) leftRows rightRows) := by
  intro row hrow
  unfold nestedLoopJoin at hrow
  split at hrow
  · next rightRows' houtcome =>
      obtain ⟨a, ha, hrow⟩ := mem_collectMany hrow
      have hright' : ∀ b ∈ rightRows', RowTyped right b := by
        obtain ⟨rows, ending⟩ := rightRows
        cases ending <;> cases houtcome
        exact hright
      have hfound : ∀ found ∈ (collect (fun b => joinMatches lib (joinSchema left right) condition
          (a ++ b)) (.ok ()) rightRows').rows, RowTyped (joinSchema left right) found := by
        intro found hfound
        obtain ⟨b, hb, hmatches⟩ := mem_collect hfound
        rw [eq_of_joinMatches hmatches]
        exact rowTyped_append (hleft a ha) (hright' b hb)
      unfold joinRow at hrow
      dsimp only at hrow
      split at hrow
      · rw [List.mem_singleton.mp hrow]
        exact rowTyped_append (hleft a ha) typed_nulls
      · exact hfound row hrow
  · simp at hrow
  · simp at hrow

theorem tableRef_typed {w : World} {lib : Library} : ∀ {tableRef : TableRef}
    {plan : DbProg ExecError Rows} {schema : TableSchema} {rows : Rows},
    w.outcome (buildTableRefPlan lib tableRef) = .ok (plan, schema) →
      w.outcome plan = .ok rows → TypedRows schema rows
  | .table name asName => by
      intro h hrows
      rw [buildTableRefPlan] at h
      obtain ⟨found, -, h⟩ := (World.outcome_bind_ok w).mp h
      cases found with
      | none => cases h
      | some base =>
          cases h
          obtain ⟨ops, hreturns⟩ := returns_of_outcome hrows
          exact fun row hrow => rowTyped_qualifiedSchema (seqScan_typed hreturns row hrow)
  | .join left right joinType condition => by
      intro h hrows
      rw [buildTableRefPlan] at h
      obtain ⟨⟨leftPlan, leftSchema⟩, hleft, h⟩ := (World.outcome_bind_ok w).mp h
      obtain ⟨⟨rightPlan, rightSchema⟩, hright, h⟩ := (World.outcome_bind_ok w).mp h
      cases h
      obtain ⟨rightRows, hrightRows, hrows⟩ := (World.outcome_bind_ok w).mp hrows
      obtain ⟨leftRows, hleftRows, hrows⟩ := (World.outcome_bind_ok w).mp hrows
      cases hrows
      exact nestedLoopJoin_typed (tableRef_typed hleft hleftRows) (tableRef_typed hright hrightRows)

end ChocoBase.Engine
