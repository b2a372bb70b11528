import ChocoBase.Foundation.StableSort
import ChocoBase.Plan.Panics
import ChocoBase.Plan.Planner

/-!
# Sorting and limits

What the operators that sort, project and limit do with rows that can all be read.
-/

namespace ChocoBase.Plan

open ChocoBase.Foundation ChocoBase.Sql ChocoBase.Types ChocoBase.Auth

variable {input : Rows} {rows out : List Row}

theorem eq_of_outcome (h : input.outcome = .ok rows) : input = ⟨rows, .ok ()⟩ := by
  obtain ⟨rows', ending⟩ := input
  unfold Rows.outcome at h
  cases ending with
  | ok value =>
      cases h
      rfl
  | error reason => cases h
  | stop why => cases h

/-! ## Projections -/

/-- A projection, of each row by itself. -/
def mapRows (f : Row → Outcome ExecError Row) (input : Rows) : Rows :=
  collect (fun row => (f row).bind fun out => .ok (some out)) input.ending input.rows

theorem project_eq (indices : List Nat) :
    project indices input = mapRows (fun row => indexAll row indices) input := rfl

theorem projectExpr_eq (lib : Library) (schema : TableSchema) (exprs : List Expr)
    (ctx : ExecutionContext) : projectExpr lib schema exprs ctx input =
      mapRows (fun row => evalAll lib schema ctx row exprs) input := rfl

/-- The row that a projection makes, where it makes one. -/
def imageOf (f : Row → Outcome ExecError Row) (row : Row) : Row :=
  match f row with
  | .ok out => out
  | _ => []

theorem mapRows_outcome_iff {f : Row → Outcome ExecError Row} :
    (mapRows f input).outcome = .ok out ↔
      (∃ rows, input.outcome = .ok rows ∧ (∀ row ∈ rows, f row = .ok (imageOf f row)) ∧
        out = rows.map (imageOf f)) := by
  obtain ⟨rows, ending⟩ := input
  unfold mapRows
  induction rows generalizing out with
  | nil => cases ending <;> simp [collect, Rows.outcome, Outcome.bind, eq_comm]
  | cons row rows ih =>
      rw [collect]
      cases hrow : f row with
      | ok image =>
          have himage : imageOf f row = image := by simp [imageOf, hrow]
          cases hrest : (collect (fun row => (f row).bind fun out => .ok (some out)) ending rows) with
          | mk rest ending' =>
            simp only [hrest] at ih
            have hpush : (Rows.push image ⟨rest, ending'⟩).outcome = .ok out ↔
                ∃ out', (Rows.mk rest ending').outcome = .ok out' ∧ out = image :: out' := by
              cases ending' <;> simp [Rows.push, Rows.outcome, Outcome.bind, eq_comm]
            refine hpush.trans ?_
            simp only [ih]
            cases ending <;>
              simp [Rows.outcome, Outcome.bind, hrow, himage]
      | error reason =>
          cases ending <;> simp [Rows.outcome, Outcome.bind, hrow]
      | stop why => cases ending <;> simp [Rows.outcome, Outcome.bind, hrow]

theorem indexAll_full {row : Row} {n : Nat} (h : row.length = n) :
    indexAll row (List.range n) = .ok row := by
  have hdrop (k : Nat) : ∀ j, j + k = row.length →
      indexAll row (List.range' j k) = .ok (row.drop j) := by
    induction k with
    | zero =>
        intro j hj
        rw [List.range'_zero, List.drop_eq_nil_of_le (by omega)]
        rfl
    | succ k ih =>
        intro j hj
        have hlt : j < row.length := by omega
        rw [List.range'_succ, indexAll, ih (j + 1) (by omega), List.getElem?_eq_getElem hlt,
          List.drop_eq_getElem_cons hlt]
        rfl
  rw [List.range_eq_range']
  exact hdrop n 0 (by omega)

theorem indexAll_length {row : Row} {indices : List Nat} {out : Row}
    (h : indexAll row indices = .ok out) : out.length = indices.length := by
  induction indices generalizing out with
  | nil =>
      cases h
      rfl
  | cons i indices ih =>
      obtain ⟨v, -, h⟩ := Outcome.bind_eq_ok.mp h
      obtain ⟨vs, hvs, h⟩ := Outcome.bind_eq_ok.mp h
      cases h
      rw [List.length_cons, List.length_cons, ih hvs]

theorem evalAll_length {lib : Library} {schema : TableSchema} {ctx : ExecutionContext} {row : Row}
    {exprs : List Expr} {out : Row} (h : evalAll lib schema ctx row exprs = .ok out) :
    out.length = exprs.length := by
  induction exprs generalizing out with
  | nil =>
      cases h
      rfl
  | cons e exprs ih =>
      obtain ⟨v, -, h⟩ := Outcome.bind_eq_ok.mp h
      obtain ⟨vs, hvs, h⟩ := Outcome.bind_eq_ok.mp h
      cases h
      rw [List.length_cons, List.length_cons, ih hvs]

/-! ## Limits -/

def limited (limitRows : Option Int64) (rows : List Row) : List Row :=
  match limitRows with
  | none => rows
  | some n => rows.take n.toInt.toNat

theorem outcome_limit (n : Int64) :
    (limit n ⟨rows, .ok ()⟩).outcome = .ok (rows.take n.toInt.toNat) := by
  unfold limit
  by_cases hnone : n ≤ 0
  · rw [Int64.le_iff_toInt_le] at hnone
    rw [if_pos (Int64.le_iff_toInt_le.mpr hnone), Int.toNat_of_nonpos hnone]
    rfl
  · rw [if_neg hnone]
    split
    · rfl
    · next hlength =>
        rw [List.take_of_length_le (Nat.le_of_lt (Nat.lt_of_not_le hlength))]
        rfl

/-! ## Sorts -/

section Keys

variable {α : Type}

def keyCmp (descending : Bool) (v w : Option Value) : Option Ordering := do
  let x ← v
  let y ← w
  let ord ← sqlCmpNullable x y
  return if descending then ord.swap else ord

/-- One item does not come after another by their keys. -/
def KeyLe (descending : Bool) (key : α → Option Value) (a b : α) : Prop :=
  keyCmp descending (key a) (key b) ≠ some .gt

instance {descending : Bool} {key : α → Option Value} : DecidableRel (KeyLe descending key) :=
  fun _ _ => inferInstanceAs (Decidable (_ ≠ _))

/-- The stable sort by a key. -/
def orderedBy (descending : Bool) (key : α → Option Value) (items : List α) : List α :=
  items.insertionSort (KeyLe descending key)

/-- All items have the key, and the keys are null or of one type. -/
def OneType (key : α → Option Value) (items : List α) : Prop :=
  ∀ a ∈ items, ∀ b ∈ items, ∃ v w, key a = some v ∧ key b = some w ∧ Comparable v w

theorem orderedBy_map {β : Type} {descending : Bool} {key : β → Option Value} (f : α → β)
    (items : List α) : (orderedBy descending (key ∘ f) items).map f =
      orderedBy descending key (items.map f) :=
  List.map_insertionSort _ _ f items fun _ _ _ _ => Iff.rfl

theorem outcome_sort {idx : Nat} {descending : Bool} (h : OneType (fun row : Row => row[idx]?) rows) :
    (sort idx descending ⟨rows, .ok ()⟩).outcome =
      .ok (orderedBy descending (fun row : Row => row[idx]?) rows) := by
  have hinput : (sort idx descending ⟨rows, .ok ()⟩).outcome = sortRows idx descending rows := by
    unfold sort
    cases hsort : sortRows idx descending rows <;> simp [Rows.outcome, Outcome.bind, hsort,
      Rows.ofOutcome]
  rw [hinput]
  unfold sortRows
  split
  · next hshort =>
      match rows, hshort with
      | [], _ => rfl
      | [row], _ => rfl
  · have hall : (rows.all fun a => rows.all fun b => (sortCmp idx descending a b).isSome) = true := by
      simp only [List.all_eq_true, sortCmp_isSome_iff]
      exact h
    rw [if_pos hall]
    rfl

end Keys

end ChocoBase.Plan
