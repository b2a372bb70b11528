import ChocoBase.Engine.Grouped
import ChocoBase.Engine.TypedRows

/-!
# ORDER BY and LIMIT

The rows of a query in order, against the rows that it has without.  A column to sort by is
looked for in the table before it is in the result, and grouped queries do not look for it.
-/

namespace ChocoBase.Engine

open ChocoBase.Foundation ChocoBase.Storage ChocoBase.Sql ChocoBase.Types ChocoBase.Auth
  ChocoBase.Catalog ChocoBase.Plan

section Plain

variable (lib : Library) (ctx : ExecutionContext)

/-! ## Queries without groups -/

/-- The names of a result and the projection to it. -/
def outputOf (isJoin : Bool) (schema : TableSchema) :
    SelectColumns → Outcome PlanError (List String × (Row → Outcome ExecError Row))
  | .items items =>
      let exprs := itemExprs isJoin schema items
      .ok (exprs.map Prod.fst, fun row => evalAll lib schema ctx row (exprs.map Prod.snd))
  | .list names => (columnIndices schema names).bind fun indices =>
      .ok (names, fun row => indexAll row indices)
  | .all => .ok (columnNames schema, fun row =>
      indexAll row (List.range schema.columns.length))

/-- The sort before the projection and the one after it. -/
def sortsOf (schema : TableSchema) (names : List String) (orderBy : Option (String × Bool)) :
    SelectColumns → Option (String × Bool) × Option (Nat × Bool)
  | .items _ => sortPlan schema names orderBy
  | _ => (orderBy, none)

/-- A query without groups, above the rows that its condition selects. -/
def finishPlain (isJoin : Bool) (schema : TableSchema) (args : SelectArgs) (input : Rows) :
    Outcome DbError ExecResult :=
  ((outputOf lib ctx isJoin schema args.columns).mapError DbError.plan).bind fun (names, f) =>
    ((sortIndex schema (sortsOf schema names args.orderBy args.columns).1).mapError
        DbError.plan).bind fun planSort =>
      ((limitTo args.limit (sortBy (sortsOf schema names args.orderBy args.columns).2
        (mapRows f (sortBy planSort input)))).outcome.mapError DbError.exec).bind fun rows =>
          .ok (.rows names rows)

def isGrouped (args : SelectArgs) : Bool := args.groupBy.isSome || hasAggregate args.columns

/-! ## The rows below -/

/-- What a query on a table reads, below its projection. -/
structure TableSource (w : World) (table : String) (whereClause : Option Expr)
    (schema : TableSchema) (input : Rows) : Prop where
  found : w.outcome (requireTable table) = .ok schema
  read : ∃ indexes pkIdx pkCol raw, w.outcome (listIndexesForTable table) = .ok indexes ∧
    schema.primaryKeyIndex = some pkIdx ∧ schema.columns[pkIdx]? = some pkCol ∧
    w.outcome ((choosePath pkCol.name indexes whereClause).1.read schema) = .ok raw ∧
    input = filterBy lib ctx schema (choosePath pkCol.name indexes whereClause).2 raw

/-- What a query on a join reads. -/
structure JoinSource (w : World) (tableRef : TableRef) (whereClause : Option Expr)
    (schema : TableSchema) (input : Rows) : Prop where
  read : ∃ plan raw, w.outcome (buildTableRefPlan lib tableRef) = .ok (plan, schema) ∧
    w.outcome plan = .ok raw ∧ input = filterBy lib ctx schema whereClause raw

variable {lib ctx} {w : World} {schema : TableSchema} {input : Rows} {args : SelectArgs}

theorem filterBy_typed {predicate : Option Expr} {raw : Rows} (h : TypedRows schema raw) :
    TypedRows schema (filterBy lib ctx schema predicate raw) := by
  cases predicate with
  | none => exact h
  | some predicate => exact filter_typed h

theorem TableSource.typed {table : String} {whereClause : Option Expr}
    (h : TableSource lib ctx w table whereClause schema input) : TypedRows schema input := by
  obtain ⟨indexes, pkIdx, pkCol, raw, -, -, -, hraw, rfl⟩ := h.read
  obtain ⟨ops, hreturns⟩ := returns_of_outcome hraw
  exact filterBy_typed (read_typed hreturns)

theorem JoinSource.typed {tableRef : TableRef} {whereClause : Option Expr}
    (h : JoinSource lib ctx w tableRef whereClause schema input) : TypedRows schema input := by
  obtain ⟨plan, raw, hplan, hraw, rfl⟩ := h.read
  exact filterBy_typed (tableRef_typed hplan hraw)

/-- Rows of full width stay as they are if all columns are taken. -/
theorem project_range (h : TypedRows schema input) :
    project (List.range schema.columns.length) input = input := by
  obtain ⟨rows, ending⟩ := input
  unfold project
  induction rows with
  | nil => rfl
  | cons row rows ih =>
      have hrow := h row List.mem_cons_self
      have hrest := ih fun row' hmem => h row' (List.mem_cons_of_mem _ hmem)
      dsimp only at hrest ⊢
      rw [collect, indexAll_full hrow.length_eq.symm]
      exact congrArg (Rows.push row) hrest

theorem sortBy_typed {sortKey : Option (Nat × Bool)} (h : TypedRows schema input) :
    TypedRows schema (sortBy sortKey input) := by
  cases sortKey with
  | none => exact h
  | some key =>
      intro row hrow
      unfold sortBy sort at hrow
      cases hinput : input.outcome.bind (sortRows key.1 key.2) with
      | ok sorted =>
          obtain ⟨rows, hrows, hsorted⟩ := Outcome.bind_eq_ok.mp hinput
          rw [eq_of_outcome hrows] at h
          simp only [hinput, Rows.ofOutcome] at hrow
          unfold sortRows at hsorted
          split at hsorted
          · cases hsorted
            exact h row hrow
          · split at hsorted
            · cases hsorted
              exact h row ((List.mem_insertionSort _).mp hrow)
            · cases hsorted
      | error reason => simp [hinput, Rows.ofOutcome] at hrow
      | stop why => simp [hinput, Rows.ofOutcome] at hrow

/-! ## What is read is finished -/

theorem build_of_source {indexes : List IndexSchema} {whereClause : Option Expr} {pkIdx : Nat}
    {pkCol : Column} (hpkIdx : schema.primaryKeyIndex = some pkIdx)
    (hpkCol : schema.columns[pkIdx]? = some pkCol) {indices : List Nat}
    {orderBy : Option (String × Bool)} {limitRows : Option Int64} {raw : Rows}
    (hraw : w.outcome ((choosePath pkCol.name indexes whereClause).1.read schema) = .ok raw) :
    ((w.outcome (planned (buildSelectPlanWithContext lib schema indexes whereClause indices orderBy
        limitRows ctx))).bind fun plan => w.outcome ((plan.read schema).mapError DbError.exec)) =
      ((sortIndex schema orderBy).mapError DbError.plan).bind fun planSort =>
        .ok (limitTo limitRows (project indices (sortBy planSort
          (filterBy lib ctx schema (choosePath pkCol.name indexes whereClause).2 raw)))) := by
  have hread (above : Rows → Rows) : w.outcome ((SelectPlan.read schema
      ⟨(choosePath pkCol.name indexes whereClause).1, above⟩).mapError DbError.exec) =
        .ok (above raw) := by
    rw [World.outcome_mapError, SelectPlan.read, World.outcome_bind, hraw]
    rfl
  unfold planned buildSelectPlanWithContext sortIndex
  rw [World.outcome_ofOutcome, hpkIdx, Outcome.unwrap]
  simp only [Bind.bind, Outcome.bind, hpkCol, Outcome.unwrap]
  unfold filterBy limitTo sortBy
  generalize choosePath pkCol.name indexes whereClause = chosen at hread ⊢
  obtain ⟨path, residual⟩ := chosen
  cases orderBy with
  | none =>
      refine (hread _).trans ?_
      cases residual <;> cases limitRows <;> rfl
  | some order =>
      obtain ⟨col, desc⟩ := order
      dsimp only
      cases schema.columnIndex col with
      | none => rfl
      | some idx =>
          refine (hread _).trans ?_
          cases residual <;> cases limitRows <;> rfl

theorem outcome_collectRows {rows : Rows} :
    w.outcome (collectRows rows) = rows.outcome.mapError DbError.exec := by
  rw [collectRows, World.outcome_ofOutcome]

theorem outcome_planned {α : Type} {x : Outcome PlanError α} :
    w.outcome (planned x) = x.mapError DbError.plan := by
  rw [planned, World.outcome_ofOutcome]

theorem outcome_selectTable {table : String} (hplain : isGrouped args = false)
    (h : TableSource lib ctx w table args.whereClause schema input) :
    w.outcome (selectTable lib ctx table args) = finishPlain lib ctx false schema args input := by
  have htyped := h.typed
  obtain ⟨indexes, pkIdx, pkCol, raw, hindexes, hpkIdx, hpkCol, hraw, rfl⟩ := h.read
  unfold selectTable finishPlain
  rw [World.outcome_bind, h.found, Outcome.bind, World.outcome_bind, hindexes, Outcome.bind]
  unfold isGrouped at hplain
  rw [if_neg (by simp [hplain])]
  cases args.columns with
  | items items =>
      simp only [World.outcome_bind]
      rw [← Outcome.bind_assoc, build_of_source hpkIdx hpkCol hraw, Outcome.bind_assoc]
      refine congrArg _ (funext fun planSort => ?_)
      rw [Outcome.bind, limitTo, project_range (sortBy_typed htyped), outcome_collectRows]
      rfl
  | all =>
      simp only [World.outcome_bind]
      change (w.outcome (planned _)).bind _ = _
      rw [← Outcome.bind_assoc, build_of_source hpkIdx hpkCol hraw, Outcome.bind_assoc]
      refine congrArg _ (funext fun planSort => ?_)
      rw [Outcome.bind, outcome_collectRows]
      rfl
  | list names =>
      rw [World.outcome_bind, outcome_planned, outputOf]
      cases columnIndices schema names with
      | ok indices =>
          change w.outcome (planned _ >>= _) = _
          simp only [World.outcome_bind]
          rw [← Outcome.bind_assoc, build_of_source hpkIdx hpkCol hraw, Outcome.bind_assoc]
          refine congrArg _ (funext fun planSort => ?_)
          rw [Outcome.bind, outcome_collectRows]
          rfl
      | error reason => rfl
      | stop why => rfl

theorem outcome_selectJoin {tableRef : TableRef} (hplain : isGrouped args = false)
    (h : JoinSource lib ctx w tableRef args.whereClause schema input) :
    w.outcome (selectJoin lib ctx tableRef args) = finishPlain lib ctx true schema args input := by
  obtain ⟨plan, raw, hplan, hraw, rfl⟩ := h.read
  have hread : w.outcome (plan.mapError DbError.exec) = .ok raw := by
    rw [World.outcome_mapError, hraw]
    rfl
  unfold selectJoin finishPlain
  rw [World.outcome_bind, World.outcome_mapError, hplan, Outcome.mapError, Outcome.bind]
  unfold isGrouped at hplain
  dsimp only
  rw [if_neg (by simp [hplain])]
  cases args.columns with
  | items items =>
      simp only [World.outcome_bind, outcome_planned, hread]
      refine congrArg _ (funext fun planSort => ?_)
      rw [Outcome.bind, outcome_collectRows]
      rfl
  | all =>
      simp only [World.outcome_bind, outcome_planned, hread]
      change ((sortIndex schema args.orderBy).mapError DbError.plan).bind _ = _
      refine congrArg _ (funext fun planSort => ?_)
      rw [Outcome.bind, outcome_collectRows]
      rfl
  | list names =>
      simp only [World.outcome_bind, outcome_planned, hread, outputOf]
      cases columnIndices schema names with
      | ok indices =>
          change ((sortIndex schema args.orderBy).mapError DbError.plan).bind _ = _
          refine congrArg _ (funext fun planSort => ?_)
          rw [Outcome.bind, outcome_collectRows]
          rfl
      | error reason => rfl
      | stop why => rfl

/-! ## What returns has read -/

/-- A plan that is built reads the path that its clause chooses. -/
theorem build_eq_ok {indexes : List IndexSchema} {whereClause : Option Expr} {indices : List Nat}
    {orderBy : Option (String × Bool)} {limitRows : Option Int64} {plan : SelectPlan}
    (h : buildSelectPlanWithContext lib schema indexes whereClause indices orderBy limitRows ctx =
      .ok plan) : ∃ pkIdx pkCol, schema.primaryKeyIndex = some pkIdx ∧
        schema.columns[pkIdx]? = some pkCol ∧
        plan.path = (choosePath pkCol.name indexes whereClause).1 := by
  unfold buildSelectPlanWithContext at h
  obtain ⟨pkIdx, hpkIdx, h⟩ := Outcome.bind_eq_ok.mp h
  obtain ⟨pkCol, hpkCol, h⟩ := Outcome.bind_eq_ok.mp h
  refine ⟨pkIdx, pkCol, Outcome.unwrap_eq_ok.mp hpkIdx, Outcome.unwrap_eq_ok.mp hpkCol, ?_⟩
  generalize choosePath pkCol.name indexes whereClause = chosen at h ⊢
  dsimp only at h
  split at h
  · split at h
    · cases h
      rfl
    · cases h
  · cases h
    rfl

theorem exists_read {indexes : List IndexSchema} {whereClause : Option Expr} {indices : List Nat}
    {orderBy : Option (String × Bool)} {limitRows : Option Int64} {plan : SelectPlan} {rows : Rows}
    (hplan : w.outcome (planned (buildSelectPlanWithContext lib schema indexes whereClause indices
      orderBy limitRows ctx)) = .ok plan)
    (hrows : w.outcome ((plan.read schema).mapError DbError.exec) = .ok rows) :
    ∃ pkIdx pkCol raw, schema.primaryKeyIndex = some pkIdx ∧ schema.columns[pkIdx]? = some pkCol ∧
      w.outcome ((choosePath pkCol.name indexes whereClause).1.read schema) = .ok raw := by
  rw [outcome_planned, Outcome.mapError_eq_ok] at hplan
  obtain ⟨pkIdx, pkCol, hpkIdx, hpkCol, hpath⟩ := build_eq_ok hplan
  rw [World.outcome_mapError, Outcome.mapError_eq_ok] at hrows
  obtain ⟨raw, hraw, -⟩ := (World.outcome_bind_ok w).mp hrows
  exact ⟨pkIdx, pkCol, raw, hpkIdx, hpkCol, hpath ▸ hraw⟩

theorem exists_tableSource {table : String} {result : ExecResult} (hplain : isGrouped args = false)
    (h : w.outcome (selectTable lib ctx table args) = .ok result) :
    ∃ schema input, TableSource lib ctx w table args.whereClause schema input := by
  unfold selectTable at h
  obtain ⟨schema, hschema, h⟩ := (World.outcome_bind_ok w).mp h
  obtain ⟨indexes, hindexes, h⟩ := (World.outcome_bind_ok w).mp h
  unfold isGrouped at hplain
  rw [if_neg (by simp [hplain])] at h
  suffices hread : ∃ pkIdx pkCol raw, schema.primaryKeyIndex = some pkIdx ∧
      schema.columns[pkIdx]? = some pkCol ∧
      w.outcome ((choosePath pkCol.name indexes args.whereClause).1.read schema) = .ok raw by
    obtain ⟨pkIdx, pkCol, raw, hpkIdx, hpkCol, hraw⟩ := hread
    exact ⟨schema, _, hschema, indexes, pkIdx, pkCol, raw, hindexes, hpkIdx, hpkCol, hraw, rfl⟩
  split at h
  · obtain ⟨plan, hplan, h⟩ := (World.outcome_bind_ok w).mp h
    obtain ⟨rows, hrows, -⟩ := (World.outcome_bind_ok w).mp h
    exact exists_read hplan hrows
  · have hread : ∃ indices, ∃ plan rows, w.outcome (planned (buildSelectPlanWithContext lib schema
        indexes args.whereClause indices args.orderBy args.limit ctx)) = .ok plan ∧
          w.outcome ((plan.read schema).mapError DbError.exec) = .ok rows := by
      dsimp only at h
      split at h
      · obtain ⟨_, -, h⟩ := (World.outcome_bind_ok w).mp h
        obtain ⟨output, -, h⟩ := (World.outcome_bind_ok w).mp h
        obtain ⟨plan, hplan, h⟩ := (World.outcome_bind_ok w).mp h
        obtain ⟨rows, hrows, -⟩ := (World.outcome_bind_ok w).mp h
        exact ⟨output.2, plan, rows, hplan, hrows⟩
      · obtain ⟨output, -, h⟩ := (World.outcome_bind_ok w).mp h
        obtain ⟨plan, hplan, h⟩ := (World.outcome_bind_ok w).mp h
        obtain ⟨rows, hrows, -⟩ := (World.outcome_bind_ok w).mp h
        exact ⟨output.2, plan, rows, hplan, hrows⟩
    obtain ⟨indices, plan, rows, hplan, hrows⟩ := hread
    exact exists_read hplan hrows

theorem exists_joinSource {tableRef : TableRef} {result : ExecResult}
    (hplain : isGrouped args = false)
    (h : w.outcome (selectJoin lib ctx tableRef args) = .ok result) :
    ∃ schema input, JoinSource lib ctx w tableRef args.whereClause schema input := by
  unfold selectJoin at h
  obtain ⟨⟨plan, schema⟩, hplan, h⟩ := (World.outcome_bind_ok w).mp h
  rw [World.outcome_mapError, Outcome.mapError_eq_ok] at hplan
  unfold isGrouped at hplain
  dsimp only at h
  rw [if_neg (by simp [hplain])] at h
  suffices hread : ∃ raw, w.outcome plan = .ok raw by
    obtain ⟨raw, hraw⟩ := hread
    exact ⟨schema, _, plan, raw, hplan, hraw, rfl⟩
  have hread : ∃ raw, w.outcome (plan.mapError DbError.exec) = .ok raw := by
    split at h
    · obtain ⟨planSort, -, h⟩ := (World.outcome_bind_ok w).mp h
      obtain ⟨raw, hraw, -⟩ := (World.outcome_bind_ok w).mp h
      exact ⟨raw, hraw⟩
    · split at h
      · obtain ⟨_, -, h⟩ := (World.outcome_bind_ok w).mp h
        obtain ⟨_, -, h⟩ := (World.outcome_bind_ok w).mp h
        obtain ⟨planSort, -, h⟩ := (World.outcome_bind_ok w).mp h
        obtain ⟨raw, hraw, -⟩ := (World.outcome_bind_ok w).mp h
        exact ⟨raw, hraw⟩
      · obtain ⟨_, -, h⟩ := (World.outcome_bind_ok w).mp h
        obtain ⟨planSort, -, h⟩ := (World.outcome_bind_ok w).mp h
        obtain ⟨raw, hraw, -⟩ := (World.outcome_bind_ok w).mp h
        exact ⟨raw, hraw⟩
  obtain ⟨raw, hraw⟩ := hread
  rw [World.outcome_mapError, Outcome.mapError_eq_ok] at hraw
  exact ⟨raw, hraw⟩

/-! ## Keys -/

def placeOf (names : List String) (c : String) : Option Nat := names.findIdx? fun n => n = c

/-- The value of the result's column of a name, or else of the table's. -/
def askedKey (columns names : List String) (c : String) (pair : Row × Row) : Option Value :=
  match placeOf names c with
  | some i => pair.2[i]?
  | none => (placeOf columns c).bind fun i => pair.1[i]?

/-- The value of the table's column of a name, or else of the result's. -/
def soughtKey (columns names : List String) (c : String) (pair : Row × Row) : Option Value :=
  match placeOf columns c with
  | some i => pair.1[i]?
  | none => (placeOf names c).bind fun i => pair.2[i]?

/-- The first rows of a result, in order of a key. -/
def firstBy (limitRows : Option Int64) (descending : Bool) (key : Row × Row → Option Value)
    (pairs : List (Row × Row)) : List Row :=
  limited limitRows ((orderedBy descending key pairs).map Prod.snd)

variable (lib ctx) in
/-- Each row of a table or join, with the row of the result that it gives. -/
def Gives (isJoin : Bool) (schema : TableSchema) (columns : SelectColumns) (names : List String)
    (star base : List Row) : Prop :=
  ∃ f, outputOf lib ctx isJoin schema columns = .ok (names, f) ∧
    List.Forall₂ (fun row out => f row = .ok out) star base

theorem columnIndex_eq {c : String} : schema.columnIndex c = placeOf (columnNames schema) c := by
  unfold TableSchema.columnIndex placeOf columnNames
  rw [List.findIdx?_map]
  rfl

theorem placeOf_eq_none_iff {names : List String} {c : String} :
    placeOf names c = none ↔ c ∉ names := by
  unfold placeOf
  rw [List.findIdx?_eq_none_iff]
  refine ⟨fun h hmem => ?_, fun h n hmem => ?_⟩
  · simpa using h c hmem
  · simp only [decide_eq_false_iff_not]
    rintro rfl
    exact h hmem

theorem mem_columnNames {names : List String} {indices : List Nat}
    (h : columnIndices schema names = .ok indices) {c : String} (hc : c ∈ names) :
    c ∈ columnNames schema := by
  induction names generalizing indices with
  | nil => cases hc
  | cons name names ih =>
      rw [columnIndices] at h
      split at h
      · cases h
      · next idx hidx =>
          obtain ⟨rest, hrest, -⟩ := Outcome.bind_eq_ok.mp h
          rcases List.mem_cons.mp hc with rfl | hc
          · by_contra hnot
            rw [columnIndex_eq, placeOf_eq_none_iff.mpr hnot] at hidx
            cases hidx
          · exact ih hrest hc

/-- The names of a list of columns are names of the table. -/
theorem mem_columnNames_of_output {isJoin : Bool} {columns : SelectColumns} {names : List String}
    {f : Row → Outcome ExecError Row} (h : outputOf lib ctx isJoin schema columns = .ok (names, f))
    {c : String} (hc : c ∈ names) : c ∈ columnNames schema ∨ ∃ items, columns = .items items := by
  cases columns with
  | items items => exact .inr ⟨items, rfl⟩
  | all =>
      cases h
      exact .inl hc
  | list list =>
      obtain ⟨indices, hindices, h⟩ := Outcome.bind_eq_ok.mp h
      cases h
      exact .inl (mem_columnNames hindices hc)

/-! ## A query without groups, in order -/

section Finish

variable {isJoin : Bool} {names : List String} {star base : List Row}
  {f : Row → Outcome ExecError Row} {c : String} {desc : Bool}

theorem sortsOf_none {columns : SelectColumns} : sortsOf schema names none columns = (none, none) := by
  cases columns <;> rfl

theorem finishPlain_base
    (h : finishPlain lib ctx isJoin schema { args with orderBy := none, limit := none } input =
      .ok (.rows names base)) :
    ∃ f star, outputOf lib ctx isJoin schema args.columns = .ok (names, f) ∧
      input = ⟨star, .ok ()⟩ ∧ (∀ row ∈ star, f row = .ok (imageOf f row)) ∧
      base = star.map (imageOf f) := by
  unfold finishPlain at h
  obtain ⟨⟨names', f⟩, houtput, h⟩ := Outcome.bind_eq_ok.mp h
  rw [Outcome.mapError_eq_ok] at houtput
  obtain ⟨planSort, hsort, h⟩ := Outcome.bind_eq_ok.mp h
  rw [sortsOf_none] at hsort h
  cases hsort
  obtain ⟨rows, hrows, h⟩ := Outcome.bind_eq_ok.mp h
  cases h
  rw [Outcome.mapError_eq_ok] at hrows
  obtain ⟨star, hstar, hall, rfl⟩ := mapRows_outcome_iff.mp hrows
  exact ⟨f, star, houtput, eq_of_outcome hstar, hall, rfl⟩

theorem finishPlain_star (htyped : TypedRows schema ⟨star, .ok ()⟩) :
    finishPlain lib ctx isJoin schema { args with columns := .all, orderBy := none, limit := none }
      ⟨star, .ok ()⟩ = .ok (.rows (columnNames schema) star) := by
  have hrows : (mapRows (fun row => indexAll row (List.range schema.columns.length))
      ⟨star, .ok ()⟩).outcome = .ok star := by
    rw [← project_eq, project_range htyped]
    rfl
  unfold finishPlain
  change ((mapRows _ ⟨star, .ok ()⟩).outcome.mapError DbError.exec).bind _ = _
  rw [hrows]
  rfl

/-- What is left once the rows are sorted and projected. -/
theorem outcome_limitTo_ok {limitRows : Option Int64} {rows : Rows} {out : List Row}
    (h : rows.outcome = .ok out) : (limitTo limitRows rows).outcome = .ok (limited limitRows out) := by
  rw [eq_of_outcome h]
  cases limitRows with
  | none => rfl
  | some n => exact outcome_limit n

theorem finishPlain_error (horder : args.orderBy = some (c, desc))
    (houtput : outputOf lib ctx isJoin schema args.columns = .ok (names, f))
    (hcolumns : c ∉ columnNames schema) (hnames : c ∉ names) :
    finishPlain lib ctx isJoin schema args input = .error (.plan (.noSuchColumn c)) := by
  have hcolumn : schema.columnIndex c = none := columnIndex_eq.trans (placeOf_eq_none_iff.mpr hcolumns)
  have hname : (names.findIdx? fun n => n = c) = none := placeOf_eq_none_iff.mpr hnames
  have hsorts : (sortsOf schema names args.orderBy args.columns).1 = some (c, desc) := by
    rw [horder]
    cases args.columns <;> simp [sortsOf, sortPlan, hcolumn, hname]
  unfold finishPlain
  rw [houtput]
  change (Outcome.mapError DbError.plan (sortIndex schema _)).bind _ = _
  rw [hsorts, sortIndex, hcolumn]
  rfl

/-- A column of the table is sorted by before the projection. -/
theorem finishPlain_column (horder : args.orderBy = some (c, desc))
    (houtput : outputOf lib ctx isJoin schema args.columns = .ok (names, f)) {idx : Nat}
    (hidx : schema.columnIndex c = some idx) (htyped : TypedRows schema ⟨star, .ok ()⟩)
    (hall : ∀ row ∈ star, f row = .ok (imageOf f row)) :
    finishPlain lib ctx isJoin schema args ⟨star, .ok ()⟩ =
      .ok (.rows names (limited args.limit
        ((orderedBy desc (fun row : Row => row[idx]?) star).map (imageOf f)))) := by
  have hsorts : sortsOf schema names args.orderBy args.columns = (some (c, desc), none) := by
    rw [horder]
    cases args.columns <;> simp [sortsOf, sortPlan, hidx]
  have hlt : idx < schema.columns.length := (List.findIdx?_eq_some_iff_getElem.mp hidx).1
  have honeType : OneType (fun row : Row => row[idx]?) star :=
    fun a ha b hb => exists_comparable (htyped a ha) (htyped b hb) hlt
  have hsorted := eq_of_outcome (@outcome_sort _ _ desc honeType)
  have hmapped : (mapRows f (sort idx desc ⟨star, .ok ()⟩)).outcome =
      .ok ((orderedBy desc (fun row : Row => row[idx]?) star).map (imageOf f)) := by
    rw [hsorted, mapRows_outcome_iff]
    refine ⟨_, rfl, fun row hrow => hall row ?_, rfl⟩
    exact (List.mem_insertionSort _).mp hrow
  unfold finishPlain
  rw [houtput]
  change (Outcome.mapError DbError.plan (sortIndex schema _)).bind _ = _
  rw [hsorts, sortIndex, hidx]
  change ((limitTo args.limit (mapRows f (sort idx desc ⟨star, .ok ()⟩))).outcome.mapError
    DbError.exec).bind _ = _
  rw [outcome_limitTo_ok hmapped]
  rfl

/-- A name of the result only is sorted by after the projection. -/
theorem finishPlain_result (horder : args.orderBy = some (c, desc))
    (houtput : outputOf lib ctx isJoin schema args.columns = .ok (names, f))
    (hcolumns : c ∉ columnNames schema) {idx : Nat} (hidx : placeOf names c = some idx)
    (hall : ∀ row ∈ star, f row = .ok (imageOf f row))
    (honeType : OneType (fun row : Row => row[idx]?) (star.map (imageOf f))) :
    finishPlain lib ctx isJoin schema args ⟨star, .ok ()⟩ =
      .ok (.rows names (limited args.limit
        (orderedBy desc (fun row : Row => row[idx]?) (star.map (imageOf f))))) := by
  have hcolumn : schema.columnIndex c = none := columnIndex_eq.trans (placeOf_eq_none_iff.mpr hcolumns)
  have hmem : c ∈ names := by
    by_contra hnot
    rw [placeOf_eq_none_iff.mpr hnot] at hidx
    cases hidx
  obtain ⟨items, hitems⟩ := (mem_columnNames_of_output houtput hmem).resolve_left hcolumns
  have hsorts : sortsOf schema names args.orderBy args.columns = (none, some (idx, desc)) := by
    unfold placeOf at hidx
    simp [horder, hitems, sortsOf, sortPlan, hcolumn, hidx]
  have hmapped : (mapRows f ⟨star, .ok ()⟩).outcome = .ok (star.map (imageOf f)) :=
    mapRows_outcome_iff.mpr ⟨star, rfl, hall, rfl⟩
  have hsorted := @outcome_sort _ _ desc honeType
  rw [← eq_of_outcome hmapped] at hsorted
  unfold finishPlain
  rw [houtput]
  change (Outcome.mapError DbError.plan (sortIndex schema _)).bind _ = _
  rw [hsorts]
  change ((limitTo args.limit (sort idx desc (mapRows f ⟨star, .ok ()⟩))).outcome.mapError
    DbError.exec).bind _ = _
  rw [outcome_limitTo_ok hsorted]
  rfl

/-- The rows of a query in order are those without, by the key that is sought. -/
theorem finishPlain_ordered (horder : args.orderBy = some (c, desc))
    (houtput : outputOf lib ctx isJoin schema args.columns = .ok (names, f))
    (hmem : c ∈ columnNames schema ∨ c ∈ names) (htyped : TypedRows schema ⟨star, .ok ()⟩)
    (hall : ∀ row ∈ star, f row = .ok (imageOf f row))
    (honeType : OneType (askedKey (columnNames schema) names c) (star.zip (star.map (imageOf f)))) :
    finishPlain lib ctx isJoin schema args ⟨star, .ok ()⟩ = .ok (.rows names (limited args.limit
      ((orderedBy desc (soughtKey (columnNames schema) names c)
        (star.zip (star.map (imageOf f)))).map Prod.snd))) := by
  let pairOf (row : Row) : Row × Row := (row, imageOf f row)
  have hzip : star.zip (star.map (imageOf f)) = star.map pairOf := by
    simpa using List.zip_map' (f := id) (g := imageOf f) (l := star)
  rw [hzip] at honeType ⊢
  cases hidx : placeOf (columnNames schema) c with
  | some idx =>
      rw [finishPlain_column horder houtput (columnIndex_eq.trans hidx) htyped hall,
        ← orderedBy_map, List.map_map]
      have hkey : soughtKey (columnNames schema) names c ∘ pairOf = fun row => row[idx]? := by
        funext row
        simp [soughtKey, hidx, pairOf]
      rw [hkey]
      rfl
  | none =>
      have hcolumns := placeOf_eq_none_iff.mp hidx
      have hname : c ∈ names := hmem.resolve_left hcolumns
      cases hidx' : placeOf names c with
      | none => exact absurd hname (placeOf_eq_none_iff.mp hidx')
      | some idx =>
          have hkey : askedKey (columnNames schema) names c = fun pair => pair.2[idx]? := by
            funext pair
            simp [askedKey, hidx']
          have hkey' : soughtKey (columnNames schema) names c =
              (fun row : Row => row[idx]?) ∘ Prod.snd := by
            funext pair
            simp [soughtKey, hidx, hidx']
          have hsnd : (star.map pairOf).map Prod.snd = star.map (imageOf f) := by
            rw [List.map_map]
            rfl
          rw [hkey', orderedBy_map, hsnd]
          refine finishPlain_result horder houtput hcolumns hidx' hall fun a ha b hb => ?_
          obtain ⟨row, hrow, rfl⟩ := List.mem_map.mp ha
          obtain ⟨row', hrow', rfl⟩ := List.mem_map.mp hb
          rw [hkey] at honeType
          exact honeType _ (List.mem_map_of_mem hrow) _ (List.mem_map_of_mem hrow')

end Finish

/-! ## Queries -/

section Select

variable {execute : Statement → DbProg DbError ExecResult} {table : String}
  {tableRef : Option TableRef} {names : List String} {base : List Row}

theorem outcome_join {left right : TableRef} {joinType : JoinType} {condition : Option Expr} :
    w.outcome (executeSelect lib ctx execute table (some (.join left right joinType condition))
      args) = (w.outcome (resolveWhere lib execute args.whereClause)).bind fun whereClause =>
        w.outcome (selectJoin lib ctx (.join left right joinType condition)
          { args with whereClause }) := by
  rw [executeSelect, World.outcome_bind]

theorem outcome_table (hjoin : isJoin tableRef = false) :
    w.outcome (executeSelect lib ctx execute table tableRef args) =
      (w.outcome (applyRlsFilter lib ctx table .select args.whereClause)).bind fun combined =>
        (w.outcome (resolveWhere lib execute combined)).bind fun whereClause =>
          w.outcome (selectTable lib ctx table { args with whereClause }) := by
  rw [executeSelect]
  · simp only [World.outcome_bind]
  · rintro left right joinType condition rfl
    cases hjoin

theorem exists_join (h : ¬isJoin tableRef = false) :
    ∃ left right joinType condition, tableRef = some (.join left right joinType condition) := by
  unfold isJoin at h
  split at h
  · exact ⟨_, _, _, _, rfl⟩
  · exact absurd rfl h

/-- A query without groups that returns finishes the rows that it reads, whatever it selects. -/
theorem plain_select {result : ExecResult} (hplain : isGrouped args = false)
    (h : w.outcome (executeSelect lib ctx execute table tableRef args) = .ok result) :
    ∃ schema input, TypedRows schema input ∧
      ∀ args' : SelectArgs, args'.whereClause = args.whereClause → isGrouped args' = false →
        w.outcome (executeSelect lib ctx execute table tableRef args') =
          finishPlain lib ctx (isJoin tableRef) schema args' input := by
  by_cases hjoin : isJoin tableRef = false
  · rw [outcome_table hjoin] at h
    obtain ⟨combined, hcombined, h⟩ := Outcome.bind_eq_ok.mp h
    obtain ⟨whereClause, hwhere, h⟩ := Outcome.bind_eq_ok.mp h
    have hplain' : isGrouped { args with whereClause } = false := hplain
    obtain ⟨schema, input, hsource⟩ := exists_tableSource hplain' h
    refine ⟨schema, input, hsource.typed, fun args' heq hplain' => ?_⟩
    rw [outcome_table hjoin, heq, hcombined, Outcome.bind, hwhere, Outcome.bind, hjoin]
    exact @outcome_selectTable _ _ _ _ _ { args' with whereClause } _ hplain' hsource
  · obtain ⟨left, right, joinType, condition, rfl⟩ := exists_join hjoin
    rw [outcome_join] at h
    obtain ⟨whereClause, hwhere, h⟩ := Outcome.bind_eq_ok.mp h
    have hplain' : isGrouped { args with whereClause } = false := hplain
    obtain ⟨schema, input, hsource⟩ := exists_joinSource hplain' h
    refine ⟨schema, input, hsource.typed, fun args' heq hplain' => ?_⟩
    rw [outcome_join, heq, hwhere, Outcome.bind]
    exact @outcome_selectJoin _ _ _ _ _ { args' with whereClause } _ hplain' hsource

theorem finishGrouped_limit {isJoin : Bool} {read : DbProg ExecError Rows}
    (h : w.outcome (finishGrouped lib ctx isJoin schema { args with orderBy := none, limit := none }
      read) = .ok (.rows names base)) :
    w.outcome (finishGrouped lib ctx isJoin schema args read) =
      .ok (.rows names (limited args.limit base)) := by
  unfold finishGrouped at h ⊢
  obtain ⟨g, hg, h⟩ := (World.outcome_bind_ok w).mp h
  obtain ⟨input, hinput, h⟩ := (World.outcome_bind_ok w).mp h
  obtain ⟨rows, hrows, h⟩ := (World.outcome_bind_ok w).mp h
  cases h
  rw [outcome_collectRows, Outcome.mapError_eq_ok] at hrows
  refine (World.outcome_bind_ok w).mpr ⟨g, hg, (World.outcome_bind_ok w).mpr ⟨input, hinput,
    (World.outcome_bind_ok w).mpr ⟨limited args.limit base, ?_, rfl⟩⟩⟩
  rw [outcome_collectRows, Outcome.mapError_eq_ok]
  exact outcome_limitTo_ok hrows

/-- A grouped query looks at no order. -/
theorem grouped_select (hgrouped : isGrouped args = true)
    (h : w.outcome (executeSelect lib ctx execute table tableRef
      { args with orderBy := none, limit := none }) = .ok (.rows names base)) :
    w.outcome (executeSelect lib ctx execute table tableRef args) =
      .ok (.rows names (limited args.limit base)) := by
  unfold isGrouped at hgrouped
  by_cases hjoin : isJoin tableRef = false
  · rw [outcome_table hjoin] at h ⊢
    obtain ⟨combined, hcombined, h⟩ := Outcome.bind_eq_ok.mp h
    obtain ⟨whereClause, hwhere, h⟩ := Outcome.bind_eq_ok.mp h
    rw [hcombined, Outcome.bind, hwhere, Outcome.bind]
    unfold selectTable at h ⊢
    obtain ⟨schema, hschema, h⟩ := (World.outcome_bind_ok w).mp h
    obtain ⟨indexes, hindexes, h⟩ := (World.outcome_bind_ok w).mp h
    refine (World.outcome_bind_ok w).mpr ⟨schema, hschema,
      (World.outcome_bind_ok w).mpr ⟨indexes, hindexes, ?_⟩⟩
    dsimp only at h ⊢
    rw [if_pos hgrouped] at h ⊢
    exact @finishGrouped_limit _ _ _ _ { args with whereClause } _ _ _ _ h
  · obtain ⟨left, right, joinType, condition, rfl⟩ := exists_join hjoin
    rw [outcome_join] at h ⊢
    obtain ⟨whereClause, hwhere, h⟩ := Outcome.bind_eq_ok.mp h
    rw [hwhere, Outcome.bind]
    unfold selectJoin at h ⊢
    obtain ⟨plan, hplan, h⟩ := (World.outcome_bind_ok w).mp h
    refine (World.outcome_bind_ok w).mpr ⟨plan, hplan, ?_⟩
    dsimp only at h ⊢
    rw [if_pos hgrouped] at h ⊢
    exact @finishGrouped_limit _ _ _ _ { args with whereClause } _ _ _ _ h

theorem gives_images {isJoin : Bool} {columns : SelectColumns}
    {f : Row → Outcome ExecError Row} {star : List Row}
    (houtput : outputOf lib ctx isJoin schema columns = .ok (names, f))
    (hall : ∀ row ∈ star, f row = .ok (imageOf f row)) :
    Gives lib ctx isJoin schema columns names star (star.map (imageOf f)) := by
  refine ⟨f, houtput, ?_⟩
  rw [List.forall₂_map_right_iff, List.forall₂_same]
  exact hall

/--
A grouped query is in order exactly if it is so without being asked; another one exactly if
its rows come in one order by the column of the table and by the column of the result that
have the name.
-/
theorem ordered_select_iff {c : String} {desc : Bool} (horder : args.orderBy = some (c, desc))
    (h : w.outcome (executeSelect lib ctx execute table tableRef
      { args with orderBy := none, limit := none }) = .ok (.rows names base)) :
    (isGrouped args = true → ∀ key : Row → Option Value,
      (w.outcome (executeSelect lib ctx execute table tableRef args) =
          .ok (.rows names (limited args.limit (orderedBy desc key base))) ↔
        limited args.limit base = limited args.limit (orderedBy desc key base))) ∧
    (isGrouped args = false → ∃ schema star,
      w.outcome (executeSelect lib ctx execute table tableRef
          { args with columns := .all, orderBy := none, limit := none }) =
        .ok (.rows (columnNames schema) star) ∧
      Gives lib ctx (isJoin tableRef) schema args.columns names star base ∧
      (c ∉ columnNames schema → c ∉ names →
        w.outcome (executeSelect lib ctx execute table tableRef args) =
          .error (.plan (.noSuchColumn c))) ∧
      (c ∈ columnNames schema ∨ c ∈ names →
        OneType (askedKey (columnNames schema) names c) (star.zip base) →
        (w.outcome (executeSelect lib ctx execute table tableRef args) =
            .ok (.rows names (firstBy args.limit desc (askedKey (columnNames schema) names c)
              (star.zip base))) ↔
          firstBy args.limit desc (soughtKey (columnNames schema) names c) (star.zip base) =
            firstBy args.limit desc (askedKey (columnNames schema) names c) (star.zip base)))) := by
  constructor
  · intro hgrouped key
    rw [grouped_select hgrouped h]
    simp
  · intro hplain
    let plainArgs : SelectArgs := { args with orderBy := none, limit := none }
    obtain ⟨schema, input, htyped, hselect⟩ := @plain_select _ _ _ plainArgs _ _ _ _ hplain h
    rw [hselect plainArgs rfl hplain] at h
    obtain ⟨f, star, houtput, rfl, hall, rfl⟩ := finishPlain_base h
    let starArgs : SelectArgs := { args with columns := .all, orderBy := none, limit := none }
    have hstar : isGrouped starArgs = false := by
      unfold isGrouped at hplain ⊢
      rw [Bool.or_eq_false_iff] at hplain ⊢
      exact ⟨hplain.1, rfl⟩
    refine ⟨schema, star, (hselect starArgs rfl hstar).trans (finishPlain_star htyped),
      gives_images houtput hall, fun hcolumns hnames => ?_, fun hmem honeType => ?_⟩
    · rw [hselect args rfl hplain]
      exact finishPlain_error horder houtput hcolumns hnames
    · rw [hselect args rfl hplain, finishPlain_ordered horder houtput hmem htyped hall honeType]
      simp [firstBy]

end Select

end Plain

/-! ## Sales in order -/

/-- `SELECT amount FROM sales ORDER BY region DESC LIMIT 2` -/
def byRegion : SelectArgs :=
  ⟨.list ["amount"], none, none, none, some ("region", true), some 2⟩

/-- The order of a column that is not selected. -/
theorem ordered_select_amounts : ∃ schema star,
    (World.ofDatabase plainEnvironment sales).outcome
        (executeSelect plainLibrary .anonymous (executeStatement plainLibrary .anonymous 0) "sales"
          (some (.table "sales" none)) { byRegion with columns := .all, orderBy := none, limit := none }) =
      .ok (.rows (columnNames schema) star) ∧
    (OneType (askedKey (columnNames schema) ["amount"] "region")
        (star.zip [[.integer 10], [.integer 20], [.integer 5]]) → "region" ∈ columnNames schema →
      ((World.ofDatabase plainEnvironment sales).outcome
          (executeSelect plainLibrary .anonymous (executeStatement plainLibrary .anonymous 0) "sales"
            (some (.table "sales" none)) byRegion) =
        .ok (.rows ["amount"] (firstBy (some 2) true
          (askedKey (columnNames schema) ["amount"] "region")
          (star.zip [[.integer 10], [.integer 20], [.integer 5]]))) ↔
        firstBy (some 2) true (soughtKey (columnNames schema) ["amount"] "region")
            (star.zip [[.integer 10], [.integer 20], [.integer 5]]) =
          firstBy (some 2) true (askedKey (columnNames schema) ["amount"] "region")
            (star.zip [[.integer 10], [.integer 20], [.integer 5]]))) := by
  have hbase : (World.ofDatabase plainEnvironment sales).outcome
      (executeSelect plainLibrary .anonymous (executeStatement plainLibrary .anonymous 0) "sales"
        (some (.table "sales" none)) { byRegion with orderBy := none, limit := none }) =
      .ok (.rows ["amount"] [[.integer 10], [.integer 20], [.integer 5]]) :=
    outcome_selectSales.2.2.2
  obtain ⟨schema, star, hstar, -, -, hiff⟩ :=
    (@ordered_select_iff _ _ _ byRegion _ _ _ _ _ _ _ rfl hbase).2 rfl
  exact ⟨schema, star, hstar, fun honeType hmem => hiff (.inl hmem) honeType⟩

/-- The regions of a grouped query come as its groups do. -/
theorem regions_unordered : ∃ rows : List Row,
    (World.ofDatabase plainEnvironment sales).outcome
        (executeStatement plainLibrary .anonymous 1
          (selectSales (.items [regionItem, countItem]) (some [.column "region"])
            (some ("region", false)))) = .ok (.rows ["region", "count(*)"] rows) ∧
      ¬rows.Pairwise (KeyLe false fun row => row[0]?) :=
  ⟨[[.text "b", .integer 2], [.text "a", .integer 1]], outcome_selectSales.2.2.1, by decide⟩

end ChocoBase.Engine
