import ChocoBase.Engine.Permissive
import ChocoBase.Plan.Having
import ChocoBase.Plan.Ordering

/-!
# Grouped queries

The names of a grouped query follow its list of items, and its rows hold the keys and then
the aggregates.  Each row is as named where the items come in that order.
-/

namespace ChocoBase.Engine

open ChocoBase.Foundation ChocoBase.Storage ChocoBase.Sql ChocoBase.Types ChocoBase.Auth
  ChocoBase.Catalog ChocoBase.Plan

/-! ## Items -/

def selectItems : SelectColumns → List SelectItem
  | .all => [.all]
  | .list names => names.map fun name => .expr (.column name) none
  | .items items => items

def labelOf (isJoin : Bool) : SelectItem → String
  | .expr (.aggregate func) asName => asName.getD (aggregateName func)
  | .expr expr asName => asName.getD (columnName isJoin expr)
  | .all => "*"

section Values

variable (lib : Library) (schema : TableSchema) (ctx : ExecutionContext)

def updateFor (row : Row) (acc : Accumulator) : AggregateFunc → Outcome ExecError Accumulator
  | .countStar => acc.update none
  | .count e | .sum e | .avg e | .min e | .max e =>
      (evalInto lib schema ctx row e).bind fun v => acc.update (some v)

/-- An aggregate of rows, as the caller asks for it. -/
def aggregatedFor (rows : List Row) (func : AggregateFunc) : Outcome ExecError Accumulator :=
  rows.foldlM (fun acc row => updateFor lib schema ctx row acc func) (.new func)

/-- An item has a value on rows: the aggregate of them, or the value it has on each of them. -/
def ItemIs (rows : List Row) : SelectItem → Value → Prop
  | .expr (.aggregate func) _, v =>
      ∃ acc, aggregatedFor lib schema ctx rows func = .ok acc ∧ v = acc.finalize
  | .expr e _, v => ∀ row ∈ rows, evalInto lib schema ctx row e = .ok v
  | .all, _ => False

/-- The keys and the aggregates that a grouped query computes, in their order. -/
def Grouping.sources (g : Grouping) : List SelectItem :=
  g.groupExprs.map (fun e => .expr e none) ++ g.aggregates.map fun func => .expr (.aggregate func) none

def Grouping.groupBy (g : Grouping) : Option (List Expr) :=
  if g.groupExprs.isEmpty then none else some g.groupExprs

/-- Two items have one value on rows, the first for the caller and the second for nobody. -/
def SameOn (rows : List Row) (item source : SelectItem) : Prop :=
  ∃ v, ItemIs lib schema ctx rows item v ∧ ItemIs lib schema .anonymous rows source v

/-- A row has a value for each name, and at each place that of the item. -/
def Aligned (columns : SelectColumns) (names : List String) (rows : List Row) (row : Row) : Prop :=
  names.length = row.length ∧ List.Forall₂ (ItemIs lib schema ctx rows) (selectItems columns) row

/-- The items are, in order, the keys and then the aggregates. -/
def InOrder (columns : SelectColumns) (g : Grouping) (rows : List Row) : Prop :=
  g.names.length = g.sources.length ∧
    List.Forall₂ (SameOn lib schema ctx rows) (selectItems columns) g.sources

end Values

/-! ## Names -/

theorem addItem_eq_ok {isJoin hasGroupBy : Bool} {item : SelectItem} {g g' : Grouping}
    (h : addItem isJoin hasGroupBy g item = .ok g') :
    g'.names = g.names ++ [labelOf isJoin item] ∧
      (hasGroupBy = true → g'.groupExprs = g.groupExprs) := by
  cases item with
  | all => cases h
  | expr e asName =>
      cases e with
      | aggregate func =>
          cases h
          exact ⟨rfl, fun _ => rfl⟩
      | _ =>
          cases h
          exact ⟨rfl, fun h => by simp [h]⟩

theorem foldlM_addItem {isJoin hasGroupBy : Bool} {items : List SelectItem} {g g' : Grouping}
    (h : items.foldlM (addItem isJoin hasGroupBy) g = .ok g') :
    g'.names = g.names ++ items.map (labelOf isJoin) ∧
      (hasGroupBy = true → g'.groupExprs = g.groupExprs) := by
  induction items generalizing g with
  | nil =>
      cases h
      simp
  | cons item items ih =>
      obtain ⟨next, hnext, h⟩ := Outcome.bind_eq_ok.mp h
      obtain ⟨hnames, hexprs⟩ := ih h
      obtain ⟨hname, hsame⟩ := addItem_eq_ok hnext
      refine ⟨?_, fun h => (hexprs h).trans (hsame h)⟩
      rw [hnames, hname, List.append_assoc, List.map_cons, List.singleton_append]

theorem names_groupingOf {isJoin : Bool} {items : List SelectItem} {groupBy : Option (List Expr)}
    {g : Grouping} (h : groupingOf isJoin (.items items) groupBy = .ok g) :
    g.names = items.map (labelOf isJoin) :=
  (foldlM_addItem h).1

theorem groupExprs_groupingOf {isJoin : Bool} {columns : SelectColumns} {exprs : List Expr}
    {g : Grouping} (h : groupingOf isJoin columns (some exprs) = .ok g) : g.groupExprs = exprs := by
  cases columns with
  | items items => exact (foldlM_addItem h).2 rfl
  | all =>
      cases h
      rfl
  | list names =>
      cases h
      rfl

/-! ## The values of keys and aggregates -/

section Sources

variable {lib : Library} {schema : TableSchema} {ctx : ExecutionContext} {rows : List Row}
  {g : Grouping} {group : Group} {groups : List Group}

theorem aggregatedFor_anonymous {func : AggregateFunc} :
    aggregatedFor lib schema .anonymous rows func = aggregated lib schema rows func := by
  unfold aggregatedFor aggregated
  congr 1

theorem itemIs_expr {e : Expr} {v : Value} (hne : rows ≠ [])
    (h : ∀ row ∈ rows, evalInto lib schema ctx row e = .ok v) :
    ItemIs lib schema ctx rows (.expr e none) v := by
  obtain ⟨row, rows, rfl⟩ := List.exists_cons_of_ne_nil hne
  cases e with
  | aggregate func => cases h row List.mem_cons_self
  | _ => exact h

theorem forall₂_keys {exprs : List Expr} {key : List Value} (hne : rows ≠ [])
    (h : ∀ row ∈ rows, evalEach lib schema row exprs = .ok key) :
    List.Forall₂ (ItemIs lib schema .anonymous rows) (exprs.map fun e => .expr e none) key := by
  obtain ⟨first, hfirst⟩ := List.exists_mem_of_ne_nil rows hne
  induction exprs generalizing key with
  | nil =>
      cases h first hfirst
      exact .nil
  | cons e exprs ih =>
      have hcons : ∀ row ∈ rows, ∃ v vs, evalForGroup lib schema row e = .ok v ∧
          evalEach lib schema row exprs = .ok vs ∧ key = v :: vs := by
        intro row hrow
        obtain ⟨v, hv, hkey⟩ := Outcome.bind_eq_ok.mp (h row hrow)
        obtain ⟨vs, hvs, hkey⟩ := Outcome.bind_eq_ok.mp hkey
        exact ⟨v, vs, hv, hvs, (Outcome.ok.inj hkey).symm⟩
      obtain ⟨v, vs, -, -, rfl⟩ := hcons first hfirst
      refine .cons (itemIs_expr hne fun row hrow => ?_) (ih fun row hrow => ?_)
      · obtain ⟨v', vs', hv, -, heq⟩ := hcons row hrow
        cases heq
        exact hv
      · obtain ⟨v', vs', -, hvs, heq⟩ := hcons row hrow
        cases heq
        exact hvs

theorem forall₂_aggregates {funcs : List AggregateFunc} {accs : List Accumulator}
    (h : Aggregates lib schema rows funcs accs) :
    List.Forall₂ (ItemIs lib schema .anonymous rows)
      (funcs.map fun func => .expr (.aggregate func) none) (accs.map Accumulator.finalize) := by
  rw [List.forall₂_map_left_iff, List.forall₂_map_right_iff]
  refine h.imp fun func acc hacc => ⟨acc, ?_, rfl⟩
  rw [aggregatedFor_anonymous, hacc]

/-- A group has no expressions of its key, or rows with this key. -/
theorem key_cases (hgroups : GroupsOf lib schema g.groupBy g.aggregates rows groups)
    (hgroup : group ∈ groups) :
    g.groupExprs = [] ∧ group.key = [] ∨
      g.groupBy = some g.groupExprs ∧ ∃ row ∈ rows,
        evalEach lib schema row g.groupExprs = .ok group.key := by
  have hkey := (hgroups.mem_iff group.key).mp (List.mem_map_of_mem hgroup)
  unfold IsKey Grouping.groupBy at hkey
  unfold Grouping.groupBy
  by_cases hnone : g.groupExprs = []
  · rw [hnone] at hkey
    rcases hkey with ⟨-, hkey⟩ | ⟨row, -, hkey⟩
    · exact .inl ⟨hnone, hkey⟩
    · exact .inl ⟨hnone, evalEach_nil_iff.mp hkey⟩
  · have hexprs : g.groupExprs.isEmpty = false := by simp [hnone]
    rw [if_neg (by simp [hexprs])] at hkey ⊢
    rcases hkey with ⟨hkey, -⟩ | hkey
    · cases hkey
    · exact .inr ⟨rfl, hkey⟩

theorem rowsOf_ne_nil (hgroupBy : g.groupBy = some g.groupExprs)
    (hkey : ∃ row ∈ rows, evalEach lib schema row g.groupExprs = .ok group.key) :
    rowsOf lib schema (g.groupBy.getD []) group.key rows ≠ [] := by
  obtain ⟨row, hrow, hkey⟩ := hkey
  rw [hgroupBy, Option.getD_some]
  exact List.ne_nil_of_mem (List.mem_filter.mpr ⟨hrow, by simpa using hkey⟩)

/-- The row of a group has the values of its keys and aggregates. -/
theorem forall₂_sources
    (hgroups : GroupsOf lib schema g.groupBy g.aggregates rows groups) (hgroup : group ∈ groups) :
    List.Forall₂ (ItemIs lib schema .anonymous
      (rowsOf lib schema (g.groupBy.getD []) group.key rows)) g.sources group.row := by
  refine List.rel_append ?_ (forall₂_aggregates (hgroups.aggregates group hgroup))
  rcases key_cases hgroups hgroup with ⟨hexprs, hkey⟩ | ⟨hgroupBy, hkey⟩
  · rw [hexprs, hkey]
    exact .nil
  · refine forall₂_keys (rowsOf_ne_nil hgroupBy hkey) fun row hrow => ?_
    rw [hgroupBy] at hrow
    simpa using (List.mem_filter.mp hrow).2

theorem itemIs_aggregate_unique {func : AggregateFunc} {asName : Option String} {v v' : Value}
    (h : ItemIs lib schema ctx rows (.expr (.aggregate func) asName) v)
    (h' : ItemIs lib schema ctx rows (.expr (.aggregate func) asName) v') : v = v' := by
  obtain ⟨acc, hacc, rfl⟩ := h
  obtain ⟨acc', hacc', rfl⟩ := h'
  cases hacc.symm.trans hacc'
  rfl

theorem itemIs_unique {item : SelectItem} {v v' : Value} (hne : rows ≠ [])
    (h : ItemIs lib schema ctx rows item v) (h' : ItemIs lib schema ctx rows item v') : v = v' := by
  obtain ⟨row, rest, rfl⟩ := List.exists_cons_of_ne_nil hne
  cases item with
  | all => exact h.elim
  | expr e asName =>
      cases e with
      | aggregate func => exact itemIs_aggregate_unique h h'
      | _ => exact Outcome.ok.inj ((h row List.mem_cons_self).symm.trans (h' row List.mem_cons_self))

/-- Keys and aggregates have one value on the rows of a group. -/
theorem sources_unique (hgroups : GroupsOf lib schema g.groupBy g.aggregates rows groups)
    (hgroup : group ∈ groups) {source : SelectItem} (hsource : source ∈ g.sources) {v v' : Value}
    (h : ItemIs lib schema .anonymous
      (rowsOf lib schema (g.groupBy.getD []) group.key rows) source v)
    (h' : ItemIs lib schema .anonymous
      (rowsOf lib schema (g.groupBy.getD []) group.key rows) source v') : v = v' := by
  rcases key_cases hgroups hgroup with ⟨hexprs, -⟩ | ⟨hgroupBy, hkey⟩
  · rw [Grouping.sources, hexprs, List.map_nil, List.nil_append] at hsource
    obtain ⟨func, -, rfl⟩ := List.mem_map.mp hsource
    exact itemIs_aggregate_unique h h'
  · exact itemIs_unique (rowsOf_ne_nil hgroupBy hkey) h h'

/-- Through a list of which each member has one value, a relation splits into two. -/
theorem forall₂_through {α β γ : Type} {R : α → γ → Prop} {S : β → γ → Prop} {as : List α}
    {bs : List β} {cs : List γ} (h : List.Forall₂ S bs cs)
    (hunique : ∀ b ∈ bs, ∀ c c', S b c → S b c' → c = c') :
    List.Forall₂ R as cs ↔ List.Forall₂ (fun a b => ∃ c, R a c ∧ S b c) as bs := by
  induction h generalizing as with
  | nil => cases as <;> simp
  | cons hbc _ ih =>
      obtain ⟨hfirst, hrest⟩ := List.forall_mem_cons.mp hunique
      cases as with
      | nil => simp
      | cons a as =>
          rw [List.forall₂_cons, List.forall₂_cons, ih hrest]
          refine and_congr_left fun _ => ⟨fun h => ⟨_, h, hbc⟩, ?_⟩
          rintro ⟨c, hac, hc⟩
          rwa [hfirst _ _ hbc hc]

theorem aligned_iff {columns : SelectColumns}
    (hgroups : GroupsOf lib schema g.groupBy g.aggregates rows groups) (hgroup : group ∈ groups) :
    Aligned lib schema ctx columns g.names
        (rowsOf lib schema (g.groupBy.getD []) group.key rows) group.row ↔
      InOrder lib schema ctx columns g (rowsOf lib schema (g.groupBy.getD []) group.key rows) := by
  have hsources := forall₂_sources hgroups hgroup
  have hiff := @forall₂_through _ _ _
    (ItemIs lib schema ctx (rowsOf lib schema (g.groupBy.getD []) group.key rows)) _
    (selectItems columns) _ _ hsources fun source hsource v v' h h' =>
      sources_unique hgroups hgroup hsource h h'
  unfold Aligned InOrder
  rw [← hsources.length_eq, hiff]
  rfl

end Sources

/-! ## Queries -/

/-- A limit on collected rows; none are asked for, or the rows are there. -/
theorem outcome_limitTo {limitRows : Option Int64} {x : Outcome ExecError (List Row)}
    {out : List Row} (h : (limitTo limitRows (.ofOutcome x)).outcome = .ok out) :
    (∃ n, limitRows = some n ∧ n ≤ 0) ∧ out = [] ∨ ∃ rows, x = .ok rows ∧ out = limited limitRows rows := by
  cases limitRows with
  | none =>
      rw [limitTo, outcome_ofOutcome] at h
      exact .inr ⟨out, h, rfl⟩
  | some n =>
      rw [limitTo, limit] at h
      by_cases hnone : n ≤ 0
      · rw [if_pos hnone] at h
        cases h
        exact .inl ⟨⟨n, rfl, hnone⟩, rfl⟩
      · rw [if_neg hnone] at h
        have hpos : 0 < n.toInt.toNat := by
          rw [Int64.le_iff_toInt_le] at hnone
          have hzero : (0 : Int64).toInt = 0 := rfl
          omega
        split at h
        · next hlength =>
            cases h
            cases x with
            | ok rows => exact .inr ⟨rows, rfl, rfl⟩
            | error e => exact absurd hlength (by simpa [Rows.ofOutcome] using hpos)
            | stop why => exact absurd hlength (by simpa [Rows.ofOutcome] using hpos)
        · next hlength =>
            rw [outcome_ofOutcome] at h
            subst h
            exact .inr ⟨out, rfl, (List.take_of_length_le (Nat.le_of_lt (Nat.lt_of_not_le hlength))).symm⟩

theorem aggregate_eq_ofOutcome {lib : Library} {schema : TableSchema}
    {groupBy : Option (List Expr)} {funcs : List AggregateFunc} {having : Option Expr}
    {input : Rows} : aggregate lib schema groupBy funcs having input =
      .ofOutcome (aggregate lib schema groupBy funcs having input).outcome := by
  unfold aggregate
  rw [outcome_ofOutcome]

/-- The rows of a query that its condition selects, as far as they can be read. -/
def selected (lib : Library) (ctx : ExecutionContext) (schema : TableSchema) (args : SelectArgs)
    (input : Rows) : List Row := (filterBy lib ctx schema args.whereClause input).rows

/-- What a grouped query that returns has computed; with no rows to return it need not. -/
theorem outcome_finishGrouped {lib : Library} {ctx : ExecutionContext} {isJoin : Bool}
    {schema : TableSchema} {args : SelectArgs} {read : DbProg ExecError Rows} {w : World}
    {names : List String} {out : List Row}
    (h : w.outcome (finishGrouped lib ctx isJoin schema args read) = .ok (.rows names out)) :
    ∃ g input, groupingOf isJoin args.columns args.groupBy = .ok g ∧ w.outcome read = .ok input ∧
      names = g.names ∧ ((∃ n, args.limit = some n ∧ n ≤ 0) ∧ out = [] ∨ ∃ rows,
        (aggregate lib schema g.groupBy g.aggregates args.having
          (filterBy lib ctx schema args.whereClause input)).outcome = .ok rows ∧
        out = limited args.limit rows) := by
  unfold finishGrouped planned collectRows at h
  obtain ⟨g, hg, h⟩ := (World.outcome_bind_ok w).mp h
  obtain ⟨input, hinput, h⟩ := (World.outcome_bind_ok w).mp h
  obtain ⟨rows, hrows, h⟩ := (World.outcome_bind_ok w).mp h
  rw [World.outcome_ofOutcome, Outcome.mapError_eq_ok] at hg hrows
  rw [World.outcome_mapError, Outcome.mapError_eq_ok] at hinput
  cases h
  rw [aggregate_eq_ofOutcome] at hrows
  exact ⟨g, input, hg, hinput, rfl, outcome_limitTo hrows⟩

/--
Each row of a grouped query has the values of its items exactly if the items are the keys
and then the aggregates.  Its groups are the distinct keys of the selected rows.
-/
theorem grouped_aligned_iff {lib : Library} {ctx : ExecutionContext} {isJoin : Bool}
    {schema : TableSchema} {args : SelectArgs} {read : DbProg ExecError Rows} {w : World}
    {names : List String} {out : List Row}
    (h : w.outcome (finishGrouped lib ctx isJoin schema args read) = .ok (.rows names out)) :
    ∃ g input, groupingOf isJoin args.columns args.groupBy = .ok g ∧ w.outcome read = .ok input ∧
      (∀ exprs, args.groupBy = some exprs → g.groupExprs = exprs) ∧ names = g.names ∧
      (∀ items, args.columns = .items items → names = items.map (labelOf isJoin)) ∧
      ((∃ n, args.limit = some n ∧ n ≤ 0) ∧ out = [] ∨
        ∃ groups, GroupsOf lib schema g.groupBy g.aggregates
            (selected lib ctx schema args input) groups ∧
          out = limited args.limit
            ((groups.filter (keepsGroup lib schema args.having)).map Group.row) ∧
          ∀ group ∈ groups,
            (Aligned lib schema ctx args.columns names (rowsOf lib schema (g.groupBy.getD [])
                group.key (selected lib ctx schema args input)) group.row ↔
              InOrder lib schema ctx args.columns g (rowsOf lib schema (g.groupBy.getD [])
                group.key (selected lib ctx schema args input)))) := by
  obtain ⟨g, input, hg, hinput, rfl, hout⟩ := outcome_finishGrouped h
  refine ⟨g, input, hg, hinput, fun exprs hexprs => ?_, rfl, fun items hitems => ?_, hout.imp_right ?_⟩
  · rw [hexprs] at hg
    exact groupExprs_groupingOf hg
  · rw [hitems] at hg
    exact names_groupingOf hg
  · rintro ⟨rows, hrows, rfl⟩
    obtain ⟨-, groups, hgroups, -, rfl⟩ := groupsOf_aggregate hrows
    exact ⟨groups, hgroups, rfl, fun group hgroup => aligned_iff hgroups hgroup⟩

/-! ## Sales -/

def sales : Database :=
  Database.runAll plainLibrary plainEnvironment
    [.createTable "sales" [⟨"id", .integer, true, true⟩, ⟨"region", .text, false, false⟩,
        ⟨"amount", .integer, false, false⟩],
      .insert "sales" none [[.intLiteral 1, .stringLiteral "b", .intLiteral 10],
        [.intLiteral 2, .stringLiteral "a", .intLiteral 20],
        [.intLiteral 10, .stringLiteral "b", .intLiteral 5]] none]
    (Database.created plainEnvironment).2.sorting

def selectSales (columns : SelectColumns) (groupBy : Option (List Expr))
    (orderBy : Option (String × Bool)) : Statement :=
  .select columns "sales" (some (.table "sales" none)) none groupBy none orderBy none

def regionItem : SelectItem := .expr (.column "region") none

def countItem : SelectItem := .expr (.aggregate .countStar) none

/-- The counts stand under the name of the region; in order of regions, `b` still comes first. -/
theorem outcome_selectSales :
    let run (statement : Statement) := (World.ofDatabase plainEnvironment sales).outcome
      (executeStatement plainLibrary .anonymous 1 statement)
    run (selectSales (.items [countItem, regionItem]) (some [.column "region"]) none) =
        .ok (.rows ["count(*)", "region"] [[.text "b", .integer 2], [.text "a", .integer 1]]) ∧
      run (selectSales .all (some [.column "region"]) none) =
        .ok (.rows [] [[.text "b"], [.text "a"]]) ∧
      run (selectSales (.items [regionItem, countItem]) (some [.column "region"])
          (some ("region", false))) =
        .ok (.rows ["region", "count(*)"] [[.text "b", .integer 2], [.text "a", .integer 1]]) ∧
      run (selectSales (.list ["amount"]) none none) =
        .ok (.rows ["amount"] [[.integer 10], [.integer 20], [.integer 5]]) := by
  decide +kernel

/-- `SELECT region, COUNT(*) FROM sales GROUP BY region` -/
def regionArgs : SelectArgs :=
  ⟨.items [regionItem, countItem], none, some [.column "region"], none, none, none⟩

theorem outcome_regions : (World.ofDatabase plainEnvironment sales).outcome
    (finishGrouped plainLibrary .anonymous false salesSchema regionArgs
      (return ⟨salesRows, .ok ()⟩)) =
    .ok (.rows ["region", "count(*)"] [[.text "b", .integer 2], [.text "a", .integer 1]]) := by
  decide

/-- The region and then the count, as they are named. -/
theorem grouped_aligned_regions : ∃ g groups,
    GroupsOf plainLibrary salesSchema g.groupBy g.aggregates salesRows groups ∧
      ∀ group ∈ groups,
        (Aligned plainLibrary salesSchema .anonymous regionArgs.columns ["region", "count(*)"]
            (rowsOf plainLibrary salesSchema (g.groupBy.getD []) group.key salesRows) group.row ↔
          InOrder plainLibrary salesSchema .anonymous regionArgs.columns g
            (rowsOf plainLibrary salesSchema (g.groupBy.getD []) group.key salesRows)) := by
  obtain ⟨g, input, -, hinput, -, -, -, ⟨⟨_, hlimit, -⟩, -⟩ | ⟨groups, hgroups, -, haligned⟩⟩ :=
    grouped_aligned_iff outcome_regions
  · cases hlimit
  · cases hinput
    exact ⟨g, groups, hgroups, haligned⟩

theorem count_not_region :
    let run (statement : Statement) := (World.ofDatabase plainEnvironment sales).outcome
      (executeStatement plainLibrary .anonymous 1 statement)
    (run (selectSales (.items [countItem, regionItem]) (some [.column "region"]) none) =
        .ok (.rows ["count(*)", "region"] [[.text "b", .integer 2], [.text "a", .integer 1]]) ∧
      ¬Aligned plainLibrary salesSchema .anonymous (.items [countItem, regionItem])
        ["count(*)", "region"] (rowsOf plainLibrary salesSchema [.column "region"] [.text "b"]
          salesRows) [.text "b", .integer 2]) ∧
    (run (selectSales .all (some [.column "region"]) none) =
        .ok (.rows [] [[.text "b"], [.text "a"]]) ∧
      ([] : List String).length ≠ [Value.text "b"].length) := by
  refine ⟨⟨outcome_selectSales.1, ?_⟩, outcome_selectSales.2.1, by decide⟩
  rintro ⟨-, _ | ⟨⟨acc, hacc, hvalue⟩, -⟩⟩
  have hcount : aggregatedFor plainLibrary salesSchema .anonymous
      (rowsOf plainLibrary salesSchema [.column "region"] [.text "b"] salesRows) .countStar =
        .ok (.countStar 2) := by rfl
  cases hcount.symm.trans hacc
  cases hvalue

end ChocoBase.Engine
