import ChocoBase.Plan.Panics
import Mathlib.Data.List.Forall2

/-!
# Groups

The groups of an aggregation are the keys that its rows have, each with the aggregates
of the rows of that key.
-/

namespace ChocoBase.Plan

open ChocoBase.Foundation ChocoBase.Sql ChocoBase.Types ChocoBase.Auth

/-! ## Equal keys -/

theorem eq_of_toBits {x y : Float} (h : x.toBits = y.toBits) : x = y := by
  rw [← ofBits_toBits x, h, ofBits_toBits]

theorem eq_of_toBits32 {x y : Float32} (h : x.toBits = y.toBits) : x = y := by
  rw [← ofBits_toBits32 x, h, ofBits_toBits32]

theorem eq_of_sameKey {v w : Value} (h : sameKey v w = true) : v = w := by
  unfold sameKey Value.eq at h
  cases v <;> cases w <;> simp_all
  · exact eq_of_toBits h.2
  · exact List.map_injective_iff.mpr (fun _ _ => eq_of_toBits32) h.2

theorem eq_of_sameKeys {key key' : List Value} (h : sameKeys key key' = true) : key = key' := by
  unfold sameKeys at h
  simp only [Bool.and_eq_true, decide_eq_true_eq, List.all_eq_true, Prod.forall] at h
  refine List.ext_getElem h.1 fun i hi hi' => eq_of_sameKey (h.2 _ _ ?_)
  exact List.mem_iff_getElem.mpr ⟨i, by simp [hi, hi'], by simp⟩

theorem sameKeys_iff {key key' : List Value} (h : Findable key) :
    sameKeys key' key = true ↔ key' = key := by
  refine ⟨eq_of_sameKeys, ?_⟩
  rintro rfl
  exact sameKeys_self_iff.mpr h

section Grouping

variable (lib : Library) (schema : TableSchema)

/-! ## The rows of a key and their aggregates -/

def rowsOf (groupBy : List Expr) (key : List Value) (rows : List Row) : List Row :=
  rows.filter fun row => evalEach lib schema row groupBy = .ok key

/-- One aggregate over rows. -/
def aggregated (rows : List Row) (func : AggregateFunc) : Outcome ExecError Accumulator :=
  rows.foldlM (fun acc row => updateOne lib schema row acc func) (.new func)

def Aggregates (rows : List Row) (funcs : List AggregateFunc) (accs : List Accumulator) : Prop :=
  List.Forall₂ (fun func acc => aggregated lib schema rows func = .ok acc) funcs accs

/-- The groups of rows: their keys, each once, with the aggregates of its rows. -/
structure Gathers (groupBy : List Expr) (funcs : List AggregateFunc) (rows : List Row)
    (groups : List Group) : Prop where
  nodup : (groups.map Group.key).Nodup
  mem_iff : ∀ key, key ∈ groups.map Group.key ↔
    ∃ row ∈ rows, evalEach lib schema row groupBy = .ok key
  aggregates : ∀ group ∈ groups,
    Aggregates lib schema (rowsOf lib schema groupBy group.key rows) funcs group.accumulators

variable {lib schema} {groupBy : List Expr} {funcs : List AggregateFunc} {rows : List Row}
  {row : Row} {key : List Value} {groups groups' : List Group}

theorem rowsOf_append_self (hkey : evalEach lib schema row groupBy = .ok key) :
    rowsOf lib schema groupBy key (rows ++ [row]) = rowsOf lib schema groupBy key rows ++ [row] := by
  simp [rowsOf, hkey]

theorem rowsOf_append_other {key' : List Value}
    (hkey : evalEach lib schema row groupBy = .ok key) (hne : key' ≠ key) :
    rowsOf lib schema groupBy key' (rows ++ [row]) = rowsOf lib schema groupBy key' rows := by
  simp [rowsOf, hkey, Ne.symm hne]

theorem aggregated_append {func : AggregateFunc} :
    aggregated lib schema (rows ++ [row]) func =
      (aggregated lib schema rows func).bind fun acc => updateOne lib schema row acc func := by
  unfold aggregated
  rw [List.foldlM_append]
  simp only [List.foldlM_cons, List.foldlM_nil, bind_pure]
  rfl

theorem aggregates_nil : Aggregates lib schema [] funcs (funcs.map .new) := by
  induction funcs with
  | nil => exact .nil
  | cons func funcs ih => exact .cons rfl ih

theorem updateAll_iff {accs accs' : List Accumulator} (h : Aggregates lib schema rows funcs accs) :
    updateAll lib schema row accs funcs = .ok accs' ↔
      Aggregates lib schema (rows ++ [row]) funcs accs' := by
  induction h generalizing accs' with
  | nil => simp [updateAll, Aggregates, eq_comm]
  | cons hacc _ ih =>
      rw [updateAll, Aggregates, List.forall₂_cons_left_iff]
      refine Outcome.bind_eq_ok.trans ?_
      constructor
      · rintro ⟨acc, hupdate, h⟩
        obtain ⟨accs, haccs, h⟩ := Outcome.bind_eq_ok.mp h
        refine ⟨acc, accs, ?_, ih.mp haccs, (Outcome.ok.inj h).symm⟩
        rw [aggregated_append, hacc, Outcome.bind, hupdate]
      · rintro ⟨acc, accs, hupdate, haccs, rfl⟩
        rw [aggregated_append, hacc, Outcome.bind] at hupdate
        exact ⟨acc, hupdate, Outcome.bind_eq_ok.mpr ⟨accs, ih.mpr haccs, rfl⟩⟩

/-! ## One row -/

theorem updateGroup_new (hkey : Findable key) (h : key ∉ groups.map Group.key) :
    updateGroup lib schema funcs row key groups =
      (updateAll lib schema row (funcs.map .new) funcs).bind fun accs =>
        .ok (groups ++ [⟨key, accs⟩]) := by
  induction groups with
  | nil => rfl
  | cons group groups ih =>
      simp only [List.map_cons, List.mem_cons, not_or] at h
      rw [updateGroup, if_neg (by rw [sameKeys_iff hkey]; exact Ne.symm h.1), ih h.2,
        Outcome.bind_assoc]
      rfl

theorem updateGroup_known {before after : List Group} {group : Group} (hkey : Findable group.key)
    (h : group.key ∉ before.map Group.key) :
    updateGroup lib schema funcs row group.key (before ++ group :: after) =
      (updateAll lib schema row group.accumulators funcs).bind fun accs =>
        .ok (before ++ ⟨group.key, accs⟩ :: after) := by
  induction before with
  | nil =>
      rw [List.nil_append, updateGroup, if_pos (sameKeys_self_iff.mpr hkey)]
      rfl
  | cons first before ih =>
      simp only [List.map_cons, List.mem_cons, not_or] at h
      rw [List.cons_append, updateGroup, if_neg (by rw [sameKeys_iff hkey]; exact Ne.symm h.1),
        ih h.2, Outcome.bind_assoc]
      rfl

/-- A key is there after its row, and those before it stay. -/
theorem updateGroup_keys (h : updateGroup lib schema funcs row key groups = .ok groups') :
    key ∈ groups'.map Group.key ∧ groups.map Group.key ⊆ groups'.map Group.key := by
  induction groups generalizing groups' with
  | nil =>
      obtain ⟨accs, -, h⟩ := Outcome.bind_eq_ok.mp h
      cases h
      simp
  | cons group groups ih =>
      rw [updateGroup] at h
      split at h
      · next hsame =>
          obtain ⟨accs, -, h⟩ := Outcome.bind_eq_ok.mp h
          cases h
          simp [eq_of_sameKeys hsame]
      · obtain ⟨rest, hrest, h⟩ := Outcome.bind_eq_ok.mp h
        cases h
        obtain ⟨hmem, hsubset⟩ := ih hrest
        exact ⟨List.mem_cons_of_mem _ hmem, List.cons_subset_cons _ hsubset⟩

theorem rowsOf_of_not_mem (hgathers : Gathers lib schema groupBy funcs rows groups)
    (h : key ∉ groups.map Group.key) : rowsOf lib schema groupBy key rows = [] := by
  rw [hgathers.mem_iff] at h
  unfold rowsOf
  rw [List.filter_eq_nil_iff]
  intro row hrow hkey
  exact h ⟨row, hrow, by simpa using hkey⟩

theorem exists_mem_append {p : Row → Prop} :
    (∃ r ∈ rows ++ [row], p r) ↔ (∃ r ∈ rows, p r) ∨ p row := by
  simp [or_and_right, exists_or]

/-- After another row, its key has one row more; if there was a group of it, in its place. -/
theorem Gathers.step (hgathers : Gathers lib schema groupBy funcs rows groups)
    (hkey : evalEach lib schema row groupBy = .ok key) (hfindable : Findable key) :
    (∀ groups', updateGroup lib schema funcs row key groups = .ok groups' →
      Gathers lib schema groupBy funcs (rows ++ [row]) groups') ∧
    ((∃ accs, Aggregates lib schema (rowsOf lib schema groupBy key (rows ++ [row])) funcs accs) →
      ∃ groups', updateGroup lib schema funcs row key groups = .ok groups') := by
  by_cases hmem : key ∈ groups.map Group.key
  · obtain ⟨group, hgroup, rfl⟩ := List.mem_map.mp hmem
    obtain ⟨before, after, rfl⟩ := List.append_of_mem hgroup
    have hnodup := hgathers.nodup
    rw [List.map_append, List.map_cons, List.nodup_append] at hnodup
    obtain ⟨-, hafter, hdisjoint⟩ := hnodup
    have hbefore : group.key ∉ before.map Group.key := fun h =>
      hdisjoint _ h _ List.mem_cons_self rfl
    have haggregates := hgathers.aggregates group (by simp)
    rw [updateGroup_known hfindable hbefore, rowsOf_append_self hkey]
    refine ⟨fun groups' h => ?_, fun ⟨accs, haccs⟩ =>
      ⟨_, Outcome.bind_eq_ok.mpr ⟨accs, (updateAll_iff haggregates).mpr haccs, rfl⟩⟩⟩
    obtain ⟨accs, haccs, h⟩ := Outcome.bind_eq_ok.mp h
    cases h
    refine ⟨by simpa using hgathers.nodup, fun key => ?_, fun other hother => ?_⟩
    · have hkeys := hgathers.mem_iff key
      simp only [List.map_append, List.map_cons] at hkeys ⊢
      rw [hkeys, exists_mem_append, hkey, Outcome.ok.injEq]
      refine ⟨.inl, fun h => h.elim id ?_⟩
      rintro rfl
      exact (hgathers.mem_iff _).mp hmem
    · rcases List.mem_append.mp hother with hother | hother
      · have hne : other.key ≠ group.key := fun h =>
          hbefore (h ▸ List.mem_map_of_mem hother)
        rw [rowsOf_append_other hkey hne]
        exact hgathers.aggregates other (by simp [hother])
      · rcases List.mem_cons.mp hother with rfl | hother
        · rw [rowsOf_append_self hkey]
          exact (updateAll_iff haggregates).mp haccs
        · have hne : other.key ≠ group.key := fun h =>
            (List.nodup_cons.mp hafter).1 (h ▸ List.mem_map_of_mem hother)
          rw [rowsOf_append_other hkey hne]
          exact hgathers.aggregates other (by simp [hother])
  · have hnone := rowsOf_of_not_mem hgathers hmem
    rw [updateGroup_new hfindable hmem, rowsOf_append_self hkey, hnone]
    refine ⟨fun groups' h => ?_, fun ⟨accs, haccs⟩ =>
      ⟨_, Outcome.bind_eq_ok.mpr ⟨accs, (updateAll_iff aggregates_nil).mpr haccs, rfl⟩⟩⟩
    obtain ⟨accs, haccs, h⟩ := Outcome.bind_eq_ok.mp h
    cases h
    refine ⟨?_, fun key' => ?_, fun other hother => ?_⟩
    · rw [List.map_append, List.map_singleton, List.nodup_append]
      refine ⟨hgathers.nodup, List.nodup_singleton _, fun a ha b hb => ?_⟩
      rw [List.mem_singleton.mp hb]
      rintro rfl
      exact hmem ha
    · rw [List.map_append, List.mem_append, hgathers.mem_iff, exists_mem_append, hkey,
        Outcome.ok.injEq]
      simp [eq_comm]
    · rcases List.mem_append.mp hother with hother | hother
      · have hne : other.key ≠ key := fun h => hmem (h ▸ List.mem_map_of_mem hother)
        rw [rowsOf_append_other hkey hne]
        exact hgathers.aggregates other hother
      · obtain rfl := List.mem_singleton.mp hother
        rw [rowsOf_append_self hkey, hnone]
        exact (updateAll_iff aggregates_nil).mp haccs

/-! ## All rows -/

theorem gathers_nil : Gathers lib schema groupBy funcs [] [] :=
  ⟨List.nodup_nil, by simp, by simp⟩

theorem groupRows_keys {groupBy : Option (List Expr)}
    (h : groupRows lib schema groupBy funcs rows groups = .ok groups') :
    groups.map Group.key ⊆ groups'.map Group.key ∧
      ∀ row ∈ rows, ∃ key ∈ groups'.map Group.key,
        evalEach lib schema row (groupBy.getD []) = .ok key := by
  induction rows generalizing groups with
  | nil =>
      cases h
      simp
  | cons row rows ih =>
      obtain ⟨key, hkey, h⟩ := Outcome.bind_eq_ok.mp h
      obtain ⟨next, hnext, h⟩ := Outcome.bind_eq_ok.mp h
      obtain ⟨hsubset, hkeys⟩ := ih h
      obtain ⟨hmem, hgrown⟩ := updateGroup_keys hnext
      refine ⟨List.Subset.trans hgrown hsubset, fun other hother => ?_⟩
      rcases List.mem_cons.mp hother with rfl | hother
      · exact ⟨key, hsubset hmem, hkey⟩
      · exact hkeys other hother

variable (lib schema) in
/-- Every row has a key without NaN. -/
def Keyed (groupBy : List Expr) (rows : List Row) : Prop :=
  ∀ row ∈ rows, ∃ key, evalEach lib schema row groupBy = .ok key ∧ Findable key

theorem keyed_cons : Keyed lib schema groupBy (row :: rows) ↔
    (∃ key, evalEach lib schema row groupBy = .ok key ∧ Findable key) ∧
      Keyed lib schema groupBy rows := by
  simp [Keyed]

theorem gathers_groupRows {groupBy : Option (List Expr)} {done : List Row}
    (hgathers : Gathers lib schema (groupBy.getD []) funcs done groups)
    (hkeyed : Keyed lib schema (groupBy.getD []) rows)
    (h : groupRows lib schema groupBy funcs rows groups = .ok groups') :
    Gathers lib schema (groupBy.getD []) funcs (done ++ rows) groups' := by
  induction rows generalizing done groups with
  | nil =>
      cases h
      rwa [List.append_nil]
  | cons row rows ih =>
      obtain ⟨⟨key, hkey, hfindable⟩, hrest⟩ := keyed_cons.mp hkeyed
      obtain ⟨key', hkey', h⟩ := Outcome.bind_eq_ok.mp h
      cases hkey.symm.trans hkey'
      obtain ⟨next, hnext, h⟩ := Outcome.bind_eq_ok.mp h
      have hstep := (hgathers.step hkey hfindable).1 next hnext
      rw [List.append_cons]
      exact ih hstep hrest h

theorem rowsOf_append {more : List Row} : rowsOf lib schema groupBy key (rows ++ more) =
    rowsOf lib schema groupBy key rows ++ rowsOf lib schema groupBy key more :=
  List.filter_append ..

/-- What aggregates of rows exist, they exist of their first rows. -/
theorem aggregates_of_append {more : List Row} {accs : List Accumulator}
    (h : Aggregates lib schema (rows ++ more) funcs accs) :
    ∃ accs, Aggregates lib schema rows funcs accs := by
  induction h with
  | nil => exact ⟨[], .nil⟩
  | @cons func _ _ _ hacc _ ih =>
      obtain ⟨accs, haccs⟩ := ih
      unfold aggregated at hacc
      rw [List.foldlM_append] at hacc
      obtain ⟨acc, hacc, -⟩ := Outcome.bind_eq_ok.mp hacc
      exact ⟨acc :: accs, .cons hacc haccs⟩

/-- Rows can be grouped if their keys are there and the aggregates of each key. -/
theorem exists_groupRows {groupBy : Option (List Expr)} {done : List Row}
    (hgathers : Gathers lib schema (groupBy.getD []) funcs done groups)
    (hkeyed : Keyed lib schema (groupBy.getD []) rows)
    (h : ∀ key, ∃ accs,
      Aggregates lib schema (rowsOf lib schema (groupBy.getD []) key (done ++ rows)) funcs accs) :
    ∃ groups', groupRows lib schema groupBy funcs rows groups = .ok groups' := by
  induction rows generalizing done groups with
  | nil => exact ⟨groups, rfl⟩
  | cons row rows ih =>
      obtain ⟨⟨key, hkey, hfindable⟩, hrest⟩ := keyed_cons.mp hkeyed
      have hstep := hgathers.step hkey hfindable
      have hfirst : ∃ accs, Aggregates lib schema
          (rowsOf lib schema (groupBy.getD []) key (done ++ [row])) funcs accs := by
        obtain ⟨accs, haccs⟩ := h key
        rw [List.append_cons, rowsOf_append] at haccs
        exact aggregates_of_append haccs
      obtain ⟨next, hnext⟩ := hstep.2 hfirst
      rw [List.append_cons] at h
      obtain ⟨groups', hgroups'⟩ := ih (hstep.1 next hnext) hrest h
      refine ⟨groups', ?_⟩
      rw [groupRows, hkey, Outcome.bind, hnext, Outcome.bind, hgroups']

/-! ## The rows of the groups -/

variable (lib schema) in
/-- The condition on groups keeps a group's row. -/
def keepsGroup (having : Option Expr) (group : Group) : Bool :=
  match having with
  | none => true
  | some cond => eval lib schema group.row cond = .ok (.boolean true)

variable (lib schema) in
/-- The condition on groups has a value. -/
def Decided (having : Option Expr) (group : Group) : Prop :=
  ∀ cond, having = some cond → ∃ v, eval lib schema group.row cond = .ok v

theorem finishGroups_eq_ok {having : Option Expr} {out : List Row} :
    finishGroups lib schema having groups = .ok out ↔
      (∀ group ∈ groups, Findable group.key ∧ Decided lib schema having group) ∧
        out = (groups.filter (keepsGroup lib schema having)).map Group.row := by
  induction groups generalizing out with
  | nil => simp [finishGroups, eq_comm]
  | cons group groups ih =>
      rw [finishGroups, List.forall_mem_cons, List.filter_cons]
      by_cases hfind : sameKeys group.key group.key = true
      · have hfindable := sameKeys_self_iff.mp hfind
        rw [if_neg (by simp [hfind])]
        have hrest (keep : Bool) : ((finishGroups lib schema having groups).bind fun rows =>
              .ok (if keep then group.row :: rows else rows)) = .ok out ↔
            (∀ group ∈ groups, Findable group.key ∧ Decided lib schema having group) ∧
              out = (if keep then group :: groups.filter (keepsGroup lib schema having)
                else groups.filter (keepsGroup lib schema having)).map Group.row := by
          refine Outcome.bind_eq_ok.trans ?_
          simp only [ih]
          constructor
          · rintro ⟨_, ⟨hall, rfl⟩, h⟩
            cases h
            exact ⟨hall, by cases keep <;> rfl⟩
          · rintro ⟨hall, rfl⟩
            exact ⟨_, ⟨hall, rfl⟩, by cases keep <;> rfl⟩
        cases having with
        | none =>
            have hdecided : Decided lib schema none group := by rintro _ ⟨⟩
            refine (hrest true).trans ?_
            simp [hfindable, hdecided, keepsGroup]
        | some cond =>
            have hdecided : Decided lib schema (some cond) group ↔
                ∃ v, eval lib schema group.row cond = .ok v := by
              simp [Decided]
            change ((((eval lib schema group.row cond).mapError ExecError.plan).bind fun v =>
              .ok (isTruthy v)).bind fun keep => (finishGroups lib schema (some cond) groups).bind
                fun rows => .ok (if keep then group.row :: rows else rows)) = .ok out ↔ _
            rw [hdecided]
            cases heval : eval lib schema group.row cond with
            | ok v =>
                have hkeeps : keepsGroup lib schema (some cond) group = isTruthy v := by
                  simp [keepsGroup, heval, isTruthy]
                rw [hkeeps]
                refine (hrest (isTruthy v)).trans ?_
                simp [hfindable]
            | error reason => simp [Outcome.mapError, Outcome.bind]
            | stop why => simp [Outcome.mapError, Outcome.bind]
      · have hlost : ¬Findable group.key := fun h => hfind (sameKeys_self_iff.mpr h)
        simp [hfind, hlost]

/-! ## Aggregations -/

variable (lib schema) in
/-- A key of the rows; without `GROUP BY` the empty one is there also without rows. -/
def IsKey (groupBy : Option (List Expr)) (rows : List Row) (key : List Value) : Prop :=
  groupBy = none ∧ key = [] ∨ ∃ row ∈ rows, evalEach lib schema row (groupBy.getD []) = .ok key

variable (lib schema) in
/-- The groups of an aggregation, each once, with the aggregates of their rows. -/
structure GroupsOf (groupBy : Option (List Expr)) (funcs : List AggregateFunc) (rows : List Row)
    (groups : List Group) : Prop where
  nodup : (groups.map Group.key).Nodup
  mem_iff : ∀ key, key ∈ groups.map Group.key ↔ IsKey lib schema groupBy rows key
  aggregates : ∀ group ∈ groups, Aggregates lib schema
    (rowsOf lib schema (groupBy.getD []) group.key rows) funcs group.accumulators

theorem evalEach_nil_iff : evalEach lib schema row [] = .ok key ↔ key = [] := by
  simp [evalEach, eq_comm]

theorem Gathers.groupsOf {groupBy : Option (List Expr)}
    (h : Gathers lib schema (groupBy.getD []) funcs rows groups)
    (hrows : rows ≠ [] ∨ groupBy ≠ none) : GroupsOf lib schema groupBy funcs rows groups := by
  refine ⟨h.nodup, fun key => (h.mem_iff key).trans ⟨.inr, ?_⟩, h.aggregates⟩
  rintro (⟨rfl, rfl⟩ | hkey)
  · obtain ⟨row, rows, rfl⟩ := List.exists_cons_of_ne_nil (hrows.resolve_right (by simp))
    exact ⟨row, List.mem_cons_self, rfl⟩
  · exact hkey

theorem groupsOf_nil : GroupsOf lib schema none funcs [] [⟨[], funcs.map .new⟩] := by
  refine ⟨List.nodup_singleton _, fun key => by simp [IsKey], fun group hgroup => ?_⟩
  rw [List.mem_singleton.mp hgroup]
  exact aggregates_nil

@[simp] theorem outcome_ofOutcome (x : Outcome ExecError (List Row)) :
    (Rows.ofOutcome x).outcome = x := by
  cases x <;> rfl

variable {groupBy : Option (List Expr)} {having : Option Expr} {input : Rows} {out : List Row}

/-- The groups of an aggregation that returns; they do not depend on its condition. -/
theorem exists_groupsOf
    (h : (aggregate lib schema groupBy funcs having input).outcome = .ok out) :
    input.ending = .ok () ∧ ∃ groups, GroupsOf lib schema groupBy funcs input.rows groups ∧
      ∀ having', (aggregate lib schema groupBy funcs having' input).outcome =
        finishGroups lib schema having' groups := by
  unfold aggregate at h ⊢
  simp only [outcome_ofOutcome] at h ⊢
  obtain ⟨groups, hgroups, hinput⟩ := Outcome.bind_eq_ok.mp h
  obtain ⟨⟨⟩, hending, hfinish⟩ := Outcome.bind_eq_ok.mp hinput
  refine ⟨hending, ?_⟩
  simp only [hgroups, hending, Outcome.bind]
  by_cases hdefault : (input.rows.isEmpty && groupBy.isNone) = true
  · simp only [if_pos hdefault]
    simp only [Bool.and_eq_true, List.isEmpty_iff, Option.isNone_iff_eq_none] at hdefault
    obtain ⟨hrows, rfl⟩ := hdefault
    rw [hrows]
    exact ⟨_, groupsOf_nil, fun _ => rfl⟩
  · simp only [if_neg hdefault] at hfinish ⊢
    obtain ⟨hall, -⟩ := finishGroups_eq_ok.mp hfinish
    have hkeyed : Keyed lib schema (groupBy.getD []) input.rows := by
      intro row hrow
      obtain ⟨key, hmem, hkey⟩ := (groupRows_keys hgroups).2 row hrow
      obtain ⟨group, hgroup, rfl⟩ := List.mem_map.mp hmem
      exact ⟨group.key, hkey, (hall group hgroup).1⟩
    have hgathers : Gathers lib schema (groupBy.getD []) funcs input.rows groups :=
      gathers_groupRows gathers_nil hkeyed hgroups
    refine ⟨groups, hgathers.groupsOf ?_, fun _ => rfl⟩
    by_contra hnone
    push Not at hnone
    exact hdefault (by simp [hnone])

/-- An aggregation returns the groups of its rows that the condition keeps. -/
theorem groupsOf_aggregate
    (h : (aggregate lib schema groupBy funcs having input).outcome = .ok out) :
    input.ending = .ok () ∧ ∃ groups, GroupsOf lib schema groupBy funcs input.rows groups ∧
      (∀ group ∈ groups, Findable group.key ∧ Decided lib schema having group) ∧
        out = (groups.filter (keepsGroup lib schema having)).map Group.row := by
  obtain ⟨hending, groups, hgroups, hfinish⟩ := exists_groupsOf h
  exact ⟨hending, groups, hgroups, finishGroups_eq_ok.mp ((hfinish having).symm.trans h)⟩

/-- Without a condition, an aggregation returns if all its parts do. -/
theorem exists_aggregate (hending : input.ending = .ok ())
    (hkeyed : Keyed lib schema (groupBy.getD []) input.rows)
    (h : ∀ key, ∃ accs, Aggregates lib schema
      (rowsOf lib schema (groupBy.getD []) key input.rows) funcs accs) :
    ∃ out, (aggregate lib schema groupBy funcs none input).outcome = .ok out := by
  obtain ⟨groups, hgroups⟩ := exists_groupRows gathers_nil hkeyed h
  have hgathers : Gathers lib schema (groupBy.getD []) funcs input.rows groups :=
    gathers_groupRows gathers_nil hkeyed hgroups
  unfold aggregate
  rw [outcome_ofOutcome, hgroups, hending]
  simp only [Outcome.bind]
  split
  · exact ⟨_, finishGroups_eq_ok.mpr ⟨by simp [Findable, Decided], rfl⟩⟩
  · refine ⟨_, finishGroups_eq_ok.mpr ⟨fun group hgroup => ⟨?_, nofun⟩, rfl⟩⟩
    obtain ⟨row, hrow, hkey⟩ := (hgathers.mem_iff _).mp (List.mem_map_of_mem hgroup)
    obtain ⟨key, hkey', hfindable⟩ := hkeyed row hrow
    cases hkey.symm.trans hkey'
    exact hfindable

end Grouping

end ChocoBase.Plan
