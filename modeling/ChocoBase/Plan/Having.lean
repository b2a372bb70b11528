import ChocoBase.Plan.Grouping
import ChocoBase.Plan.Leaves

/-!
# Conditions on groups

A condition on groups is evaluated on the row of a group as if it were a row of the table,
so that the columns it names are looked up where the table has them.
-/

namespace ChocoBase.Plan

open ChocoBase.Foundation ChocoBase.Sql ChocoBase.Types ChocoBase.Auth

section Having

variable (lib : Library) (schema : TableSchema) (ctx : ExecutionContext) (groupBy : List Expr)
  (rows : List Row) (group : Group)

/-! ## What a condition on groups means -/

/-- Where a column stands in `GROUP BY`. -/
def keyIndex (leaf : Expr) : Option Nat :=
  groupBy.findIdx? fun g => columnOf schema g = columnOf schema leaf

/-- A column means the group's key, and a call of an aggregate the aggregate of its rows. -/
def groupLeaf : Expr → Outcome PlanError Value
  | .column name =>
      Outcome.unwrap ((keyIndex schema groupBy (.column name)).bind fun j => group.key[j]?)
  | .qualifiedColumn table column =>
      Outcome.unwrap
        ((keyIndex schema groupBy (.qualifiedColumn table column)).bind fun j => group.key[j]?)
  | .aggregate func =>
      match aggregated lib schema (rowsOf lib schema groupBy group.key rows) func with
      | .ok acc => .ok acc.finalize
      | _ => .error (.invalidExpression "")
  | other => evalWithContext lib schema [] ctx other

/-- The value of a condition on a group. -/
def groupMeaning (cond : Expr) : Outcome PlanError Value :=
  evalBy lib (groupLeaf lib schema ctx groupBy rows group) cond

/-- The columns of a condition are columns of `GROUP BY`. -/
def OverGroups (cond : Expr) : Prop :=
  ∀ leaf ∈ leaves cond, (∀ name, leaf = .column name → ∃ i, columnOf schema leaf = some i) ∧
    (∀ table column, leaf = .qualifiedColumn table column → ∃ i, columnOf schema leaf = some i) ∧
      ∀ i, columnOf schema leaf = some i → ∃ g ∈ groupBy, columnOf schema g = some i

/-- A column is looked up where its key stands. -/
def ReadsOwn (leaf : Expr) : Prop :=
  ∀ i, columnOf schema leaf = some i → ∃ g, groupBy[i]? = some g ∧ columnOf schema g = some i

def SoundLeaf : Expr → Prop
  | .aggregate _ => False
  | .authUid => ctx.userId = none
  | leaf => ReadsOwn schema groupBy leaf

/-- On the group, each leaf is what it means, read from no other column, and so is the whole. -/
def HavingRight (cond : Expr) : Prop :=
  (∀ leaf ∈ leaves cond,
    eval lib schema group.row leaf = groupLeaf lib schema ctx groupBy rows group leaf ∧
      ReadsOwn schema groupBy leaf) ∧
  eval lib schema group.row cond = groupMeaning lib schema ctx groupBy rows group cond ∧
    ¬(eval lib schema group.row cond).Stops

/-- No aggregate is called, and each column stands in `GROUP BY` where it stands in the table. -/
def HavingSound (cond : Expr) : Prop :=
  (∀ leaf ∈ leaves cond, SoundLeaf schema ctx groupBy leaf) ∧
    ¬(groupMeaning lib schema ctx groupBy rows group cond).Stops

variable {lib schema ctx groupBy rows group}

/-! ## Keys as columns -/

theorem evalEach_length {row : Row} {exprs : List Expr} {key : List Value}
    (h : evalEach lib schema row exprs = .ok key) : key.length = exprs.length := by
  induction exprs generalizing key with
  | nil =>
      cases h
      rfl
  | cons e exprs ih =>
      obtain ⟨v, -, h⟩ := Outcome.bind_eq_ok.mp h
      obtain ⟨vs, hvs, h⟩ := Outcome.bind_eq_ok.mp h
      cases h
      rw [List.length_cons, List.length_cons, ih hvs]

theorem evalEach_getElem? {row : Row} {exprs : List Expr} {key : List Value}
    (h : evalEach lib schema row exprs = .ok key) {j : Nat} {e : Expr} (he : exprs[j]? = some e) :
    ∃ v, key[j]? = some v ∧ evalForGroup lib schema row e = .ok v := by
  induction exprs generalizing key j with
  | nil => simp at he
  | cons e' exprs ih =>
      obtain ⟨v, hv, h⟩ := Outcome.bind_eq_ok.mp h
      obtain ⟨vs, hvs, h⟩ := Outcome.bind_eq_ok.mp h
      cases h
      cases j with
      | zero =>
          cases he
          exact ⟨v, rfl, hv⟩
      | succ j => exact ih hvs he

/-- The key of a column is its value on the rows of the group. -/
theorem key_of_columnOf {row : Row} (hkey : evalEach lib schema row groupBy = .ok group.key)
    {i j : Nat} {g : Expr} (hg : groupBy[j]? = some g) (hcolumn : columnOf schema g = some i) :
    ∃ v, group.key[j]? = some v ∧ row[i]? = some v := by
  obtain ⟨v, hv, heval⟩ := evalEach_getElem? hkey hg
  refine ⟨v, hv, ?_⟩
  have hrow := Outcome.mapError_eq_ok.mp heval
  rw [eval, eval_of_columnOf hcolumn] at hrow
  cases hi : row[i]? with
  | none => simp [hi, Outcome.unwrap] at hrow
  | some u => simpa [hi, Outcome.unwrap] using hrow

theorem row_getElem? {i : Nat} {v : Value} (h : group.key[i]? = some v) :
    group.row[i]? = some v := by
  unfold Group.row
  rw [List.getElem?_append_left (List.getElem?_eq_some_iff.mp h).1]
  exact h

/-- Where a column is looked up in its own place, it has its key. -/
theorem eval_own {row : Row} (hkey : evalEach lib schema row groupBy = .ok group.key)
    {leaf : Expr} {i : Nat} (hleaf : columnOf schema leaf = some i)
    (hown : ReadsOwn schema groupBy leaf) :
    eval lib schema group.row leaf =
      Outcome.unwrap ((keyIndex schema groupBy leaf).bind fun j => group.key[j]?) := by
  obtain ⟨g, hg, hcolumn⟩ := hown i hleaf
  obtain ⟨v, hv, hrow⟩ := key_of_columnOf hkey hg hcolumn
  have hsome : (keyIndex schema groupBy leaf).isSome = true := by
    unfold keyIndex
    rw [List.findIdx?_isSome, List.any_eq_true]
    exact ⟨g, List.mem_of_getElem? hg, by simp [hcolumn, hleaf]⟩
  obtain ⟨j, hj⟩ := Option.isSome_iff_exists.mp hsome
  have hfound := (List.findIdx?_eq_some_iff_getElem.mp hj)
  obtain ⟨hlt, hsame, -⟩ := hfound
  have hsame : columnOf schema groupBy[j] = some i := by
    rw [← hleaf]
    simpa using hsame
  obtain ⟨u, hu, hrow'⟩ := key_of_columnOf hkey (List.getElem?_eq_getElem hlt) hsame
  cases hrow.symm.trans hrow'
  rw [eval, eval_of_columnOf hleaf, row_getElem? hv, hj, Option.bind_some, hu]

/-! ## The condition is exact -/

theorem havingSound_of_right {cond : Expr}
    (h : HavingRight lib schema ctx groupBy rows group cond) :
    HavingSound lib schema ctx groupBy rows group cond := by
  obtain ⟨hleaves, heval, hstops⟩ := h
  refine ⟨fun leaf hleaf => ?_, heval ▸ hstops⟩
  obtain ⟨hvalue, hown⟩ := hleaves leaf hleaf
  cases leaf with
  | aggregate func =>
      rw [groupLeaf] at hvalue
      split at hvalue
      · cases hvalue
      · simp [eval, evalWithContext] at hvalue
  | authUid =>
      rw [eval, groupLeaf, evalWithContext, evalWithContext] at hvalue
      · cases hid : ctx.userId with
        | none => exact hid
        | some uid => simp [hid, ExecutionContext.anonymous] at hvalue
      all_goals (intros; contradiction)
  | _ => exact hown

theorem havingRight_of_sound {row : Row} {cond : Expr} (hover : OverGroups schema groupBy cond)
    (hkey : groupBy ≠ [] → evalEach lib schema row groupBy = .ok group.key)
    (h : HavingSound lib schema ctx groupBy rows group cond) :
    HavingRight lib schema ctx groupBy rows group cond := by
  obtain ⟨hleaves, hstops⟩ := h
  have hcolumn {leaf : Expr} {i : Nat} (hmem : leaf ∈ leaves cond)
      (hleaf : columnOf schema leaf = some i) (hown : ReadsOwn schema groupBy leaf) :
      eval lib schema group.row leaf =
        Outcome.unwrap ((keyIndex schema groupBy leaf).bind fun j => group.key[j]?) := by
    obtain ⟨g, hg, -⟩ := (hover leaf hmem).2.2 i hleaf
    exact eval_own (hkey (List.ne_nil_of_mem hg)) hleaf hown
  have hall : ∀ leaf ∈ leaves cond,
      eval lib schema group.row leaf = groupLeaf lib schema ctx groupBy rows group leaf ∧
        ReadsOwn schema groupBy leaf := by
    intro leaf hmem
    have hsound := hleaves leaf hmem
    cases leaf with
    | column name =>
        obtain ⟨i, hi⟩ := (hover _ hmem).1 name rfl
        exact ⟨hcolumn hmem hi hsound, hsound⟩
    | qualifiedColumn table column =>
        obtain ⟨i, hi⟩ := (hover _ hmem).2.1 table column rfl
        exact ⟨hcolumn hmem hi hsound, hsound⟩
    | aggregate func => exact hsound.elim
    | authUid =>
        refine ⟨?_, by rintro _ ⟨⟩⟩
        change ctx.userId = none at hsound
        simp [eval, groupLeaf, evalWithContext, hsound, ExecutionContext.anonymous]
    | intLiteral | floatLiteral | stringLiteral | boolLiteral | null | inSubquery | «exists» =>
        exact ⟨rfl, by rintro _ ⟨⟩⟩
    | binaryOp | vectorDistance | inList | isNull | like | jsonExtract | ftsMatch | ftsRank
    | ftsSnippet => exact (isLeaf_of_mem cond hmem).elim
  have hvalue : eval lib schema group.row cond =
      groupMeaning lib schema ctx groupBy rows group cond := by
    rw [eval, groupMeaning, ← evalBy_evalWithContext]
    exact evalBy_congr cond fun leaf hmem => (hall leaf hmem).1
  exact ⟨hall, hvalue, hvalue ▸ hstops⟩

/-! ## Whole queries -/

theorem finishesSafely_of_forall {cond : Expr} {groups : List Group}
    (h : ∀ group ∈ groups, Findable group.key ∧ Safe lib schema group.row .anonymous cond) :
    FinishesSafely lib schema (some cond) groups := by
  induction groups with
  | nil => trivial
  | cons group groups ih =>
      obtain ⟨⟨hfindable, hsafe⟩, hrest⟩ := List.forall_mem_cons.mp h
      exact ⟨hfindable, hsafe, fun _ _ => ih hrest⟩

/-- The groups of which the condition is true. -/
def meansTrue (lib : Library) (schema : TableSchema) (ctx : ExecutionContext)
    (groupBy : List Expr) (rows : List Row) (cond : Expr) (group : Group) : Bool :=
  groupMeaning lib schema ctx groupBy rows group cond = .ok (.boolean true)

/--
On a group, a condition over its keys and aggregates is read rightly exactly if it calls no
aggregate and finds each column in its own place, and compares values of one kind.  Where
that holds of all groups, the query returns the groups of which the condition is true.
-/
theorem having_right_iff {lib : Library} {schema : TableSchema} {groupBy : Option (List Expr)}
    {funcs : List AggregateFunc} {input : Rows} {all : List Row} (ctx : ExecutionContext)
    (cond : Expr) (hover : OverGroups schema (groupBy.getD []) cond)
    (h : (aggregate lib schema groupBy funcs none input).outcome = .ok all) :
    ∃ groups, GroupsOf lib schema groupBy funcs input.rows groups ∧ all = groups.map Group.row ∧
      (∀ group ∈ groups,
        (HavingRight lib schema ctx (groupBy.getD []) input.rows group cond ↔
          HavingSound lib schema ctx (groupBy.getD []) input.rows group cond)) ∧
      ((∀ group ∈ groups, HavingSound lib schema ctx (groupBy.getD []) input.rows group cond) →
        ¬(aggregate lib schema groupBy funcs (some cond) input).outcome.Stops ∧
        (∀ out, (aggregate lib schema groupBy funcs (some cond) input).outcome = .ok out →
          out = (groups.filter (meansTrue lib schema ctx (groupBy.getD []) input.rows cond)).map
            Group.row) ∧
        ((∀ group ∈ groups, ∃ v,
            groupMeaning lib schema ctx (groupBy.getD []) input.rows group cond = .ok v) →
          ∃ out, (aggregate lib schema groupBy funcs (some cond) input).outcome = .ok out)) := by
  obtain ⟨-, groups, hgroups, hfinish⟩ := exists_groupsOf h
  obtain ⟨hfindable, hall⟩ := finishGroups_eq_ok.mp ((hfinish none).symm.trans h)
  have hright : ∀ group ∈ groups,
      HavingSound lib schema ctx (groupBy.getD []) input.rows group cond →
        HavingRight lib schema ctx (groupBy.getD []) input.rows group cond := by
    intro group hgroup
    rcases (hgroups.mem_iff group.key).mp (List.mem_map_of_mem hgroup) with
      ⟨rfl, -⟩ | ⟨row, -, hkey⟩
    · exact @havingRight_of_sound _ _ _ _ _ _ [] _ hover fun hne => absurd rfl hne
    · exact havingRight_of_sound hover fun _ => hkey
  refine ⟨groups, hgroups, ?_, fun group hgroup => ⟨havingSound_of_right, hright group hgroup⟩,
    fun hsound => ⟨?_, fun out hout => ?_, fun hvalues => ?_⟩⟩
  · have hkept : groups.filter (keepsGroup lib schema none) = groups :=
      List.filter_eq_self.mpr fun _ _ => rfl
    rw [hall, hkept]
  · rw [hfinish, stops_finishGroups, not_not]
    refine finishesSafely_of_forall fun group hgroup => ⟨(hfindable group hgroup).1, ?_⟩
    have hstops := (hright group hgroup (hsound group hgroup)).2.2
    rwa [eval, stops_iff, not_not] at hstops
  · rw [hfinish] at hout
    rw [(finishGroups_eq_ok.mp hout).2]
    refine congrArg _ (List.filter_congr fun group hgroup => ?_)
    rw [keepsGroup, meansTrue, (hright group hgroup (hsound group hgroup)).2.1]
  · refine ⟨_, (hfinish _).trans (finishGroups_eq_ok.mpr ⟨fun group hgroup => ⟨?_, ?_⟩, rfl⟩)⟩
    · exact (hfindable group hgroup).1
    · rintro _ ⟨⟩
      rw [(hright group hgroup (hsound group hgroup)).2.1]
      exact hvalues group hgroup

end Having

/-! ## Sales by region -/

def salesSchema : TableSchema := ⟨"sales", [⟨"id", .integer, true, true⟩,
  ⟨"region", .text, false, false⟩, ⟨"amount", .integer, false, false⟩], 3, false⟩

def salesRows : List Row :=
  [[.integer 1, .text "b", .integer 10], [.integer 2, .text "a", .integer 20],
    [.integer 10, .text "b", .integer 5]]

theorem overGroups_id : OverGroups salesSchema [.column "id"]
    (.binaryOp .eq (.column "id") (.intLiteral 2)) := by
  intro leaf hleaf
  simp only [leaves, List.cons_append, List.nil_append, List.mem_cons, List.not_mem_nil,
    or_false] at hleaf
  rcases hleaf with rfl | rfl
  · exact ⟨fun _ _ => ⟨0, rfl⟩, nofun, fun i hi => ⟨_, List.mem_cons_self, hi⟩⟩
  · exact ⟨nofun, nofun, nofun⟩

/-- The primary key, which stands first in the table and in `GROUP BY`. -/
theorem having_right_id :
    ∃ groups, GroupsOf plainLibrary salesSchema (some [.column "id"]) [.countStar] salesRows groups ∧
      ∀ group ∈ groups,
        (HavingRight plainLibrary salesSchema .anonymous [.column "id"] salesRows group
            (.binaryOp .eq (.column "id") (.intLiteral 2)) ↔
          HavingSound plainLibrary salesSchema .anonymous [.column "id"] salesRows group
            (.binaryOp .eq (.column "id") (.intLiteral 2))) := by
  have hall : (aggregate plainLibrary salesSchema (some [.column "id"]) [.countStar] none
      ⟨salesRows, .ok ()⟩).outcome = .ok [[.integer 1, .integer 1], [.integer 2, .integer 1],
        [.integer 10, .integer 1]] := by decide
  obtain ⟨groups, hgroups, -, hiff, -⟩ := having_right_iff .anonymous _ overGroups_id hall
  exact ⟨groups, hgroups, hiff⟩

/--
`HAVING region = 'b'` compares the number of rows with a text, `HAVING id = 10` looks at the
amounts, and `HAVING COUNT(*) = 2` fails.
-/
theorem having_reads_other :
    let grouped (groupBy : List Expr) (having : Option Expr) :=
      (aggregate plainLibrary salesSchema (some groupBy) [.countStar] having
        ⟨salesRows, .ok ()⟩).outcome
    (grouped [.column "region"] none =
        .ok [[.text "b", .integer 2], [.text "a", .integer 1]] ∧
      grouped [.column "region"] (some (.binaryOp .eq (.column "region") (.stringLiteral "b"))) =
        .stop .panic ∧
      grouped [.column "region"] (some (.binaryOp .eq (.aggregate .countStar) (.intLiteral 2))) =
        .error (.plan (.invalidExpression
          "aggregate functions cannot be evaluated directly in row context"))) ∧
    grouped [.column "amount", .column "id"]
        (some (.binaryOp .eq (.column "id") (.intLiteral 10))) =
      .ok [[.integer 10, .integer 1, .integer 1]] := by
  decide

end ChocoBase.Plan
