import ChocoBase.Engine.Execute
import ChocoBase.Catalog.Changes

/-!
# Queries only look

A query whose subqueries are queries leaves the database as it is: on a sound
catalog it reads the trees of tables and indexes, and nothing else.  The conditions
of policies count as a part of the queries that they are added to.
-/

namespace ChocoBase.Engine

open ChocoBase.Foundation ChocoBase.Storage ChocoBase.BTree ChocoBase.Sql ChocoBase.Types
  ChocoBase.Auth ChocoBase.Catalog ChocoBase.Plan

/-! ## Statements that are queries -/

mutual

/-- The statements that are executed to resolve an expression. -/
def subqueries : Expr → List Statement
  | .inSubquery expr subquery _ => subqueries expr ++ [subquery]
  | .exists subquery _ => [subquery]
  | .binaryOp _ left right => subqueries left ++ subqueries right
  | .vectorDistance _ left right => subqueries left ++ subqueries right
  | .inList expr list _ => subqueries expr ++ subqueriesInList list
  | .isNull expr _ => subqueries expr
  | .like expr _ _ => subqueries expr
  | .jsonExtract expr _ _ => subqueries expr
  | .ftsMatch expr _ => subqueries expr
  | .ftsRank expr _ => subqueries expr
  | .ftsSnippet expr _ => subqueries expr
  | _ => []

def subqueriesInList : List Expr → List Statement
  | [] => []
  | item :: list => subqueries item ++ subqueriesInList list

end

/-- Subqueries of a query are queries themselves. -/
inductive Query : Statement → Prop where
  | select {columns : SelectColumns} {table : String} {tableRef : Option TableRef}
      {whereClause : Option Expr} {groupBy : Option (List Expr)} {having : Option Expr}
      {orderBy : Option (String × Bool)} {limit : Option Int64}
      (inner : ∀ w ∈ whereClause, ∀ stmt ∈ subqueries w, Query stmt) :
      Query (.select columns table tableRef whereClause groupBy having orderBy limit)

/-- The condition asks for nothing but queries. -/
def Asking (whereClause : Option Expr) : Prop :=
  ∀ w ∈ whereClause, ∀ stmt ∈ subqueries w, Query stmt

/-- The policies that restrict this user ask for nothing but queries. -/
def Unforced (lib : Library) (cat : OrdMap Bytes Bytes) (ctx : ExecutionContext) : Prop :=
  ctx.isAdmin = false → ∀ policy, IsPolicy lib cat policy → Asking policy.usingExpr

section Looking

variable {f : Forest} {ε ε' α β : Type}

/-- The program leaves everything as it is, whatever it returns. -/
abbrev Peeks (f : Forest) (x : DbProg ε α) : Prop := Views f x (fun _ => True) fun _ => True

theorem Views.peeks {x : DbProg ε α} {P : α → Prop} {E : ε → Prop} (h : Views f x P E) : Peeks f x :=
  h.mono (fun _ _ => trivial) fun _ _ => trivial

theorem Peeks.seq {x : DbProg ε α} {g : α → DbProg ε β} (hx : Peeks f x) (hg : ∀ a, Peeks f (g a)) :
    Peeks f (x >>= g) :=
  Views.seq hx fun a _ => hg a

theorem peeks_pure (a : α) : Peeks f (pure a : DbProg ε α) := views_pure trivial

theorem peeks_throw (e : ε) : Peeks f (.throw e : DbProg ε α) := views_throw trivial

theorem peeks_ofOutcome (o : Outcome ε α) : Peeks f (Prog.ofOutcome o : DbProg ε α) :=
  (views_ofOutcome fun _ _ => trivial).peeks (E := fun _ => True)

theorem peeks_unwrap (o : Option α) : Peeks f (Prog.unwrap o : DbProg ε α) :=
  (views_unwrap (E := fun _ => True) o).peeks

theorem Peeks.mapError {x : DbProg ε' α} (hx : Peeks f x) (convert : ε' → ε) :
    Peeks f (x.mapError convert) :=
  Views.mapError hx fun _ _ => trivial

end Looking

/-! ## Reading rows -/

section Reading

variable {f : Forest} {cat : OrdMap Bytes Bytes} {lay : Layout} {o : Owner} {schema : TableSchema}
  {m : OrdMap Bytes Bytes}

/-- The rows of a tree, up to the first that does not decode. -/
def storedRows (schema : TableSchema) (m : OrdMap Bytes Bytes) : Rows :=
  collect (fun e => rowOf schema e.2) (.ok ()) m.entries

theorem views_seqScan (h : Housed f cat lay) (ho : lay o = some (schema.rootPage, m)) :
    Views f (seqScan schema) (fun rows => rows = storedRows schema m) fun _ => False := by
  refine Views.seq (h.views_scan ho) ?_
  rintro scanned rfl
  exact views_pure rfl

/-- What a search for a row finds. -/
def storedRow (schema : TableSchema) (m : OrdMap Bytes Bytes) (key : Bytes) :
    Outcome ExecError (Option Row) :=
  match m.get key with
  | none => .ok none
  | some payload => rowOf schema payload

theorem views_fetch (h : Housed f cat lay) (ho : lay o = some (schema.rootPage, m)) (key : Bytes) :
    Views f (fetch schema key) (fun found => found = storedRow schema m key) fun _ => False := by
  have hsearch : Views f (ask id (.search schema.rootPage key)) (fun found => found = m.get key)
      fun _ => False := h.views_search ho key
  refine Views.seq (views_attempt hsearch) ?_
  rintro _ ⟨found, rfl, rfl⟩
  rw [storedRow]
  cases m.get key with
  | none => exact views_pure rfl
  | some payload => exact views_pure rfl

theorem views_tableSeek (h : Housed f cat lay) (ho : lay o = some (schema.rootPage, m))
    (key : Bytes) :
    Views f (tableSeek schema key) (fun rows => rows = collect id (.ok ()) [storedRow schema m key])
      fun _ => False := by
  refine Views.seq (views_fetch h ho key) ?_
  rintro found rfl
  exact views_pure rfl

theorem peeks_fetchEach (h : Housed f cat lay) (ho : lay o = some (schema.rootPage, m))
    (start : Bytes) (ending : Outcome ExecError Unit) (entries : List (Bytes × Bytes)) :
    Peeks f (fetchEach schema start ending entries) := by
  induction entries with
  | nil => exact peeks_pure _
  | cons entry rest ih =>
      rw [fetchEach]
      split
      · exact peeks_pure _
      · refine Peeks.seq (views_fetch h ho _).peeks fun found => Peeks.seq ih fun later => ?_
        exact peeks_pure _

theorem peeks_indexSeek {o' : Owner} {root : PageNo} {m' : OrdMap Bytes Bytes}
    (h : Housed f cat lay) (ho : lay o = some (schema.rootPage, m)) (ho' : lay o' = some (root, m'))
    (start : Bytes) : Peeks f (indexSeek schema root start) :=
  Peeks.seq (h.views_scanFrom ho' start).peeks fun _ => peeks_fetchEach h ho _ _ _

theorem takeFirst_matches {α : Type} {matched : Expr → Option α} {items rest : List Expr} {found : α}
    (h : takeFirst matched items = some (found, rest)) : ∃ item ∈ items, matched item = some found := by
  induction items generalizing rest with
  | nil => cases h
  | cons item items ih =>
      rw [takeFirst] at h
      split at h
      · next b hb =>
          cases h
          exact ⟨item, List.mem_cons_self, hb⟩
      · obtain ⟨⟨found', rest'⟩, htake, heq⟩ := Option.map_eq_some_iff.mp h
        cases heq
        obtain ⟨item', hmem, hitem⟩ := ih htake
        exact ⟨item', List.mem_cons_of_mem _ hmem, hitem⟩

theorem indexEquality_mem {indexes : List IndexSchema} {e : Expr} {idx : IndexSchema} {v : Value}
    (h : indexEquality indexes e = some (idx, v)) : idx ∈ indexes := by
  have hfind : ∀ name lit, ((indexes.find? fun i => i.column = name).bind fun i =>
      (literalValue lit).map fun v => (i, v)) = some (idx, v) → idx ∈ indexes := by
    intro name lit heq
    obtain ⟨i, hi, hv⟩ := Option.bind_eq_some_iff.mp heq
    obtain ⟨_, -, heq⟩ := Option.map_eq_some_iff.mp hv
    cases heq
    exact List.mem_of_find?_eq_some hi
  unfold indexEquality at h
  split at h
  · exact hfind _ _ h
  · exact hfind _ _ h
  · cases h

theorem findIndexEquality_mem {indexes : List IndexSchema} {whereClause residual : Option Expr}
    {idx : IndexSchema} {v : Value}
    (h : findIndexEquality whereClause indexes = some (idx, v, residual)) : idx ∈ indexes := by
  unfold findIndexEquality at h
  split at h
  · cases h
  · split at h
    · cases h
    · obtain ⟨⟨⟨i, v'⟩, rest⟩, htake, heq⟩ := Option.map_eq_some_iff.mp h
      cases heq
      obtain ⟨e, -, he⟩ := takeFirst_matches htake
      exact indexEquality_mem he

theorem choosePath_mem {pkCol : String} {indexes : List IndexSchema} {whereClause residual : Option Expr}
    {idx : IndexSchema} {v : Value}
    (h : choosePath pkCol indexes whereClause = (.indexSeek idx v, residual)) : idx ∈ indexes := by
  unfold choosePath at h
  generalize extractPkEquality whereClause pkCol = found at h
  obtain ⟨_ | pkValue, rest⟩ := found
  · rcases hfind : findIndexEquality rest indexes with _ | ⟨idx', v', residual'⟩
    · simp only [hfind] at h
      cases h
    · simp only [hfind] at h
      cases h
      exact findIndexEquality_mem hfind
  · cases h

/-- A plan reads the tree of its table and those of its indexes. -/
theorem peeks_read {lib : Library} {indexes : List IndexSchema} {whereClause : Option Expr}
    {indices : List Nat} {orderBy : Option (String × Bool)} {limitRows : Option Int64}
    {ctx : ExecutionContext} {plan : SelectPlan} (h : Housed f cat lay)
    (ho : lay o = some (schema.rootPage, m))
    (hindexes : ∀ idx ∈ indexes, ∃ o' m', lay o' = some (idx.rootPage, m'))
    (hplan : buildSelectPlanWithContext lib schema indexes whereClause indices orderBy limitRows ctx =
      .ok plan) : Peeks f (plan.read schema) := by
  have hpath : Peeks f (plan.path.read schema) := by
    obtain ⟨pkIdx, -, hplan⟩ := Outcome.bind_eq_ok.mp hplan
    obtain ⟨pkCol, -, hplan⟩ := Outcome.bind_eq_ok.mp hplan
    rcases hchoose : choosePath pkCol.name indexes whereClause with ⟨path, residual⟩
    rw [hchoose] at hplan
    have hpath : plan.path = path := by
      simp only at hplan
      split at hplan
      · split at hplan
        · obtain ⟨_, -, hplan⟩ := Outcome.bind_eq_ok.mp hplan
          cases hplan
          rfl
        · cases hplan
      · obtain ⟨_, -, hplan⟩ := Outcome.bind_eq_ok.mp hplan
        cases hplan
        rfl
    rw [hpath]
    cases path with
    | tableSeek v => exact (views_tableSeek h ho _).peeks
    | indexSeek idx v =>
        obtain ⟨o', m', ho'⟩ := hindexes idx (choosePath_mem hchoose)
        exact peeks_indexSeek h ho ho' _
    | seqScan => exact (views_seqScan h ho).peeks
  exact Peeks.seq hpath fun rows => peeks_pure _

end Reading

/-! ## Resolving subqueries -/

section Resolving

variable {f : Forest} {lib : Library} {execute : Statement → DbProg DbError ExecResult}

mutual

theorem peeks_resolve : (e : Expr) → (∀ stmt ∈ subqueries e, Peeks f (execute stmt)) →
    Peeks f (resolveSubqueriesInExpr lib execute e)
  | .inSubquery expr subquery negated, h => by
      have hexpr := peeks_resolve expr fun stmt hmem => h stmt (List.mem_append_left _ hmem)
      refine Peeks.seq hexpr fun _ => Peeks.seq (h subquery ?_) fun _ => peeks_pure _
      exact List.mem_append_right _ List.mem_cons_self
  | .exists subquery negated, h =>
      Peeks.seq (h subquery List.mem_cons_self) fun _ => peeks_pure _
  | .binaryOp op left right, h => by
      have hleft := peeks_resolve left fun stmt hmem => h stmt (List.mem_append_left _ hmem)
      have hright := peeks_resolve right fun stmt hmem => h stmt (List.mem_append_right _ hmem)
      exact Peeks.seq hleft fun _ => Peeks.seq hright fun _ => peeks_pure _
  | .vectorDistance metric left right, h => by
      have hleft := peeks_resolve left fun stmt hmem => h stmt (List.mem_append_left _ hmem)
      have hright := peeks_resolve right fun stmt hmem => h stmt (List.mem_append_right _ hmem)
      exact Peeks.seq hleft fun _ => Peeks.seq hright fun _ => peeks_pure _
  | .inList expr list negated, h => by
      have hexpr := peeks_resolve expr fun stmt hmem => h stmt (List.mem_append_left _ hmem)
      have hlist := peeks_resolveList list fun stmt hmem => h stmt (List.mem_append_right _ hmem)
      exact Peeks.seq hexpr fun _ => Peeks.seq hlist fun _ => peeks_pure _
  | .isNull expr _, h => Peeks.seq (peeks_resolve expr h) fun _ => peeks_pure _
  | .like expr _ _, h => Peeks.seq (peeks_resolve expr h) fun _ => peeks_pure _
  | .jsonExtract expr _ _, h => Peeks.seq (peeks_resolve expr h) fun _ => peeks_pure _
  | .ftsMatch expr _, h => Peeks.seq (peeks_resolve expr h) fun _ => peeks_pure _
  | .ftsRank expr _, h => Peeks.seq (peeks_resolve expr h) fun _ => peeks_pure _
  | .ftsSnippet expr _, h => Peeks.seq (peeks_resolve expr h) fun _ => peeks_pure _
  | .column _, _ | .qualifiedColumn _ _, _ | .intLiteral _, _ | .floatLiteral _, _
  | .stringLiteral _, _ | .boolLiteral _, _ | .null, _ | .aggregate _, _ | .authUid, _ =>
      peeks_pure _

theorem peeks_resolveList : (list : List Expr) →
    (∀ stmt ∈ subqueriesInList list, Peeks f (execute stmt)) →
    Peeks f (resolveSubqueriesInList lib execute list)
  | [], _ => peeks_pure _
  | item :: list, h => by
      have hitem := peeks_resolve item fun stmt hmem => h stmt (List.mem_append_left _ hmem)
      have hlist := peeks_resolveList list fun stmt hmem => h stmt (List.mem_append_right _ hmem)
      exact Peeks.seq hitem fun _ => Peeks.seq hlist fun _ => peeks_pure _

end

theorem peeks_resolveWhere {whereClause : Option Expr}
    (h : ∀ w ∈ whereClause, ∀ stmt ∈ subqueries w, Peeks f (execute stmt)) :
    Peeks f (resolveWhere lib execute whereClause) := by
  cases whereClause with
  | none => exact peeks_pure _
  | some w => exact Peeks.seq (peeks_resolve w (h w rfl)) fun _ => peeks_pure _

end Resolving

/-! ## Queries -/

section Queries

variable {f : Forest} {cat : OrdMap Bytes Bytes} {lay : Layout} {lib : Library}
  {ctx : ExecutionContext}

theorem asking_and {left right : Expr} {op : BinOp} (hleft : Asking (some left))
    (hright : Asking (some right)) : Asking (some (.binaryOp op left right)) := by
  rintro w hw stmt hstmt
  cases hw
  exact (List.mem_append.mp hstmt).elim (hleft left rfl stmt) (hright right rfl stmt)

theorem asking_none : Asking none := fun _ hw => by cases hw

theorem asking_combineUsing {policies : List PolicySchema}
    (h : ∀ policy ∈ policies, Asking policy.usingExpr) : Asking (combineUsing policies) := by
  unfold combineUsing
  have hcombined := asking_none
  revert hcombined
  generalize (none : Option Expr) = combined
  induction policies generalizing combined with
  | nil => exact id
  | cons policy rest ih =>
      intro hcombined
      refine ih (fun policy hmem => h policy (List.mem_cons_of_mem _ hmem)) _ ?_
      have hpolicy := h policy List.mem_cons_self
      beta_reduce
      generalize policy.usingExpr = check at hpolicy
      cases check with
      | none => exact hcombined
      | some check =>
          cases combined with
          | none => exact hpolicy
          | some prev => exact asking_and hcombined hpolicy

theorem asking_addPolicies {matching : List PolicySchema} {userWhere : Option Expr}
    (h : Asking userWhere) (hall : ∀ policy ∈ matching, Asking policy.usingExpr) :
    Asking (addPolicies matching userWhere) := by
  have hcombined := asking_combineUsing hall
  unfold addPolicies
  split
  · rintro w hw stmt hstmt
    cases hw
    cases hstmt
  · generalize combineUsing matching = combined at hcombined
    cases userWhere with
    | none =>
        cases combined with
        | none => exact asking_none
        | some p => exact hcombined
    | some w =>
        cases combined with
        | none => exact h
        | some p => exact asking_and h hcombined

theorem views_applyRlsFilter (h : Sound lib ∅ f cat lay) (hplain : Unforced lib cat ctx)
    (table : String) (cmd : PolicyCmd) {userWhere : Option Expr} (hwhere : Asking userWhere) :
    Views f (applyRlsFilter lib ctx table cmd userWhere) Asking fun _ => True := by
  refine Views.seq ((h.views_getTable table).mono (fun _ h => h) fun _ h => h.elim) ?_
  rintro found (⟨-, rfl⟩ | ⟨schema, -, -, rfl⟩)
  · exact views_pure hwhere
  · change Views f (if _ then _ else _) _ _
    split
    · exact views_pure hwhere
    · next hforced =>
        have hadmin : ctx.isAdmin = false := by
          simp only [Bool.or_eq_true, not_or, Bool.not_eq_true] at hforced
          exact hforced.2
        refine Views.seq (h.views_listPolicies table) fun policies hlists => ?_
        refine views_pure (asking_addPolicies hwhere fun policy hmem => ?_)
        have hpolicy := (hlists policy).mp (List.mem_filter.mp hmem).1
        exact hplain hadmin policy hpolicy.1

theorem peeks_planned {α : Type} (x : Outcome PlanError α) : Peeks f (planned x) := peeks_ofOutcome _

theorem peeks_collectRows (rows : Rows) : Peeks f (collectRows rows) := peeks_ofOutcome _

theorem peeks_finishGrouped {isJoin : Bool} {schema : TableSchema} {args : SelectArgs}
    {read : DbProg ExecError Rows} (hread : Peeks f read) :
    Peeks f (finishGrouped lib ctx isJoin schema args read) :=
  Peeks.seq (peeks_planned _) fun _ => Peeks.seq (hread.mapError _) fun _ =>
    Peeks.seq (peeks_collectRows _) fun _ => peeks_pure _

theorem scans_table (h : Sound lib ∅ f cat lay) {schema : TableSchema} (ht : IsTable cat schema) :
    ∃ m, lay (.record (tableKey schema.name)) = some (schema.rootPage, m) ∧
      Views f (seqScan schema) (fun rows => rows = storedRows schema m) fun _ => False := by
  obtain ⟨m, hlay⟩ := h.tree ht (Set.notMem_empty _)
  exact ⟨m, hlay, views_seqScan h.toHoused hlay⟩

/-- The plan of a join reads tables that are there. -/
theorem views_buildTableRefPlan (h : Sound lib ∅ f cat lay) : (tableRef : TableRef) →
    Views f (buildTableRefPlan lib tableRef) (fun plan => Peeks f plan.1) fun _ => True
  | .table name asName => by
      refine Views.seq (Views.mapError ((h.views_getTable name).mono (fun _ h => h) fun _ h => h.elim)
        fun _ (h : False) => h.elim) ?_
      rintro found (⟨-, rfl⟩ | ⟨schema, -, ht, rfl⟩)
      · exact views_throw trivial
      · obtain ⟨m, -, hscan⟩ := scans_table h ht
        exact views_pure hscan.peeks
  | .join left right joinType condition => by
      refine Views.seq (views_buildTableRefPlan h left) ?_
      rintro ⟨leftPlan, leftSchema⟩ hleft
      refine Views.seq (views_buildTableRefPlan h right) ?_
      rintro ⟨rightPlan, rightSchema⟩ hright
      exact views_pure (Peeks.seq hright fun _ => Peeks.seq hleft fun _ => peeks_pure _)

theorem peeks_selectJoin (h : Sound lib ∅ f cat lay) (tableRef : TableRef) (args : SelectArgs) :
    Peeks f (selectJoin lib ctx tableRef args) := by
  refine Views.seq (Views.mapError (views_buildTableRefPlan h tableRef) fun _ _ => trivial) ?_
  rintro ⟨read, schema⟩ hread
  have hinput : Peeks f (read.mapError DbError.exec) := Peeks.mapError hread _
  have hrest : ∀ {names : List String} (sortKey : Outcome PlanError (Option (Nat × Bool)))
      (finish : Option (Nat × Bool) → Rows → Rows), Peeks f (do
        let planSort ← planned sortKey
        let input ← read.mapError DbError.exec
        let rows ← collectRows (finish planSort input)
        return ExecResult.rows names rows) := fun _ _ =>
    Peeks.seq (peeks_planned _) fun _ => Peeks.seq hinput fun _ =>
      Peeks.seq (peeks_collectRows _) fun _ => peeks_pure _
  refine views_ite (fun _ => peeks_finishGrouped hread) fun _ => ?_
  cases args.columns with
  | items items => exact hrest _ _
  | list names => exact Peeks.seq (peeks_planned _) fun _ => hrest _ _
  | all => exact hrest _ _

/-- Reading a table by a plan, whatever the condition. -/
theorem peeks_plan (h : Sound lib ∅ f cat lay) {schema : TableSchema} (ht : IsTable cat schema)
    {indexes : List IndexSchema} (hlists : Lists cat schema.name indexes) {whereClause : Option Expr}
    {indices : List Nat} {orderBy : Option (String × Bool)} {limitRows : Option Int64} {α : Type}
    {finish : Rows → DbProg DbError α} (hfinish : ∀ rows, Peeks f (finish rows)) :
    Peeks f (do
      let plan ← planned (buildSelectPlanWithContext lib schema indexes whereClause indices orderBy
        limitRows ctx)
      let input ← (plan.read schema).mapError DbError.exec
      finish input) := by
  obtain ⟨m, hlay⟩ := h.tree ht (Set.notMem_empty _)
  refine Views.seq (views_ofOutcome fun _ _ => trivial) fun plan hplan => ?_
  refine Peeks.seq (Peeks.mapError (peeks_read h.toHoused hlay (fun idx hmem => ?_)
    (Outcome.mapError_eq_ok.mp hplan)) _) hfinish
  obtain ⟨m', hlay'⟩ := h.indexTree ((hlists.mem idx).mp hmem).1 (Set.notMem_empty _)
  exact ⟨_, m', hlay'⟩

theorem peeks_selectTable (h : Sound lib ∅ f cat lay) (table : String) (args : SelectArgs) :
    Peeks f (selectTable lib ctx table args) := by
  refine Views.seq ((h.views_requireTable table).mono (fun _ h => h) fun _ _ => trivial) ?_
  rintro schema ⟨rfl, ht⟩
  refine Views.seq (h.views_listIndexes schema.name) fun indexes hlists => ?_
  obtain ⟨m, -, hscan⟩ := scans_table h ht
  refine views_ite (fun _ => peeks_finishGrouped hscan.peeks) fun _ => ?_
  have hfinish : ∀ names rows, Peeks f (do
      let rows ← collectRows rows
      return ExecResult.rows names rows) := fun _ _ =>
    Peeks.seq (peeks_collectRows _) fun _ => peeks_pure _
  cases args.columns with
  | items items => exact peeks_plan h ht hlists fun _ => hfinish _ _
  | list names =>
      exact Peeks.seq (peeks_planned _) fun _ => peeks_plan h ht hlists fun _ => hfinish _ _
  | all => exact peeks_plan h ht hlists fun _ => hfinish _ _

theorem peeks_executeSelect (h : Sound lib ∅ f cat lay) (hplain : Unforced lib cat ctx)
    {execute : Statement → DbProg DbError ExecResult}
    (hexecute : ∀ stmt, Query stmt → Peeks f (execute stmt)) (table : String)
    (tableRef : Option TableRef) {args : SelectArgs} (hwhere : Asking args.whereClause) :
    Peeks f (executeSelect lib ctx execute table tableRef args) := by
  unfold executeSelect
  split
  · refine Peeks.seq (peeks_resolveWhere fun w hw stmt hmem => hexecute _ (hwhere w hw stmt hmem)) ?_
    exact fun _ => peeks_selectJoin h _ _
  · refine Views.seq (views_applyRlsFilter h hplain table .select hwhere) fun whereClause hasking => ?_
    refine Peeks.seq (peeks_resolveWhere fun w hw stmt hmem => hexecute _ (hasking w hw stmt hmem)) ?_
    exact fun _ => peeks_selectTable h _ _

/-- Subqueries of subqueries, as deep as the fuel lasts. -/
theorem Query.peeks (h : Sound lib ∅ f cat lay) (hplain : Unforced lib cat ctx) {fuel : Nat}
    {stmt : Statement} (hquery : Query stmt) : Peeks f (executeStatement lib ctx fuel stmt) := by
  induction fuel generalizing stmt with
  | zero => trivial
  | succ fuel ih =>
      cases hquery with
      | select inner => exact peeks_executeSelect h hplain (fun stmt hstmt => ih hstmt) _ _ inner

theorem peeks_explain (h : Sound lib ∅ f cat lay) (stmt : Statement) :
    Peeks f (explainStatement lib stmt) := by
  cases stmt with
  | select columns table tableRef whereClause groupBy having orderBy limitRows =>
      unfold explainStatement explainSelect
      refine views_ite (fun _ => peeks_pure _) fun _ => ?_
      refine Views.seq ((h.views_getTable table).mono (fun _ h => h) fun _ h => h.elim) ?_
      rintro found (⟨-, rfl⟩ | ⟨schema, -, -, rfl⟩)
      · exact peeks_pure _
      · refine Views.seq (h.views_listIndexes table) fun indexes _ => ?_
        exact Peeks.seq (peeks_unwrap _) fun _ => Peeks.seq (peeks_unwrap _) fun _ => peeks_pure _
  | _ => exact peeks_pure _

end Queries

end ChocoBase.Engine
