import ChocoBase.Engine.Permissive
import ChocoBase.Engine.Reading
import ChocoBase.Foundation.Nesting

/-!
# Expanding policies

A query runs the subqueries of its condition first, those of the policies included, and
each of them is a query with policies again.  The expansion ends exactly if the tree of
queries that it reaches is bounded.
-/

namespace ChocoBase.Engine

open ChocoBase.Foundation ChocoBase.Storage ChocoBase.Sql ChocoBase.Types ChocoBase.Auth
  ChocoBase.Catalog ChocoBase.Plan

open Outcome (sequence_congr sequence_append length_of_sequence)

/-! ## Subqueries run first -/

section Resolving

variable (w : World) {α β γ : Type}

/-- The program runs the queries one after another and makes a value of their results. -/
def Fills (x : (Statement → DbProg DbError ExecResult) → DbProg DbError α)
    (queries : List Statement) : Prop :=
  ∃ fill : List ExecResult → α, ∀ execute,
    w.outcome (x execute) = (Outcome.sequence (fun query => w.outcome (execute query)) queries).bind
      fun results => .ok (fill results)

variable {w} {x : (Statement → DbProg DbError ExecResult) → DbProg DbError α}
  {y : (Statement → DbProg DbError ExecResult) → DbProg DbError β} {queries queries' : List Statement}

theorem fills_pure (a : α) : Fills w (fun _ => pure a) [] := ⟨fun _ => a, fun _ => rfl⟩

theorem fills_query (query : Statement) (k : ExecResult → α) (a : α) :
    Fills w (fun execute => do let res ← execute query; return k res) [query] := by
  refine ⟨fun results => results.head?.elim a k, fun execute => ?_⟩
  simp only [World.outcome_bind, World.outcome_pure, Outcome.sequence]
  cases w.outcome (execute query) <;> rfl

theorem Fills.map (hx : Fills w x queries) (k : α → β) :
    Fills w (fun execute => do let a ← x execute; return k a) queries := by
  obtain ⟨fill, hfill⟩ := hx
  refine ⟨fun results => k (fill results), fun execute => ?_⟩
  simp only [World.outcome_bind, hfill, World.outcome_pure]
  cases Outcome.sequence (fun query => w.outcome (execute query)) queries <;> rfl

theorem Fills.seq (hx : Fills w x queries) (hy : Fills w y queries') (k : α → β → γ) :
    Fills w (fun execute => do let a ← x execute; let b ← y execute; return k a b)
      (queries ++ queries') := by
  obtain ⟨fill, hfill⟩ := hx
  obtain ⟨fill', hfill'⟩ := hy
  refine ⟨fun results => k (fill (results.take queries.length))
    (fill' (results.drop queries.length)), fun execute => ?_⟩
  simp only [World.outcome_bind, hfill, hfill', World.outcome_pure, sequence_append]
  cases hresults : Outcome.sequence (fun query => w.outcome (execute query)) queries with
  | ok results =>
      have hlen := length_of_sequence hresults
      cases Outcome.sequence (fun query => w.outcome (execute query)) queries' with
      | ok results' => simp [Outcome.bind, ← hlen]
      | error reason => rfl
      | stop why => rfl
  | error reason => rfl
  | stop why => rfl

variable {lib : Library}

mutual

theorem fills_resolve : (e : Expr) →
    Fills w (fun execute => resolveSubqueriesInExpr lib execute e) (subqueries e)
  | .inSubquery expr subquery negated => by
      have hquery : Fills w (fun execute => do
          let res ← execute subquery
          return firstLiterals lib res) [subquery] := fills_query subquery (firstLiterals lib) []
      have h := (fills_resolve expr).seq hquery fun e list => Expr.inList e list negated
      refine h.imp fun fill hfill execute => Eq.trans ?_ (hfill execute)
      simp only [resolveSubqueriesInExpr, World.outcome_bind, World.outcome_pure]
      cases w.outcome (resolveSubqueriesInExpr lib execute expr) with
      | ok e => cases w.outcome (execute subquery) <;> rfl
      | error reason => rfl
      | stop why => rfl
  | .exists subquery negated =>
      fills_query subquery (fun res => Expr.boolLiteral (hasRows res != negated)) Expr.null
  | .binaryOp op left right =>
      (fills_resolve left).seq (fills_resolve right) fun left right => Expr.binaryOp op left right
  | .vectorDistance metric left right =>
      (fills_resolve left).seq (fills_resolve right) fun left right =>
        Expr.vectorDistance metric left right
  | .inList expr list negated =>
      (fills_resolve expr).seq (fills_resolveList list) fun expr list => Expr.inList expr list negated
  | .isNull expr negated => (fills_resolve expr).map fun expr => Expr.isNull expr negated
  | .like expr pattern negated => (fills_resolve expr).map fun expr => Expr.like expr pattern negated
  | .jsonExtract expr path asText =>
      (fills_resolve expr).map fun expr => Expr.jsonExtract expr path asText
  | .ftsMatch expr query => (fills_resolve expr).map fun expr => Expr.ftsMatch expr query
  | .ftsRank expr query => (fills_resolve expr).map fun expr => Expr.ftsRank expr query
  | .ftsSnippet expr query => (fills_resolve expr).map fun expr => Expr.ftsSnippet expr query
  | .column name => fills_pure (Expr.column name)
  | .qualifiedColumn table column => fills_pure (Expr.qualifiedColumn table column)
  | .intLiteral n => fills_pure (Expr.intLiteral n)
  | .floatLiteral x => fills_pure (Expr.floatLiteral x)
  | .stringLiteral s => fills_pure (Expr.stringLiteral s)
  | .boolLiteral b => fills_pure (Expr.boolLiteral b)
  | .null => fills_pure Expr.null
  | .aggregate func => fills_pure (Expr.aggregate func)
  | .authUid => fills_pure Expr.authUid

theorem fills_resolveList : (list : List Expr) →
    Fills w (fun execute => resolveSubqueriesInList lib execute list) (subqueriesInList list)
  | [] => fills_pure []
  | item :: list =>
      (fills_resolve item).seq (fills_resolveList list) fun item list => item :: list

end

theorem fills_resolveWhere (clause : Option Expr) :
    Fills w (fun execute => resolveWhere lib execute clause) (clause.elim [] subqueries) := by
  cases clause with
  | none => exact fills_pure none
  | some e => exact (fills_resolve e).map some

end Resolving

/-! ## Queries to a depth -/

section Depth

variable (lib : Library) (ctx : ExecutionContext) (w : World)

/-- `executeStatement` on queries; what is nested deeper is left to `below`. -/
def queryDown (below : Statement → DbProg DbError ExecResult) :
    Nat → Statement → DbProg DbError ExecResult
  | 0, stmt => below stmt
  | depth + 1, .select columns table tableRef whereClause groupBy having orderBy limit =>
      executeSelect lib ctx (queryDown below depth) table tableRef
        { columns, whereClause, groupBy, having, orderBy, limit }
  | _ + 1, _ => .halt .misuse

/-- The queries that a query runs for its condition, in order. -/
def nestedQueries : Statement → List Statement
  | .select _ table tableRef whereClause _ _ _ _ =>
      match tableRef with
      | some (.join ..) => whereClause.elim [] subqueries
      | _ =>
          match w.outcome (applyRlsFilter lib ctx table .select whereClause) with
          | .ok clause => clause.elim [] subqueries
          | _ => []
  | _ => []

theorem executeSelect_alone (table : String) (tableRef : Option TableRef) (args : SelectArgs)
    (hselect : ∀ execute, executeSelect lib ctx execute table tableRef args = do
      let whereClause ← applyRlsFilter lib ctx table .select args.whereClause
      let whereClause ← resolveWhere lib execute whereClause
      selectTable lib ctx table { args with whereClause }) :
    ∃ finish : List ExecResult → Outcome DbError ExecResult, ∀ execute,
      w.outcome (executeSelect lib ctx execute table tableRef args) =
        (Outcome.sequence (fun query => w.outcome (execute query))
          (match w.outcome (applyRlsFilter lib ctx table .select args.whereClause) with
            | .ok clause => clause.elim [] subqueries
            | _ => [])).bind finish := by
  cases hclause : w.outcome (applyRlsFilter lib ctx table .select args.whereClause) with
  | ok clause =>
      have hfills : Fills w (fun execute => resolveWhere lib execute clause) _ :=
        fills_resolveWhere clause
      obtain ⟨fill, hfill⟩ := hfills
      refine ⟨fun results => w.outcome (selectTable lib ctx table
        { args with whereClause := fill results }), fun execute => ?_⟩
      rw [hselect]
      rw [World.outcome_bind, hclause, Outcome.bind, World.outcome_bind, hfill, Outcome.bind_assoc]
      rfl
  | error reason =>
      refine ⟨fun _ => .error reason, fun execute => ?_⟩
      rw [hselect, World.outcome_bind, hclause]
      rfl
  | stop why =>
      refine ⟨fun _ => .stop why, fun execute => ?_⟩
      rw [hselect, World.outcome_bind, hclause]
      rfl

theorem executeSelect_nested (table : String) (tableRef : Option TableRef) (args : SelectArgs) :
    ∃ finish : List ExecResult → Outcome DbError ExecResult, ∀ execute,
      w.outcome (executeSelect lib ctx execute table tableRef args) =
        (Outcome.sequence (fun query => w.outcome (execute query))
          (nestedQueries lib ctx w (.select args.columns table tableRef args.whereClause args.groupBy
            args.having args.orderBy args.limit))).bind finish := by
  rcases tableRef with _ | ⟨name, asName⟩ | ⟨left, right, joinType, condition⟩
  · exact executeSelect_alone lib ctx w table none args fun _ => rfl
  · exact executeSelect_alone lib ctx w table (some (.table name asName)) args fun _ => rfl
  · have hfills : Fills w (fun execute => resolveWhere lib execute args.whereClause) _ :=
      fills_resolveWhere args.whereClause
    obtain ⟨fill, hfill⟩ := hfills
    refine ⟨fun results => w.outcome (selectJoin lib ctx (.join left right joinType condition)
      { args with whereClause := fill results }), fun execute => ?_⟩
    rw [executeSelect, World.outcome_bind, hfill, Outcome.bind_assoc]
    rfl

/-- The runs of queries to a depth, by what comes out of them. -/
def runDown (below : Statement → Outcome DbError ExecResult) (depth : Nat) (stmt : Statement) :
    Outcome DbError ExecResult :=
  w.outcome (queryDown lib ctx (fun stmt => .ofOutcome (below stmt)) depth stmt)

theorem nested_runDown : Nested (runDown lib ctx w) (nestedQueries lib ctx w) where
  zero below stmt := World.outcome_ofOutcome w (below stmt)
  succ stmt := by
    cases stmt with
    | select columns table tableRef whereClause groupBy having orderBy limit =>
        obtain ⟨finish, hfinish⟩ := executeSelect_nested lib ctx w table tableRef
          { columns, whereClause, groupBy, having, orderBy, limit }
        exact ⟨finish, fun below depth => hfinish _⟩
    | _ => exact ⟨fun _ => .stop .misuse, fun _ _ => rfl⟩

theorem outcome_queryDown (below : Statement → DbProg DbError ExecResult) (depth : Nat)
    (stmt : Statement) : w.outcome (queryDown lib ctx below depth stmt) =
      runDown lib ctx w (fun stmt => w.outcome (below stmt)) depth stmt := by
  induction depth generalizing stmt with
  | zero => exact (World.outcome_ofOutcome w _).symm
  | succ depth ih =>
      cases stmt with
      | select columns table tableRef whereClause groupBy having orderBy limit =>
          obtain ⟨finish, hfinish⟩ := executeSelect_nested lib ctx w table tableRef
            { columns, whereClause, groupBy, having, orderBy, limit }
          refine (hfinish _).trans (Eq.trans ?_ (hfinish _).symm)
          exact congrArg (Outcome.bind · finish) (sequence_congr fun query _ => ih query)
      | _ => rfl

/-- The policies of the catalog ask for nothing but queries. -/
def PoliciesAsk : Prop :=
  ∀ policies, w.outcome (listRecords kindPolicy (decodePolicyRecord lib)) = .ok policies →
    ∀ policy ∈ policies, Asking policy.usingExpr

variable {lib ctx w}

theorem asking_applyRlsFilter (hpolicies : PoliciesAsk lib w) {table : String} {cmd : PolicyCmd}
    {userWhere clause : Option Expr} (hwhere : Asking userWhere)
    (h : w.outcome (applyRlsFilter lib ctx table cmd userWhere) = .ok clause) : Asking clause := by
  obtain ⟨found, -, h⟩ := (World.outcome_bind_ok w).mp h
  cases found with
  | none =>
      cases h
      exact hwhere
  | some schema =>
      simp only at h
      split at h
      · cases h
        exact hwhere
      · obtain ⟨policies, hlist, h⟩ := (World.outcome_bind_ok w).mp h
        cases h
        refine asking_addPolicies hwhere fun policy hmem => ?_
        obtain ⟨all, hall, hlist⟩ := (World.outcome_bind_ok w).mp hlist
        cases hlist
        exact hpolicies all hall policy (List.mem_of_mem_filter (List.mem_of_mem_filter hmem))

theorem Query.nested (hpolicies : PoliciesAsk lib w) {stmt : Statement} (hquery : Query stmt) :
    ∀ query ∈ nestedQueries lib ctx w stmt, Query query := by
  have hasked {clause : Option Expr} (hclause : Asking clause) :
      ∀ query ∈ clause.elim [] subqueries, Query query := by
    cases clause with
    | none => exact fun _ h => by cases h
    | some e => exact hclause e rfl
  cases hquery with
  | @select columns table tableRef whereClause groupBy having orderBy limit inner =>
      have halone : ∀ query ∈ (match w.outcome (applyRlsFilter lib ctx table .select whereClause) with
          | .ok clause => clause.elim [] subqueries
          | _ => []), Query query := by
        cases hclause : w.outcome (applyRlsFilter lib ctx table .select whereClause) with
        | ok clause => exact hasked (asking_applyRlsFilter hpolicies inner hclause)
        | error reason => exact fun _ h => by cases h
        | stop why => exact fun _ h => by cases h
      rcases tableRef with _ | ⟨name, asName⟩ | ⟨left, right, joinType, condition⟩
      · exact halone
      · exact halone
      · exact hasked inner

theorem outcome_executeStatement (hpolicies : PoliciesAsk lib w) (fuel : Nat) {stmt : Statement}
    (hquery : Query stmt) : w.outcome (executeStatement lib ctx fuel stmt) =
      runDown lib ctx w (fun _ => .stop .diverges) fuel stmt := by
  induction fuel generalizing stmt with
  | zero => rfl
  | succ fuel ih =>
      have hinner : ∀ query ∈ nestedQueries lib ctx w stmt, Query query := hquery.nested hpolicies
      cases hquery with
      | @select columns table tableRef whereClause groupBy having orderBy limit _ =>
          obtain ⟨finish, hfinish⟩ := executeSelect_nested lib ctx w table tableRef
            { columns, whereClause, groupBy, having, orderBy, limit }
          refine (hfinish _).trans (Eq.trans ?_ (hfinish _).symm)
          exact congrArg (Outcome.bind · finish) (sequence_congr fun query hmem =>
            ih (hinner query hmem))

/--
From some depth on nothing below is run, exactly if the tree of queries that the query
reaches is bounded; otherwise the run gets deeper than any number of nestings.
-/
theorem ends_iff_bounded (hpolicies : PoliciesAsk lib w) {stmt : Statement} (hquery : Query stmt) :
    ((∃ depth result, ∀ fuel, depth ≤ fuel →
        w.outcome (executeStatement lib ctx fuel stmt) = result ∧
          ∀ below, w.outcome (queryDown lib ctx below fuel stmt) = result) ↔
      Bounded (runDown lib ctx w) (nestedQueries lib ctx w) stmt) ∧
    (¬Bounded (runDown lib ctx w) (nestedQueries lib ctx w) stmt →
      ∀ fuel, w.outcome (executeStatement lib ctx fuel stmt) = .stop .diverges) := by
  have hnested := nested_runDown lib ctx w
  constructor
  · rw [← hnested.ends_iff]
    constructor
    · rintro ⟨depth, result, h⟩
      refine ⟨result, depth, fun below => ?_⟩
      rw [← (h depth (Nat.le_refl depth)).2 fun stmt => .ofOutcome (below stmt), runDown]
    · rintro ⟨result, depth, h⟩
      refine ⟨depth, result, fun fuel hle => ⟨?_, fun below => ?_⟩⟩
      · rw [outcome_executeStatement hpolicies fuel hquery]
        exact hnested.mono hle h _
      · rw [outcome_queryDown]
        exact hnested.mono hle h _
  · intro h fuel
    rw [outcome_executeStatement hpolicies fuel hquery]
    exact hnested.stops_of_not_bounded h .diverges fuel

end Depth

/-! ## Notes with a policy about notes -/

/-- `SELECT id FROM notes` -/
def selectIds : Statement :=
  .select (.items [.expr (.column "id") none]) "notes" (some (.table "notes" none)) none none none
    none none

/-- `id IN (SELECT id FROM notes)` -/
def idIsNote : Expr := .inSubquery (.column "id") selectIds false

def idIsNoteText : String :=
  "\x7b\"InSubquery\":\x7b\"expr\":\x7b\"Column\":\"id\"\x7d,\"subquery\":\x7b\"Select\":\x7b" ++
  "\"columns\":\x7b\"Items\":[\x7b\"Expr\":\x7b\"expr\":\x7b\"Column\":\"id\"\x7d,\"alias\":null\x7d\x7d]\x7d," ++
  "\"table\":\"notes\",\"table_ref\":\x7b\"Table\":\x7b\"name\":\"notes\",\"alias\":null\x7d\x7d," ++
  "\"where_clause\":null,\"group_by\":null,\"having\":null,\"order_by\":null,\"limit\":null\x7d\x7d," ++
  "\"negated\":false\x7d\x7d"

def isIdIsNote : Expr → Bool
  | .inSubquery (.column "id") (.select (.items [.expr (.column "id") none]) "notes"
      (some (.table "notes" none)) none none none none none) false => true
  | _ => false

theorem eq_of_isIdIsNote {e : Expr} (h : isIdIsNote e = true) : e = idIsNote := by
  unfold isIdIsNote at h
  split at h
  · rfl
  · cases h

/-- The condition of the policy below as JSON. -/
def noteLibrary : Library := { plainLibrary with
  exprText := fun
    | none => some "null"
    | some e => if isIdIsNote e then some idIsNoteText else none
  parseExpr := fun s =>
    if s = "null" then some none else if s = idIsNoteText then some (some idIsNote) else none }

def linkedNotes : Database :=
  Database.runAll noteLibrary plainEnvironment
    [.createTable "notes" [⟨"id", .integer, true, true⟩, ⟨"owner", .integer, false, false⟩],
      .alterTableRls "notes" true, .createPolicy "linked" "notes" .select (some idIsNote) none]
    (Database.created plainEnvironment).2.sorting

def linked : PolicySchema := ⟨"linked", "notes", .select, some idIsNote, none⟩

/-- What is read of the catalog before a query on notes runs its subqueries, `n` times. -/
def readNotes : Nat → DbProg DbError Bool
  | 0 => pure true
  | n + 1 => do
      let schema ← getTable "notes"
      let root ← ask fromPager .root
      let scanned ← ask DbError.btree (.scan root)
      let rest ← readNotes n
      return schema = some notesSchema && holdsLinked scanned && rest
where
  /-- The policy above is the only one. -/
  holdsLinked (scanned : Scanned) : Bool :=
    (scanned.entries.all fun e => (recordKind e.2).isSome) &&
      ((scanned.entries.map Prod.snd).filter fun payload => recordKind payload = some kindPolicy) =
        [encodePolicyRecord noteLibrary linked] &&
      scanned.ending matches .ok ()

theorem decode_linked :
    decodePolicyRecord noteLibrary (encodePolicyRecord noteLibrary linked) = some linked := by
  have hsmall : (encodePolicyRecord noteLibrary linked).length < 2 ^ 16 ∧
      idIsNoteText ≠ "null" := by decide +kernel
  rw [decode_encodePolicy hsmall.1]
  simp [storedPolicy, storedExpr, linked, noteLibrary, isIdIsNote, idIsNote, selectIds, hsmall.2]

theorem decodeKind_linked {entries : List (Bytes × Bytes)}
    (hkinds : ∀ e ∈ entries, (recordKind e.2).isSome = true) {payloads : List Bytes}
    (hpayloads : ((entries.map Prod.snd).filter fun payload =>
      recordKind payload = some kindPolicy) = payloads)
    {policies : List PolicySchema} (hdecode : List.Forall₂ (fun payload policy =>
      decodePolicyRecord noteLibrary payload = some policy) payloads policies) :
    decodeKind kindPolicy (decodePolicyRecord noteLibrary) entries = .ok policies := by
  induction entries generalizing payloads policies with
  | nil =>
      subst hpayloads
      cases hdecode
      rfl
  | cons e entries ih =>
      obtain ⟨kind, hkind⟩ := Option.isSome_iff_exists.mp (hkinds e List.mem_cons_self)
      have ih := @ih fun e he => hkinds e (List.mem_cons_of_mem _ he)
      rw [decodeKind, hkind]
      by_cases hpolicy : kind = kindPolicy
      · subst hpolicy
        rw [List.map_cons, List.filter_cons_of_pos (by simp [hkind])] at hpayloads
        subst hpayloads
        cases hdecode with
        | cons hfirst hrest =>
            simp only [Outcome.unwrap, Outcome.bind, if_pos, hfirst, ih rfl hrest]
      · rw [List.map_cons, List.filter_cons_of_neg (by simp [hkind, hpolicy])] at hpayloads
        simp only [Outcome.unwrap, Outcome.bind, if_neg hpolicy, ih hpayloads hdecode]

theorem run_listLinked {σ : Type} {H : Handler dbRequests σ} {s s₁ s₂ : σ} {root : PageNo}
    {scanned : Scanned} (hroot : (ask fromPager .root).run H s = (.ok root, s₁))
    (hscan : (ask DbError.btree (.scan root)).run H s₁ = (.ok scanned, s₂))
    (h : readNotes.holdsLinked scanned = true) :
    (listRecords kindPolicy (decodePolicyRecord noteLibrary)).run H s = (.ok [linked], s₂) := by
  simp only [readNotes.holdsLinked, Bool.and_eq_true, List.all_eq_true, decide_eq_true_eq] at h
  have hdecode := decodeKind_linked h.1.1 h.1.2 (.cons decode_linked .nil)
  obtain ⟨entries, ending⟩ := scanned
  cases ending with
  | ok =>
      refine (Prog.run_bind_ok hroot).trans ((Prog.run_bind_ok hscan).trans ?_)
      simp only [hdecode]
      rfl
  | error reason => cases h.2
  | stop why => cases h.2

/-- One round of reading leads to the subquery, which is the query again. -/
theorem stops_of_readNotes (n : Nat) : ∀ d : Database,
    ((readNotes n).run (Database.answer plainEnvironment) d).1 = .ok true →
    (Database.execute noteLibrary .anonymous plainEnvironment n selectIds d).1 =
      .stop .diverges := by
  induction n with
  | zero => exact fun _ _ => rfl
  | succ n ih =>
      intro d hread
      obtain ⟨d', hread⟩ : ∃ d', (readNotes (n + 1)).run (Database.answer plainEnvironment) d =
          (.ok true, d') := ⟨_, Prod.ext hread rfl⟩
      obtain ⟨schema, d₁, hschema, hread, -⟩ := Prog.exists_of_bind_ok hread
      obtain ⟨root, d₂, hroot, hread, -⟩ := Prog.exists_of_bind_ok hread
      obtain ⟨scanned, d₃, hscan, hread, -⟩ := Prog.exists_of_bind_ok hread
      obtain ⟨rest, d₄, hrest, hread, -⟩ := Prog.exists_of_bind_ok hread
      obtain ⟨hreturned, -⟩ := Prod.mk.inj hread
      simp only [Outcome.ok.injEq, Bool.and_eq_true, decide_eq_true_eq] at hreturned
      obtain ⟨⟨rfl, hlinked⟩, rfl⟩ := hreturned
      have hlist : (listPoliciesForTable noteLibrary "notes").run
          (Database.answer plainEnvironment) d₁ = (.ok [linked], d₃) :=
        (Prog.run_bind_ok (run_listLinked hroot hscan hlinked)).trans rfl
      have hclause : (applyRlsFilter noteLibrary .anonymous "notes" .select none).run
          (Database.answer plainEnvironment) d = (.ok (some idIsNote), d₃) :=
        (Prog.run_bind_ok hschema).trans ((Prog.run_bind_ok hlist).trans rfl)
      obtain ⟨d', hinner⟩ : ∃ d', (executeStatement noteLibrary .anonymous n selectIds).run
          (Database.answer plainEnvironment) d₃ = (.stop .diverges, d') :=
        ⟨_, Prod.ext (ih d₃ (by rw [hrest])) rfl⟩
      have hresolve : (resolveSubqueriesInExpr noteLibrary
          (executeStatement noteLibrary .anonymous n) idIsNote).run
            (Database.answer plainEnvironment) d₃ = (.stop .diverges, d') := by
        rw [idIsNote, resolveSubqueriesInExpr, resolveSubqueriesInExpr]
        exact (Prog.run_bind_ok (Prog.run_pure ..)).trans (Prog.run_bind_stop hinner)
      have hwhere : (resolveWhere noteLibrary (executeStatement noteLibrary .anonymous n)
          (some idIsNote)).run (Database.answer plainEnvironment) d₃ = (.stop .diverges, d') :=
        Prog.run_bind_stop hresolve
      have hselect : (executeStatement noteLibrary .anonymous (n + 1) selectIds).run
          (Database.answer plainEnvironment) d = (.stop .diverges, d') := by
        have hdown : executeStatement noteLibrary .anonymous (n + 1) selectIds =
            applyRlsFilter noteLibrary .anonymous "notes" .select none >>= fun whereClause =>
              resolveWhere noteLibrary (executeStatement noteLibrary .anonymous n) whereClause >>=
                fun whereClause => selectTable noteLibrary .anonymous "notes"
                  ⟨.items [.expr (.column "id") none], whereClause, none, none, none, none⟩ := rfl
        rw [hdown]
        exact (Prog.run_bind_ok hclause).trans (Prog.run_bind_stop hwhere)
      exact congrArg Prod.fst hselect

/-- The policy asks for the table that it protects. -/
theorem nestedQueries_selectIds {w : World} (h : w.outcome (readNotes 1) = .ok true) :
    nestedQueries noteLibrary .anonymous w selectIds = [selectIds] := by
  obtain ⟨schema, hschema, h⟩ := (World.outcome_bind_ok w).mp h
  obtain ⟨root, hroot, h⟩ := (World.outcome_bind_ok w).mp h
  obtain ⟨scanned, hscan, h⟩ := (World.outcome_bind_ok w).mp h
  simp only [readNotes, World.outcome_bind, World.outcome_pure, Outcome.bind, Outcome.ok.injEq,
    Bool.and_eq_true, decide_eq_true_eq] at h
  obtain ⟨⟨rfl, hlinked⟩, -⟩ := h
  have hrecords : w.outcome (listRecords kindPolicy (decodePolicyRecord noteLibrary)) =
      .ok [linked] := congrArg Prod.fst (run_listLinked (H := w.handler)
    (Prod.ext hroot (Subsingleton.elim _ ())) (Prod.ext hscan (Subsingleton.elim _ ())) hlinked)
  have hlist : w.outcome (listPoliciesForTable noteLibrary "notes") = .ok [linked] := by
    rw [listPoliciesForTable, World.outcome_bind, hrecords]
    rfl
  have hclause : w.outcome (applyRlsFilter noteLibrary .anonymous "notes" .select none) =
      .ok (some idIsNote) := outcome_applyRlsFilter noteLibrary rfl hschema rfl hlist
  unfold nestedQueries selectIds
  simp only [hclause]
  rfl

/-- The notes are read by the kernel, as they are and in a row. -/
theorem linkedNotes_read :
    (World.ofDatabase plainEnvironment linkedNotes).outcome (readNotes 1) = .ok true ∧
      ((readNotes 4).run (Database.answer plainEnvironment) linkedNotes).1 = .ok true := by
  decide +kernel

example : readNotes.holdsLinked ⟨[], .ok ()⟩ = false := by decide +kernel

theorem nestedQueries_linkedNotes : nestedQueries noteLibrary .anonymous
    (.ofDatabase plainEnvironment linkedNotes) selectIds = [selectIds] :=
  nestedQueries_selectIds linkedNotes_read.1

theorem query_selectIds : Query selectIds := .select fun _ h => by cases h

/-- Public notes: a user's query with a subquery on the same notes. -/
theorem ends_publicNotes : ∃ depth result, ∀ fuel, depth ≤ fuel →
    (World.ofDatabase plainEnvironment publicNotes).outcome (executeStatement ownerLibrary .anonymous
      fuel (.select .all "notes" none (some idIsNote) none none none none)) = result ∧
    ∀ below, (World.ofDatabase plainEnvironment publicNotes).outcome (queryDown ownerLibrary
      .anonymous below fuel (.select .all "notes" none (some idIsNote) none none none none)) =
        result := by
  have hpolicies : PoliciesAsk ownerLibrary (.ofDatabase plainEnvironment publicNotes) := by
    intro policies hlist policy hmem
    rw [listRecords_publicNotes] at hlist
    cases hlist
    cases List.mem_singleton.mp hmem
    exact asking_none
  have hquery : Query (.select .all "notes" none (some idIsNote) none none none none) := by
    refine .select ?_
    rintro _ ⟨⟩ stmt hstmt
    cases List.mem_singleton.mp hstmt
    exact query_selectIds
  refine (ends_iff_bounded hpolicies hquery).1.mpr (.of_acc ?_)
  have hclause (userWhere : Option Expr) : (World.ofDatabase plainEnvironment publicNotes).outcome
      (applyRlsFilter ownerLibrary .anonymous "notes" .select userWhere) = .ok userWhere := by
    refine (outcome_applyRlsFilter ownerLibrary rfl getTable_publicNotes rfl
      listPolicies_publicNotes).trans ?_
    cases userWhere <;> rfl
  have hleaf : nestedQueries ownerLibrary .anonymous (.ofDatabase plainEnvironment publicNotes)
      selectIds = [] := by
    unfold nestedQueries selectIds
    simp only [hclause]
    rfl
  have hroot : nestedQueries ownerLibrary .anonymous (.ofDatabase plainEnvironment publicNotes)
      (.select .all "notes" none (some idIsNote) none none none none) = [selectIds] := by
    unfold nestedQueries
    simp only [hclause]
    rfl
  refine ⟨_, fun query hmem => ?_⟩
  rw [hroot] at hmem
  cases List.mem_singleton.mp hmem
  exact ⟨_, fun query hmem => by rw [hleaf] at hmem; cases hmem⟩

/-- For a user, the query nests itself; with four nestings allowed, the database runs out of them. -/
theorem linkedNotes_never_end :
    ¬(∃ depth result, ∀ fuel, depth ≤ fuel →
      (World.ofDatabase plainEnvironment linkedNotes).outcome
        (executeStatement noteLibrary .anonymous fuel selectIds) = result ∧
      ∀ below, (World.ofDatabase plainEnvironment linkedNotes).outcome
        (queryDown noteLibrary .anonymous below fuel selectIds) = result) ∧
    (Database.execute noteLibrary .anonymous plainEnvironment 4 selectIds linkedNotes).1 =
      .stop .diverges := by
  refine ⟨?_, stops_of_readNotes 4 linkedNotes linkedNotes_read.2⟩
  rintro ⟨depth, result, h⟩
  have hnested := nested_runDown noteLibrary .anonymous
    (.ofDatabase plainEnvironment linkedNotes)
  have hends : ∃ o, EndsIn (runDown noteLibrary .anonymous
      (.ofDatabase plainEnvironment linkedNotes)) selectIds o :=
    ⟨result, depth, fun below => (h depth (Nat.le_refl depth)).2 _⟩
  exact Bounded.not_self nestedQueries_linkedNotes (hnested.ends_iff.mp hends)

end ChocoBase.Engine
