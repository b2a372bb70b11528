import ChocoBase.Engine.Membership
import ChocoBase.Engine.Reading

/-!
# Resolving subqueries

Before rows are read, each subquery of a condition is replaced by its result.  The meaning
of a condition with subqueries is given directly; the resolved condition has it where the
values that come back as literals are found like the values themselves.
-/

namespace ChocoBase.Engine

open ChocoBase.Foundation ChocoBase.Storage ChocoBase.Sql ChocoBase.Types ChocoBase.Auth
  ChocoBase.Catalog ChocoBase.Plan

/-! ## Expressions without subqueries -/

mutual

/-- No subquery at any depth. -/
def subqueryFree : Expr → Bool
  | .inSubquery .. | .exists .. => false
  | .binaryOp _ left right | .vectorDistance _ left right =>
      subqueryFree left && subqueryFree right
  | .inList expr list _ => subqueryFree expr && subqueryFreeList list
  | .isNull expr _ | .like expr _ _ | .jsonExtract expr _ _ | .ftsMatch expr _ | .ftsRank expr _
  | .ftsSnippet expr _ => subqueryFree expr
  | .aggregate func => subqueryFreeFunc func
  | _ => true

def subqueryFreeFunc : AggregateFunc → Bool
  | .countStar => true
  | .count expr | .sum expr | .avg expr | .min expr | .max expr => subqueryFree expr

def subqueryFreeList : List Expr → Bool
  | [] => true
  | item :: list => subqueryFree item && subqueryFreeList list

end

mutual

/-- No subquery inside of an aggregate, where it is not looked for. -/
def aggregatesFree : Expr → Bool
  | .inSubquery expr _ _ => aggregatesFree expr
  | .binaryOp _ left right | .vectorDistance _ left right =>
      aggregatesFree left && aggregatesFree right
  | .inList expr list _ => aggregatesFree expr && aggregatesFreeList list
  | .isNull expr _ | .like expr _ _ | .jsonExtract expr _ _ | .ftsMatch expr _ | .ftsRank expr _
  | .ftsSnippet expr _ => aggregatesFree expr
  | .aggregate func => subqueryFreeFunc func
  | _ => true

def aggregatesFreeList : List Expr → Bool
  | [] => true
  | item :: list => aggregatesFree item && aggregatesFreeList list

end

/-! ## What conditions with subqueries mean -/

section Reading

variable (lib : Library) (answers : Statement → ExecResult) (schema : TableSchema) (row : Row)
  (ctx : ExecutionContext)

mutual

/-- A subquery in `IN` stands for the values it returns, and `EXISTS` for whether there are rows. -/
def evalReading : Expr → Outcome PlanError Value
  | .inSubquery expr query negated =>
      (evalReading expr).bind fun target =>
        if target.isNull then .ok .null
        else .ok (.boolean ((firstValues (answers query)).any target.eq != negated))
  | .exists query negated => .ok (.boolean (hasRows (answers query) != negated))
  | .isNull expr negated =>
      (evalReading expr).bind fun v => .ok (.boolean (v.isNull != negated))
  | .binaryOp op left right =>
      (evalReading left).bind fun l => (evalReading right).bind fun r => evalBinop op l r
  | .inList expr list negated =>
      (evalReading expr).bind fun target =>
        if target.isNull then .ok .null
        else (readAnyEq target list).bind fun found => .ok (.boolean (found != negated))
  | .like expr pattern negated =>
      (evalReading expr).bind fun val => .ok (evalLike val pattern negated)
  | .jsonExtract expr path asText =>
      (evalReading expr).bind fun val => .ok (evalJsonExtract lib val path asText)
  | .vectorDistance metric left right =>
      (evalReading left).bind fun l => (evalReading right).bind fun r =>
        .ok (evalVectorDistance lib metric l r)
  | .ftsMatch expr query =>
      (evalReading expr).bind fun val =>
        .ok (.boolean ((ftsText val).elim false fun s => ftsMatches lib s query))
  | .ftsRank expr query =>
      (evalReading expr).bind fun val =>
        .ok (.float ((ftsText val).elim 0.0 fun s => ftsRank lib s query))
  | .ftsSnippet expr query =>
      (evalReading expr).bind fun val =>
        .ok (.text ((ftsText val).elim "" fun s => ftsSnippet lib s query))
  | other => evalWithContext lib schema row ctx other

def readAnyEq (target : Value) : List Expr → Outcome PlanError Bool
  | [] => .ok false
  | item :: list =>
      (evalReading item).bind fun candidate =>
        if target.eq candidate then .ok true else readAnyEq target list

end

/-- The target is found among the literals exactly if it is among the values. -/
def SurvivesAs (values : List Value) (target : Value) : Prop :=
  (values.map (readBack lib)).any target.eq = values.any target.eq

mutual

/-- Every target that is looked for in a subquery is found in its literals as in its values. -/
def Faithful : Expr → Prop
  | .inSubquery expr query _ =>
      Faithful expr ∧ ∀ target, evalReading lib answers schema row ctx expr = .ok target →
        target.isNull = false → SurvivesAs lib (firstValues (answers query)) target
  | .binaryOp _ left right | .vectorDistance _ left right =>
      Faithful left ∧ ∀ l, evalReading lib answers schema row ctx left = .ok l → Faithful right
  | .inList expr list _ =>
      Faithful expr ∧ ∀ target, evalReading lib answers schema row ctx expr = .ok target →
        target.isNull = false → FaithfulUpTo target list
  | .isNull expr _ | .like expr _ _ | .jsonExtract expr _ _ | .ftsMatch expr _ | .ftsRank expr _
  | .ftsSnippet expr _ => Faithful expr
  | _ => True

def FaithfulUpTo (target : Value) : List Expr → Prop
  | [] => True
  | item :: list =>
      Faithful item ∧ ∀ v, evalReading lib answers schema row ctx item = .ok v →
        target.eq v = false → FaithfulUpTo target list

end

/-! ## The resolved expression -/

mutual

def resolvedExpr : Expr → Expr
  | .inSubquery expr query negated =>
      .inList (resolvedExpr expr) (firstLiterals lib (answers query)) negated
  | .exists query negated => .boolLiteral (hasRows (answers query) != negated)
  | .binaryOp op left right => .binaryOp op (resolvedExpr left) (resolvedExpr right)
  | .isNull expr negated => .isNull (resolvedExpr expr) negated
  | .inList expr list negated => .inList (resolvedExpr expr) (resolvedList list) negated
  | .like expr pattern negated => .like (resolvedExpr expr) pattern negated
  | .vectorDistance metric left right =>
      .vectorDistance metric (resolvedExpr left) (resolvedExpr right)
  | .jsonExtract expr path asText => .jsonExtract (resolvedExpr expr) path asText
  | .ftsMatch expr query => .ftsMatch (resolvedExpr expr) query
  | .ftsRank expr query => .ftsRank (resolvedExpr expr) query
  | .ftsSnippet expr query => .ftsSnippet (resolvedExpr expr) query
  | other => other

def resolvedList : List Expr → List Expr
  | [] => []
  | item :: list => resolvedExpr item :: resolvedList list

end

end Reading

/-- The results of the queries in a world; those that fail do not matter. -/
def World.answers (w : World) (execute : Statement → DbProg DbError ExecResult)
    (query : Statement) : ExecResult :=
  match w.outcome (execute query) with
  | .ok res => res
  | _ => .ok

section Resolved

variable {lib : Library} {w : World} {execute : Statement → DbProg DbError ExecResult}

theorem outcome_return {α β : Type} {x : DbProg DbError α} {k : α → β} {b : β} :
    w.outcome (do let a ← x; return k a) = .ok b ↔ ∃ a, w.outcome x = .ok a ∧ k a = b := by
  rw [World.outcome_bind_ok]
  simp

theorem answers_eq {query : Statement} {res : ExecResult} (h : w.outcome (execute query) = .ok res) :
    w.answers execute query = res := by
  rw [World.answers, h]

mutual

theorem eq_resolvedExpr : (e : Expr) → ∀ {e' : Expr},
    w.outcome (resolveSubqueriesInExpr lib execute e) = .ok e' →
      e' = resolvedExpr lib (w.answers execute) e
  | .inSubquery expr query negated => by
      intro h
      rw [resolveSubqueriesInExpr] at h
      obtain ⟨expr', hexpr, h⟩ := (World.outcome_bind_ok w).mp h
      obtain ⟨res, hres, rfl⟩ := outcome_return.mp h
      rw [resolvedExpr, eq_resolvedExpr expr hexpr, answers_eq hres]
  | .exists query negated => by
      intro h
      rw [resolveSubqueriesInExpr] at h
      obtain ⟨res, hres, rfl⟩ := outcome_return.mp h
      rw [resolvedExpr, answers_eq hres]
  | .binaryOp op left right => by
      intro h
      rw [resolveSubqueriesInExpr] at h
      obtain ⟨left', hleft, h⟩ := (World.outcome_bind_ok w).mp h
      obtain ⟨right', hright, rfl⟩ := outcome_return.mp h
      rw [resolvedExpr, eq_resolvedExpr left hleft, eq_resolvedExpr right hright]
  | .vectorDistance metric left right => by
      intro h
      rw [resolveSubqueriesInExpr] at h
      obtain ⟨left', hleft, h⟩ := (World.outcome_bind_ok w).mp h
      obtain ⟨right', hright, rfl⟩ := outcome_return.mp h
      rw [resolvedExpr, eq_resolvedExpr left hleft, eq_resolvedExpr right hright]
  | .inList expr list negated => by
      intro h
      rw [resolveSubqueriesInExpr] at h
      obtain ⟨expr', hexpr, h⟩ := (World.outcome_bind_ok w).mp h
      obtain ⟨list', hlist, rfl⟩ := outcome_return.mp h
      rw [resolvedExpr, eq_resolvedExpr expr hexpr, eq_resolvedList list hlist]
  | .isNull expr negated => by
      intro h
      rw [resolveSubqueriesInExpr] at h
      obtain ⟨expr', hexpr, rfl⟩ := outcome_return.mp h
      rw [resolvedExpr, eq_resolvedExpr expr hexpr]
  | .like expr pattern negated => by
      intro h
      rw [resolveSubqueriesInExpr] at h
      obtain ⟨expr', hexpr, rfl⟩ := outcome_return.mp h
      rw [resolvedExpr, eq_resolvedExpr expr hexpr]
  | .jsonExtract expr path asText => by
      intro h
      rw [resolveSubqueriesInExpr] at h
      obtain ⟨expr', hexpr, rfl⟩ := outcome_return.mp h
      rw [resolvedExpr, eq_resolvedExpr expr hexpr]
  | .ftsMatch expr query => by
      intro h
      rw [resolveSubqueriesInExpr] at h
      obtain ⟨expr', hexpr, rfl⟩ := outcome_return.mp h
      rw [resolvedExpr, eq_resolvedExpr expr hexpr]
  | .ftsRank expr query => by
      intro h
      rw [resolveSubqueriesInExpr] at h
      obtain ⟨expr', hexpr, rfl⟩ := outcome_return.mp h
      rw [resolvedExpr, eq_resolvedExpr expr hexpr]
  | .ftsSnippet expr query => by
      intro h
      rw [resolveSubqueriesInExpr] at h
      obtain ⟨expr', hexpr, rfl⟩ := outcome_return.mp h
      rw [resolvedExpr, eq_resolvedExpr expr hexpr]
  | .column name => fun h => (Outcome.ok.inj h).symm
  | .qualifiedColumn table column => fun h => (Outcome.ok.inj h).symm
  | .intLiteral n => fun h => (Outcome.ok.inj h).symm
  | .floatLiteral x => fun h => (Outcome.ok.inj h).symm
  | .stringLiteral s => fun h => (Outcome.ok.inj h).symm
  | .boolLiteral b => fun h => (Outcome.ok.inj h).symm
  | .null => fun h => (Outcome.ok.inj h).symm
  | .aggregate func => fun h => (Outcome.ok.inj h).symm
  | .authUid => fun h => (Outcome.ok.inj h).symm

theorem eq_resolvedList : (list : List Expr) → ∀ {list' : List Expr},
    w.outcome (resolveSubqueriesInList lib execute list) = .ok list' →
      list' = resolvedList lib (w.answers execute) list
  | [] => fun h => (Outcome.ok.inj h).symm
  | item :: list => by
      intro h
      rw [resolveSubqueriesInList] at h
      obtain ⟨item', hitem, h⟩ := (World.outcome_bind_ok w).mp h
      obtain ⟨rest, hlist, rfl⟩ := outcome_return.mp h
      rw [resolvedList, eq_resolvedExpr item hitem, eq_resolvedList list hlist]

end

end Resolved

/-! ## No subqueries are left -/

section Free

variable (lib : Library) (answers : Statement → ExecResult)

theorem subqueryFree_literals (res : ExecResult) :
    subqueryFreeList (firstLiterals lib res) = true := by
  rw [firstLiterals_eq]
  induction firstValues res with
  | nil => rfl
  | cons v values ih =>
      rw [List.map_cons, subqueryFreeList, ih, Bool.and_true]
      cases v <;> rfl

mutual

theorem subqueryFree_resolvedExpr : (e : Expr) →
    subqueryFree (resolvedExpr lib answers e) = aggregatesFree e
  | .inSubquery expr query negated => by
      rw [resolvedExpr, subqueryFree, aggregatesFree, subqueryFree_resolvedExpr expr,
        subqueryFree_literals, Bool.and_true]
  | .binaryOp op left right => by
      rw [resolvedExpr, subqueryFree, aggregatesFree, subqueryFree_resolvedExpr left,
        subqueryFree_resolvedExpr right]
  | .vectorDistance metric left right => by
      rw [resolvedExpr, subqueryFree, aggregatesFree, subqueryFree_resolvedExpr left,
        subqueryFree_resolvedExpr right]
  | .inList expr list negated => by
      rw [resolvedExpr, subqueryFree, aggregatesFree, subqueryFree_resolvedExpr expr,
        subqueryFree_resolvedList list]
  | .isNull expr _ | .like expr _ _ | .jsonExtract expr _ _ | .ftsMatch expr _ | .ftsRank expr _
  | .ftsSnippet expr _ => by
      rw [resolvedExpr, subqueryFree, aggregatesFree, subqueryFree_resolvedExpr expr]
  | .exists _ _ | .column _ | .qualifiedColumn _ _ | .intLiteral _ | .floatLiteral _
  | .stringLiteral _ | .boolLiteral _ | .null | .aggregate _ | .authUid => rfl

theorem subqueryFree_resolvedList : (list : List Expr) →
    subqueryFreeList (resolvedList lib answers list) = aggregatesFreeList list
  | [] => rfl
  | item :: list => by
      rw [resolvedList, subqueryFreeList, aggregatesFreeList, subqueryFree_resolvedExpr item,
        subqueryFree_resolvedList list]

end

end Free

/-! ## The meaning is kept -/

section Meaning

variable (lib : Library) (answers : Statement → ExecResult) (schema : TableSchema) (row : Row)
  (ctx : ExecutionContext)

theorem evalAnyEq_literals (target : Value) (res : ExecResult) :
    evalAnyEq lib schema row ctx target (firstLiterals lib res) =
      .ok (((firstValues res).map (readBack lib)).any target.eq) := by
  rw [firstLiterals_eq]
  induction firstValues res with
  | nil => rfl
  | cons v values ih =>
      rw [List.map_cons, evalAnyEq, eval_valueLiteral, Outcome.bind, ih]
      cases h : target.eq (readBack lib v) <;> simp [h]

/-- At a subquery in `IN`, the meaning is kept exactly if the target is found as before. -/
theorem eval_inSubquery_iff {expr : Expr} {query : Statement} {negated : Bool}
    (hexpr : evalWithContext lib schema row ctx (resolvedExpr lib answers expr) =
      evalReading lib answers schema row ctx expr) :
    evalWithContext lib schema row ctx (resolvedExpr lib answers (.inSubquery expr query negated)) =
        evalReading lib answers schema row ctx (.inSubquery expr query negated) ↔
      ∀ target, evalReading lib answers schema row ctx expr = .ok target → target.isNull = false →
        SurvivesAs lib (firstValues (answers query)) target := by
  rw [resolvedExpr, evalWithContext, evalReading, hexpr]
  cases evalReading lib answers schema row ctx expr with
  | ok target =>
      simp only [Outcome.bind]
      cases htarget : target.isNull with
      | true => simp [htarget]
      | false => simp [htarget, evalAnyEq_literals, Outcome.bind, SurvivesAs]
  | error reason => simp [Outcome.bind]
  | stop why => simp [Outcome.bind]

mutual

theorem eval_resolvedExpr : (e : Expr) → Faithful lib answers schema row ctx e →
    evalWithContext lib schema row ctx (resolvedExpr lib answers e) =
      evalReading lib answers schema row ctx e
  | .inSubquery expr query negated => fun h =>
      (eval_inSubquery_iff lib answers schema row ctx (eval_resolvedExpr expr h.1)).mpr h.2
  | .binaryOp op left right => fun h => by
      rw [resolvedExpr, evalWithContext, evalReading, eval_resolvedExpr left h.1]
      cases hleft : evalReading lib answers schema row ctx left with
      | ok l => rw [Outcome.bind, Outcome.bind, eval_resolvedExpr right (h.2 l hleft)]
      | error reason => rfl
      | stop why => rfl
  | .vectorDistance metric left right => fun h => by
      rw [resolvedExpr, evalWithContext, evalReading, eval_resolvedExpr left h.1]
      cases hleft : evalReading lib answers schema row ctx left with
      | ok l => rw [Outcome.bind, Outcome.bind, eval_resolvedExpr right (h.2 l hleft)]
      | error reason => rfl
      | stop why => rfl
  | .inList expr list negated => fun h => by
      rw [resolvedExpr, evalWithContext, evalReading, eval_resolvedExpr expr h.1]
      cases hexpr : evalReading lib answers schema row ctx expr with
      | ok target =>
          rw [Outcome.bind, Outcome.bind]
          cases hnull : target.isNull with
          | true => rfl
          | false => rw [eval_resolvedList target list (h.2 target hexpr hnull)]
      | error reason => rfl
      | stop why => rfl
  | .isNull expr _ | .like expr _ _ | .jsonExtract expr _ _ | .ftsMatch expr _ | .ftsRank expr _
  | .ftsSnippet expr _ => fun h => by
      rw [resolvedExpr, evalWithContext, evalReading, eval_resolvedExpr expr h]
  | .exists query negated => fun _ => by rw [resolvedExpr, evalWithContext, evalReading]
  | .column _ | .qualifiedColumn _ _ | .intLiteral _ | .floatLiteral _ | .stringLiteral _
  | .boolLiteral _ | .null | .aggregate _ | .authUid => fun _ => rfl

theorem eval_resolvedList (target : Value) : (list : List Expr) →
    FaithfulUpTo lib answers schema row ctx target list →
      evalAnyEq lib schema row ctx target (resolvedList lib answers list) =
        readAnyEq lib answers schema row ctx target list
  | [] => fun _ => rfl
  | item :: list => fun h => by
      rw [resolvedList, evalAnyEq, readAnyEq, eval_resolvedExpr item h.1]
      cases hitem : evalReading lib answers schema row ctx item with
      | ok v =>
          rw [Outcome.bind, Outcome.bind]
          cases hv : target.eq v with
          | true => rfl
          | false => rw [eval_resolvedList target list (h.2 v hitem hv)]
      | error reason => rfl
      | stop why => rfl

end

/-- Neither a document nor a vector, which come back as texts. -/
def Carried (v : Value) : Prop := readBack lib v = v

theorem survivesAs_of_carried {values : List Value} (h : ∀ v ∈ values, Carried lib v)
    (target : Value) : SurvivesAs lib values target := by
  have hvalues : values.map (readBack lib) = values := by
    rw [List.map_congr_left (g := id) h, List.map_id]
  rw [SurvivesAs, hvalues]

variable {answers}

mutual

/-- A condition whose subqueries return neither documents nor vectors keeps its meaning. -/
theorem faithful_of_carried : (e : Expr) →
    (∀ query ∈ subqueries e, ∀ v ∈ firstValues (answers query), Carried lib v) →
      Faithful lib answers schema row ctx e
  | .inSubquery expr query negated => fun h => by
      rw [subqueries] at h
      exact ⟨faithful_of_carried expr fun q hq => h q (List.mem_append_left _ hq),
        fun target _ _ => survivesAs_of_carried lib
          (h query (List.mem_append_right _ (List.mem_singleton_self query))) target⟩
  | .binaryOp _ left right | .vectorDistance _ left right => fun h => by
      rw [subqueries] at h
      exact ⟨faithful_of_carried left fun q hq => h q (List.mem_append_left _ hq),
        fun _ _ => faithful_of_carried right fun q hq => h q (List.mem_append_right _ hq)⟩
  | .inList expr list negated => fun h => by
      rw [subqueries] at h
      exact ⟨faithful_of_carried expr fun q hq => h q (List.mem_append_left _ hq),
        fun target _ _ => faithfulUpTo_of_carried target list fun q hq =>
          h q (List.mem_append_right _ hq)⟩
  | .isNull expr _ | .like expr _ _ | .jsonExtract expr _ _ | .ftsMatch expr _ | .ftsRank expr _
  | .ftsSnippet expr _ => fun h => by
      rw [subqueries] at h
      exact faithful_of_carried expr h
  | .exists _ _ | .column _ | .qualifiedColumn _ _ | .intLiteral _ | .floatLiteral _
  | .stringLiteral _ | .boolLiteral _ | .null | .aggregate _ | .authUid => fun _ => trivial

theorem faithfulUpTo_of_carried (target : Value) : (list : List Expr) →
    (∀ query ∈ subqueriesInList list, ∀ v ∈ firstValues (answers query), Carried lib v) →
      FaithfulUpTo lib answers schema row ctx target list
  | [] => fun _ => trivial
  | item :: list => fun h => by
      rw [subqueriesInList] at h
      exact ⟨faithful_of_carried item fun q hq => h q (List.mem_append_left _ hq),
        fun _ _ _ => faithfulUpTo_of_carried target list fun q hq =>
          h q (List.mem_append_right _ hq)⟩

end

end Meaning

/--
What is left of subqueries are those in aggregates; the meaning on a row is kept where the
lookups on it are, and at a lookup itself only there.
-/
theorem resolution_keeps_meaning {lib : Library} {w : World}
    {execute : Statement → DbProg DbError ExecResult} {e e' : Expr}
    (h : w.outcome (resolveSubqueriesInExpr lib execute e) = .ok e') :
    (subqueryFree e' = true ↔ aggregatesFree e = true) ∧
      ∀ (schema : TableSchema) (row : Row) (ctx : ExecutionContext),
        (Faithful lib (w.answers execute) schema row ctx e →
          evalWithContext lib schema row ctx e' =
            evalReading lib (w.answers execute) schema row ctx e) ∧
        ∀ expr query negated, e = .inSubquery expr query negated →
          Faithful lib (w.answers execute) schema row ctx expr →
            evalWithContext lib schema row ctx e' =
                evalReading lib (w.answers execute) schema row ctx e →
              Faithful lib (w.answers execute) schema row ctx e := by
  obtain rfl := eq_resolvedExpr e h
  refine ⟨by rw [subqueryFree_resolvedExpr], fun schema row ctx =>
    ⟨eval_resolvedExpr lib _ schema row ctx e, ?_⟩⟩
  rintro expr query negated rfl hexpr heval
  exact ⟨hexpr, (eval_inSubquery_iff lib _ schema row ctx
    (eval_resolvedExpr lib _ schema row ctx expr hexpr)).mp heval⟩

/-! ## Documents looked for in documents -/

theorem outcome_existsDocuments : (World.ofDatabase plainEnvironment docs).outcome
    (resolveSubqueriesInExpr docsLibrary (executeStatement docsLibrary .anonymous 1)
      (.exists selectDocuments false)) = .ok (.boolLiteral true) := by
  rw [resolveSubqueriesInExpr, World.outcome_bind, outcome_selectDocuments]
  rfl

theorem exists_keeps_meaning :
    let answers := (World.ofDatabase plainEnvironment docs).answers
      (executeStatement docsLibrary .anonymous 1)
    (subqueryFree (.boolLiteral true) = true ↔
        aggregatesFree (.exists selectDocuments false) = true) ∧
      ∀ (schema : TableSchema) (row : Row) (ctx : ExecutionContext),
        (Faithful docsLibrary answers schema row ctx (.exists selectDocuments false) →
          evalWithContext docsLibrary schema row ctx (.boolLiteral true) =
            evalReading docsLibrary answers schema row ctx (.exists selectDocuments false)) ∧
        ∀ expr query negated, Expr.exists selectDocuments false = .inSubquery expr query negated →
          Faithful docsLibrary answers schema row ctx expr →
            evalWithContext docsLibrary schema row ctx (.boolLiteral true) =
                evalReading docsLibrary answers schema row ctx (.exists selectDocuments false) →
              Faithful docsLibrary answers schema row ctx (.exists selectDocuments false) :=
  resolution_keeps_meaning outcome_existsDocuments

/--
`j IN (SELECT j FROM docs)` is false of the document that is there, and the subquery in
`COUNT(EXISTS (SELECT j FROM docs))` stays.
-/
theorem documents_change_meaning :
    let w := World.ofDatabase plainEnvironment docs
    let execute := executeStatement docsLibrary .anonymous 1
    let row := [Value.integer 1, .json "null"]
    (∃ e', w.outcome (resolveSubqueriesInExpr docsLibrary execute
        (.inSubquery (.column "j") selectDocuments false)) = .ok e' ∧
      evalWithContext docsLibrary docsSchema row .anonymous e' = .ok (.boolean false) ∧
      evalReading docsLibrary (w.answers execute) docsSchema row .anonymous
        (.inSubquery (.column "j") selectDocuments false) = .ok (.boolean true)) ∧
    ∃ e', w.outcome (resolveSubqueriesInExpr docsLibrary execute
        (.aggregate (.count (.exists selectDocuments false)))) = .ok e' ∧
      subqueryFree e' = false := by
  intro w execute row
  have hanswers : w.answers execute selectDocuments = .rows ["j"] [[.json "null"]] :=
    answers_eq outcome_selectDocuments
  refine ⟨⟨.inList (.column "j") (firstLiterals docsLibrary (.rows ["j"] [[.json "null"]])) false,
    ?_, ?_, ?_⟩, _, rfl, rfl⟩
  · rw [resolveSubqueriesInExpr, World.outcome_bind, resolveSubqueriesInExpr, World.outcome_pure,
      Outcome.bind, World.outcome_bind, outcome_selectDocuments, Outcome.bind, World.outcome_pure]
  · rfl
  · rw [evalReading, hanswers]
    rfl

end ChocoBase.Engine
