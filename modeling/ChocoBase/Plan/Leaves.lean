import ChocoBase.Plan.Aggregate

/-!
# Leaves of expressions

The value of an expression depends on its leaves alone: columns, literals, the caller, and
calls of aggregates and subqueries, which the evaluator does not look into.
-/

namespace ChocoBase.Plan

open ChocoBase.Foundation ChocoBase.Sql ChocoBase.Types ChocoBase.Auth

mutual

def leaves : Expr → List Expr
  | .binaryOp _ left right | .vectorDistance _ left right => leaves left ++ leaves right
  | .inList expr list _ => leaves expr ++ leavesOfList list
  | .isNull expr _ | .like expr _ _ | .jsonExtract expr _ _ | .ftsMatch expr _ | .ftsRank expr _
  | .ftsSnippet expr _ => leaves expr
  | other => [other]

def leavesOfList : List Expr → List Expr
  | [] => []
  | item :: list => leaves item ++ leavesOfList list

end

def IsLeaf : Expr → Prop
  | .binaryOp .. | .vectorDistance .. | .inList .. | .isNull .. | .like .. | .jsonExtract ..
  | .ftsMatch .. | .ftsRank .. | .ftsSnippet .. => False
  | _ => True

mutual

theorem isLeaf_of_mem {l : Expr} : (e : Expr) → l ∈ leaves e → IsLeaf l
  | .binaryOp _ left right | .vectorDistance _ left right => fun h => by
      rw [leaves] at h
      exact (List.mem_append.mp h).elim (isLeaf_of_mem left) (isLeaf_of_mem right)
  | .inList expr list _ => fun h => by
      rw [leaves] at h
      exact (List.mem_append.mp h).elim (isLeaf_of_mem expr) (isLeaf_of_mem_list list)
  | .isNull expr _ | .like expr _ _ | .jsonExtract expr _ _ | .ftsMatch expr _ | .ftsRank expr _
  | .ftsSnippet expr _ => fun h => by
      rw [leaves] at h
      exact isLeaf_of_mem expr h
  | .inSubquery _ _ _ | .exists _ _ | .column _ | .qualifiedColumn _ _ | .intLiteral _
  | .floatLiteral _ | .stringLiteral _ | .boolLiteral _ | .null | .aggregate _ | .authUid =>
      fun h => by
        rw [List.mem_singleton.mp h]
        trivial

theorem isLeaf_of_mem_list {l : Expr} : (list : List Expr) → l ∈ leavesOfList list → IsLeaf l
  | [] => nofun
  | item :: list => fun h => by
      rw [leavesOfList] at h
      exact (List.mem_append.mp h).elim (isLeaf_of_mem item) (isLeaf_of_mem_list list)

end

section EvalBy

variable (lib : Library) (leaf : Expr → Outcome PlanError Value)

mutual

/-- The evaluator, with the values of leaves from elsewhere. -/
def evalBy : Expr → Outcome PlanError Value
  | .isNull expr negated => (evalBy expr).bind fun v => .ok (.boolean (v.isNull != negated))
  | .binaryOp op left right =>
      (evalBy left).bind fun l => (evalBy right).bind fun r => evalBinop op l r
  | .inList expr list negated =>
      (evalBy expr).bind fun target =>
        if target.isNull then .ok .null
        else (evalAnyEqBy target list).bind fun found => .ok (.boolean (found != negated))
  | .like expr pattern negated => (evalBy expr).bind fun val => .ok (evalLike val pattern negated)
  | .jsonExtract expr path asText =>
      (evalBy expr).bind fun val => .ok (evalJsonExtract lib val path asText)
  | .vectorDistance metric left right =>
      (evalBy left).bind fun l => (evalBy right).bind fun r =>
        .ok (evalVectorDistance lib metric l r)
  | .ftsMatch expr query =>
      (evalBy expr).bind fun val =>
        .ok (.boolean ((ftsText val).elim false fun s => ftsMatches lib s query))
  | .ftsRank expr query =>
      (evalBy expr).bind fun val =>
        .ok (.float ((ftsText val).elim 0.0 fun s => ftsRank lib s query))
  | .ftsSnippet expr query =>
      (evalBy expr).bind fun val =>
        .ok (.text ((ftsText val).elim "" fun s => ftsSnippet lib s query))
  | other => leaf other

def evalAnyEqBy (target : Value) : List Expr → Outcome PlanError Bool
  | [] => .ok false
  | item :: list =>
      (evalBy item).bind fun candidate =>
        if target.eq candidate then .ok true else evalAnyEqBy target list

end

variable {lib leaf} {leaf' : Expr → Outcome PlanError Value}

mutual

theorem evalBy_congr : (e : Expr) → (∀ l ∈ leaves e, leaf l = leaf' l) →
    evalBy lib leaf e = evalBy lib leaf' e
  | .binaryOp op left right => fun h => by
      rw [leaves] at h
      rw [evalBy, evalBy, evalBy_congr left fun l hl => h l (List.mem_append_left _ hl),
        evalBy_congr right fun l hl => h l (List.mem_append_right _ hl)]
  | .vectorDistance metric left right => fun h => by
      rw [leaves] at h
      rw [evalBy, evalBy, evalBy_congr left fun l hl => h l (List.mem_append_left _ hl),
        evalBy_congr right fun l hl => h l (List.mem_append_right _ hl)]
  | .inList expr list negated => fun h => by
      rw [leaves] at h
      rw [evalBy, evalBy, evalBy_congr expr fun l hl => h l (List.mem_append_left _ hl)]
      refine congrArg _ (funext fun target => ?_)
      rw [evalAnyEqBy_congr target list fun l hl => h l (List.mem_append_right _ hl)]
  | .isNull expr _ | .like expr _ _ | .jsonExtract expr _ _ | .ftsMatch expr _ | .ftsRank expr _
  | .ftsSnippet expr _ => fun h => by
      rw [leaves] at h
      rw [evalBy, evalBy, evalBy_congr expr h]
  | .inSubquery _ _ _ | .exists _ _ | .column _ | .qualifiedColumn _ _ | .intLiteral _
  | .floatLiteral _ | .stringLiteral _ | .boolLiteral _ | .null | .aggregate _ | .authUid =>
      fun h => h _ (List.mem_singleton_self _)

theorem evalAnyEqBy_congr (target : Value) : (list : List Expr) →
    (∀ l ∈ leavesOfList list, leaf l = leaf' l) →
      evalAnyEqBy lib leaf target list = evalAnyEqBy lib leaf' target list
  | [] => fun _ => rfl
  | item :: list => fun h => by
      rw [leavesOfList] at h
      rw [evalAnyEqBy, evalAnyEqBy, evalBy_congr item fun l hl => h l (List.mem_append_left _ hl)]
      refine congrArg _ (funext fun candidate => ?_)
      rw [evalAnyEqBy_congr target list fun l hl => h l (List.mem_append_right _ hl)]

end

variable {schema : TableSchema} {row : Row} {ctx : ExecutionContext}

mutual

/-- The evaluator is the one that evaluates its leaves itself. -/
theorem evalBy_evalWithContext : (e : Expr) →
    evalBy lib (evalWithContext lib schema row ctx) e = evalWithContext lib schema row ctx e
  | .binaryOp op left right => by
      rw [evalBy, evalWithContext, evalBy_evalWithContext left, evalBy_evalWithContext right]
  | .vectorDistance metric left right => by
      rw [evalBy, evalWithContext, evalBy_evalWithContext left, evalBy_evalWithContext right]
  | .inList expr list negated => by
      rw [evalBy, evalWithContext, evalBy_evalWithContext expr]
      refine congrArg _ (funext fun target => ?_)
      rw [evalAnyEqBy_evalAnyEq target list]
  | .isNull expr _ | .like expr _ _ | .jsonExtract expr _ _ | .ftsMatch expr _ | .ftsRank expr _
  | .ftsSnippet expr _ => by
      rw [evalBy, evalWithContext, evalBy_evalWithContext expr]
  | .inSubquery _ _ _ | .exists _ _ | .column _ | .qualifiedColumn _ _ | .intLiteral _
  | .floatLiteral _ | .stringLiteral _ | .boolLiteral _ | .null | .aggregate _ | .authUid => rfl

theorem evalAnyEqBy_evalAnyEq (target : Value) : (list : List Expr) →
    evalAnyEqBy lib (evalWithContext lib schema row ctx) target list =
      evalAnyEq lib schema row ctx target list
  | [] => rfl
  | item :: list => by
      rw [evalAnyEqBy, evalAnyEq, evalBy_evalWithContext item]
      refine congrArg _ (funext fun candidate => ?_)
      rw [evalAnyEqBy_evalAnyEq target list]

end

end EvalBy

/-- The column of a table that a leaf names. -/
def columnOf (schema : TableSchema) : Expr → Option Nat
  | .column name => schema.columnIndex name
  | .qualifiedColumn table column =>
      (schema.columnIndex (table ++ "." ++ column)).orElse fun _ => schema.columnIndex column
  | _ => none

theorem eval_of_columnOf {lib : Library} {schema : TableSchema} {row : Row}
    {ctx : ExecutionContext} {e : Expr} {i : Nat} (h : columnOf schema e = some i) :
    evalWithContext lib schema row ctx e = Outcome.unwrap row[i]? := by
  unfold columnOf at h
  split at h
  · rw [evalWithContext, h, evalColumn]
  · rw [evalWithContext, h, evalColumn]
  · cases h

end ChocoBase.Plan
