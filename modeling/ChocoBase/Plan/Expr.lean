import ChocoBase.Plan.Text
import ChocoBase.Types.Schema

/-!
# Evaluating expressions

An expression is evaluated on a row of a table, for a user.  Comparing values of
different types panics; everything else gives a value or an error.
-/

namespace ChocoBase.Auth

/-- Who runs a statement. -/
structure ExecutionContext where
  userId : Option Int64
  role : Option String
  isAdmin : Bool
  deriving DecidableEq

namespace ExecutionContext

def anonymous : ExecutionContext where
  userId := none
  role := none
  isAdmin := false

def admin : ExecutionContext where
  userId := some 0
  role := some "admin"
  isAdmin := true

def authenticated (userId : Int64) (role : String) : ExecutionContext where
  userId := some userId
  role := some role
  isAdmin := role = "admin" || role = "service_role"

end ExecutionContext

end ChocoBase.Auth

namespace ChocoBase.Plan

open ChocoBase.Foundation ChocoBase.Sql ChocoBase.Types ChocoBase.Auth

def isTruthy (v : Value) : Bool := v = .boolean true

/-- The comparison that an operator makes of an order. -/
def compares : BinOp → Ordering → Bool
  | .notEq, ord => ord != .eq
  | .lt, ord => ord == .lt
  | .ltEq, ord => ord != .gt
  | .gt, ord => ord == .gt
  | .gtEq, ord => ord != .lt
  | _, ord => ord == .eq

def evalBinop (op : BinOp) (l r : Value) : Outcome PlanError Value :=
  match op with
  | .and => .ok (.boolean (isTruthy l && isTruthy r))
  | .or => .ok (.boolean (isTruthy l || isTruthy r))
  | _ =>
      if l.isNull || r.isNull then .ok (.boolean false)
      else (Outcome.unwrap (sqlCmp l r)).bind fun ord => .ok (.boolean (compares op ord))

/-- The text that full-text search reads. -/
def ftsText : Value → Option String
  | .text s | .json s => some s
  | _ => none

section Eval

variable (lib : Library) (schema : TableSchema) (row : Row) (ctx : ExecutionContext)

def evalColumn (found : Option Nat) (name : String) : Outcome PlanError Value :=
  match found with
  | none => .error (.noSuchColumn name)
  | some idx => Outcome.unwrap row[idx]?

def evalLike (val : Value) (pattern : String) (negated : Bool) : Value :=
  match val with
  | .null => .null
  | .text s => .boolean (likeMatchChars s.toList pattern.toList != negated)
  | _ => .boolean (likeMatchChars [] pattern.toList != negated)

def evalJsonExtract (val : Value) (path : String) (asText : Bool) : Value :=
  match ftsText val with
  | none => .null
  | some s =>
      match lib.parseJson s with
      | .error _ => .null
      | .ok document =>
          match jsonFollow path document with
          | none => .null
          | some found => jsonToValue lib asText found

def evalVectorDistance (metric : VectorMetric) (l r : Value) : Value :=
  match parseVector lib l, parseVector lib r with
  | some a, some b => .float (vectorDistance metric a b)
  | _, _ => .null

mutual

def evalWithContext : Expr → Outcome PlanError Value
  | .authUid => .ok (match ctx.userId with
      | some uid => .integer uid
      | none => .null)
  | .column name => evalColumn row (schema.columnIndex name) name
  | .qualifiedColumn table column =>
      let qual := table ++ "." ++ column
      evalColumn row ((schema.columnIndex qual).orElse fun _ => schema.columnIndex column) qual
  | .intLiteral n => .ok (.integer n)
  | .floatLiteral x => .ok (.float x)
  | .stringLiteral s => .ok (.text s)
  | .boolLiteral b => .ok (.boolean b)
  | .null => .ok .null
  | .isNull expr negated =>
      (evalWithContext expr).bind fun v => .ok (.boolean (v.isNull != negated))
  | .binaryOp op left right =>
      (evalWithContext left).bind fun l => (evalWithContext right).bind fun r => evalBinop op l r
  | .inList expr list negated =>
      (evalWithContext expr).bind fun target =>
        if target.isNull then .ok .null
        else (evalAnyEq target list).bind fun found => .ok (.boolean (found != negated))
  | .like expr pattern negated =>
      (evalWithContext expr).bind fun val => .ok (evalLike val pattern negated)
  | .aggregate _ => .error (.invalidExpression
      "aggregate functions cannot be evaluated directly in row context")
  | .inSubquery .. | .exists .. => .error (.invalidExpression
      "subqueries must be resolved before row-level evaluation")
  | .jsonExtract expr path asText =>
      (evalWithContext expr).bind fun val => .ok (evalJsonExtract lib val path asText)
  | .vectorDistance metric left right =>
      (evalWithContext left).bind fun l => (evalWithContext right).bind fun r =>
        .ok (evalVectorDistance lib metric l r)
  | .ftsMatch expr query =>
      (evalWithContext expr).bind fun val =>
        .ok (.boolean ((ftsText val).elim false fun s => ftsMatches lib s query))
  | .ftsRank expr query =>
      (evalWithContext expr).bind fun val =>
        .ok (.float ((ftsText val).elim 0.0 fun s => ftsRank lib s query))
  | .ftsSnippet expr query =>
      (evalWithContext expr).bind fun val =>
        .ok (.text ((ftsText val).elim "" fun s => ftsSnippet lib s query))

/-- The loop of `IN`, which stops at the first value equal to the target. -/
def evalAnyEq (target : Value) : List Expr → Outcome PlanError Bool
  | [] => .ok false
  | item :: list =>
      (evalWithContext item).bind fun candidate =>
        if target.eq candidate then .ok true else evalAnyEq target list

end

end Eval

/-- Evaluation for nobody, as joins and aggregates evaluate. -/
def eval (lib : Library) (schema : TableSchema) (row : Row) (e : Expr) : Outcome PlanError Value :=
  evalWithContext lib schema row .anonymous e

end ChocoBase.Plan
