import ChocoBase.Plan.Operators

/-!
# Aggregates and groups

The rows are put into groups in the order in which their keys are first seen.
-/

namespace ChocoBase.Plan

open ChocoBase.Foundation ChocoBase.Sql ChocoBase.Types

inductive Accumulator where
  | countStar (count : Int64)
  | count (count : Int64)
  | sum (sum : Int64)
  | avg (sum count : Int64)
  | min (current : Option Value)
  | max (current : Option Value)

namespace Accumulator

def new : AggregateFunc → Accumulator
  | .countStar => countStar 0
  | .count _ => count 0
  | .sum _ => sum 0
  | .avg _ => avg 0 0
  | .min _ => min none
  | .max _ => max none

/-- Addition of `i64`, checked. -/
def addChecked (m n : Int64) : Outcome ExecError Int64 :=
  let total := m.toInt + n.toInt
  if -(2 : Int) ^ 63 ≤ total ∧ total < 2 ^ 63 then .ok (m + n) else .stop .overflow

/-- Keep the better of two values; comparing values of different types panics. -/
def better (keep : Ordering) (current : Option Value) (v : Value) : Outcome ExecError (Option Value) :=
  if v.isNull then .ok current
  else match current with
    | none => .ok (some v)
    | some existing =>
        (Outcome.unwrap (sqlCmp v existing)).bind fun ord =>
          .ok (if ord = keep then some v else some existing)

def update (val : Option Value) : Accumulator → Outcome ExecError Accumulator
  | countStar c => (addChecked c 1).bind fun c => .ok (countStar c)
  | count c =>
      match val with
      | none | some .null => .ok (count c)
      | some _ => (addChecked c 1).bind fun c => .ok (count c)
  | sum s =>
      match val with
      | some (.integer n) => (addChecked s n).bind fun s => .ok (sum s)
      | _ => .ok (sum s)
  | avg s c =>
      match val with
      | some (.integer n) =>
          (addChecked s n).bind fun s => (addChecked c 1).bind fun c => .ok (avg s c)
      | _ => .ok (avg s c)
  | min current =>
      match val with
      | some v => (better .lt current v).bind fun current => .ok (min current)
      | none => .ok (min current)
  | max current =>
      match val with
      | some v => (better .gt current v).bind fun current => .ok (max current)
      | none => .ok (max current)

def finalize : Accumulator → Value
  | countStar c => .integer c
  | count c => .integer c
  | sum s => .integer s
  | avg s c => if c = 0 then .null else .integer (s / c)
  | min current => current.getD .null
  | max current => current.getD .null

end Accumulator

/-- Equal keys of a hash map: they compare equal and their floats have the same bits. -/
def sameKey (v w : Value) : Bool :=
  v.eq w && match v, w with
    | .float x, .float y => x.toBits == y.toBits
    | .vector xs, .vector ys => xs.map Float32.toBits == ys.map Float32.toBits
    | _, _ => true

def sameKeys (key key' : List Value) : Bool :=
  key.length = key'.length && (key.zip key').all fun (v, w) => sameKey v w

structure Group where
  key : List Value
  accumulators : List Accumulator

section Aggregate

variable (lib : Library) (schema : TableSchema)

def evalForGroup (row : Row) (e : Expr) : Outcome ExecError Value :=
  (eval lib schema row e).mapError fun reason => .invalidValue reason.text

def evalEach (row : Row) : List Expr → Outcome ExecError (List Value)
  | [] => .ok []
  | e :: exprs =>
      (evalForGroup lib schema row e).bind fun v =>
        (evalEach row exprs).bind fun vs => .ok (v :: vs)

def updateOne (row : Row) (acc : Accumulator) : AggregateFunc → Outcome ExecError Accumulator
  | .countStar => acc.update none
  | .count e | .sum e | .avg e | .min e | .max e =>
      (evalForGroup lib schema row e).bind fun v => acc.update (some v)

def updateAll (row : Row) :
    List Accumulator → List AggregateFunc → Outcome ExecError (List Accumulator)
  | acc :: accs, func :: funcs =>
      (updateOne lib schema row acc func).bind fun acc =>
        (updateAll row accs funcs).bind fun accs => .ok (acc :: accs)
  | accs, _ => .ok accs

/-- `groups.entry(key).or_insert_with(..)`, then the update of its accumulators. -/
def updateGroup (funcs : List AggregateFunc) (row : Row) (key : List Value) :
    List Group → Outcome ExecError (List Group)
  | [] =>
      (updateAll lib schema row (funcs.map .new) funcs).bind fun accs => .ok [⟨key, accs⟩]
  | group :: groups =>
      if sameKeys group.key key then
        (updateAll lib schema row group.accumulators funcs).bind fun accs =>
          .ok (⟨group.key, accs⟩ :: groups)
      else (updateGroup funcs row key groups).bind fun groups => .ok (group :: groups)

def groupRows (groupBy : Option (List Expr)) (funcs : List AggregateFunc) :
    List Row → List Group → Outcome ExecError (List Group)
  | [], groups => .ok groups
  | row :: rows, groups =>
      (evalEach lib schema row (groupBy.getD [])).bind fun key =>
        (updateGroup lib schema funcs row key groups).bind fun groups =>
          groupRows groupBy funcs rows groups

/-- A key that differs from itself is not found again: indexing with it panics. -/
def finishGroups (having : Option Expr) : List Group → Outcome ExecError (List Row)
  | [] => .ok []
  | group :: groups =>
      if !sameKeys group.key group.key then .stop .panic
      else
        let outRow := group.key ++ group.accumulators.map Accumulator.finalize
        let included : Outcome ExecError Bool := match having with
          | none => .ok true
          | some cond =>
              ((eval lib schema outRow cond).mapError .plan).bind fun v => .ok (isTruthy v)
        included.bind fun keep => (finishGroups having groups).bind fun rows =>
          .ok (if keep then outRow :: rows else rows)

def aggregate (groupBy : Option (List Expr)) (funcs : List AggregateFunc) (having : Option Expr)
    (input : Rows) : Rows :=
  .ofOutcome ((groupRows lib schema groupBy funcs input.rows []).bind fun groups =>
    input.ending.bind fun _ =>
      let groups :=
        if input.rows.isEmpty && groupBy.isNone then [⟨[], funcs.map .new⟩] else groups
      finishGroups lib schema having groups)

end Aggregate

end ChocoBase.Plan
