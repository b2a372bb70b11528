import ChocoBase.Catalog.Catalog
import ChocoBase.Plan.Expr

/-!
# Operators

An operator yields rows one by one until it ends, fails or panics.  `Rows` holds
what it yields and how that ends: an operator above it that stops early never
reaches the ending.
-/

namespace ChocoBase.Plan

open ChocoBase.Foundation ChocoBase.Storage ChocoBase.Sql ChocoBase.Types ChocoBase.Auth
  ChocoBase.Engine

structure Rows where
  rows : List Row
  ending : Outcome ExecError Unit

namespace Rows

def push (row : Row) (r : Rows) : Rows := { r with rows := row :: r.rows }

/-- Call `next` until the end. -/
def outcome (r : Rows) : Outcome ExecError (List Row) := r.ending.bind fun _ => .ok r.rows

def ofOutcome : Outcome ExecError (List Row) → Rows
  | .ok rows => ⟨rows, .ok ()⟩
  | .error reason => ⟨[], .error reason⟩
  | .stop why => ⟨[], .stop why⟩

end Rows

section Collect

variable {α : Type}

/-- Yield what `f` makes of each item, up to its first failure. -/
def collect (f : α → Outcome ExecError (Option Row)) (ending : Outcome ExecError Unit) :
    List α → Rows
  | [] => ⟨[], ending⟩
  | item :: rest =>
      match f item with
      | .ok (some row) => (collect f ending rest).push row
      | .ok none => collect f ending rest
      | .error reason => ⟨[], .error reason⟩
      | .stop why => ⟨[], .stop why⟩

/-- Yield all rows that `f` makes of each item. -/
def collectMany (f : α → Rows) (ending : Outcome ExecError Unit) : List α → Rows
  | [] => ⟨[], ending⟩
  | item :: rest =>
      match (f item).ending with
      | .ok () =>
          let later := collectMany f ending rest
          ⟨(f item).rows ++ later.rows, later.ending⟩
      | failed => ⟨(f item).rows, failed⟩

end Collect

/-! ## Scans -/

def rowOf (schema : TableSchema) (payload : Bytes) : Outcome ExecError (Option Row) :=
  (Outcome.unwrap (decodeRow schema payload)).bind fun row => .ok (some row)

def seqScan (schema : TableSchema) : DbProg ExecError Rows := do
  let scanned ← ask ExecError.btree (.scan schema.rootPage)
  return collect (fun e => rowOf schema e.2) (scanned.ending.mapError .btree) scanned.entries

/-- Search for a row; an error is how the operator ends. -/
def fetch (schema : TableSchema) (key : Bytes) : DbProg ExecError (Outcome ExecError (Option Row)) := do
  match ← (ask id (.search schema.rootPage key)).attempt with
  | .error reason => return .error (.btree reason)
  | .ok none => return .ok none
  | .ok (some payload) => return rowOf schema payload

def tableSeek (schema : TableSchema) (key : Bytes) : DbProg ExecError Rows := do
  let found ← fetch schema key
  return collect id (.ok ()) [found]

/-- The loop of `IndexSeek`, over the entries of the index from the prefix on. -/
def fetchEach (schema : TableSchema) (start : Bytes) (ending : Outcome ExecError Unit) :
    List (Bytes × Bytes) → DbProg ExecError Rows
  | [] => return ⟨[], ending⟩
  | (key, _) :: rest => do
      if !start.isPrefixOf key then return ⟨[], .ok ()⟩
      else
        let found ← fetch schema (key.drop start.length)
        let later ← fetchEach schema start ending rest
        return match found with
          | .ok (some row) => later.push row
          | .ok none => later
          | .error reason => ⟨[], .error reason⟩
          | .stop why => ⟨[], .stop why⟩

def indexSeek (schema : TableSchema) (indexRoot : PageNo) (start : Bytes) :
    DbProg ExecError Rows := do
  let scanned ← ask ExecError.btree (.scanFrom indexRoot start)
  fetchEach schema start (scanned.ending.mapError .btree) scanned.entries

/-! ## Operators on rows -/

section Operators

variable (lib : Library)

/-- `eval_with_context(..).map_err(|e| InvalidValue(e.to_string()))` -/
def evalInto (schema : TableSchema) (ctx : ExecutionContext) (row : Row) (e : Expr) :
    Outcome ExecError Value :=
  (evalWithContext lib schema row ctx e).mapError fun reason => .invalidValue reason.text

def filterRow (schema : TableSchema) (predicate : Expr) (ctx : ExecutionContext) (row : Row) :
    Outcome ExecError (Option Row) :=
  (evalInto lib schema ctx row predicate).bind fun v =>
    .ok (if isTruthy v then some row else none)

def filter (schema : TableSchema) (predicate : Expr) (ctx : ExecutionContext) (input : Rows) :
    Rows :=
  collect (filterRow lib schema predicate ctx) input.ending input.rows

def indexAll (row : Row) : List Nat → Outcome ExecError Row
  | [] => .ok []
  | i :: indices =>
      (Outcome.unwrap row[i]?).bind fun v => (indexAll row indices).bind fun vs => .ok (v :: vs)

def project (indices : List Nat) (input : Rows) : Rows :=
  collect (fun row => (indexAll row indices).bind fun out => .ok (some out)) input.ending input.rows

def evalAll (schema : TableSchema) (ctx : ExecutionContext) (row : Row) :
    List Expr → Outcome ExecError Row
  | [] => .ok []
  | e :: exprs =>
      (evalInto lib schema ctx row e).bind fun v =>
        (evalAll schema ctx row exprs).bind fun vs => .ok (v :: vs)

def projectExpr (schema : TableSchema) (exprs : List Expr) (ctx : ExecutionContext)
    (input : Rows) : Rows :=
  collect (fun row => (evalAll lib schema ctx row exprs).bind fun out => .ok (some out))
    input.ending input.rows

/-- The comparison of two rows; `none` is a panic. -/
def sortCmp (keyIndex : Nat) (descending : Bool) (a b : Row) : Option Ordering := do
  let x ← a[keyIndex]?
  let y ← b[keyIndex]?
  let ord ← sqlCmpNullable x y
  return if descending then ord.swap else ord

/-- A sort compares each two rows at least indirectly, and is stable. -/
def sortRows (keyIndex : Nat) (descending : Bool) (rows : List Row) : Outcome ExecError (List Row) :=
  if rows.length < 2 then .ok rows
  else if rows.all fun a => rows.all fun b => (sortCmp keyIndex descending a b).isSome then
    .ok (rows.insertionSort fun a b => sortCmp keyIndex descending a b ≠ some .gt)
  else .stop .panic

def sort (keyIndex : Nat) (descending : Bool) (input : Rows) : Rows :=
  .ofOutcome (input.outcome.bind (sortRows keyIndex descending))

def limit (n : Int64) (input : Rows) : Rows :=
  if n ≤ 0 then ⟨[], .ok ()⟩
  else if n.toInt.toNat ≤ input.rows.length then ⟨input.rows.take n.toInt.toNat, .ok ()⟩
  else input

/-! ## Joins -/

/-- An error of the condition counts as no match. -/
def joinMatches (schema : TableSchema) (condition : Option Expr) (combined : Row) :
    Outcome ExecError (Option Row) :=
  match condition with
  | none => .ok (some combined)
  | some cond =>
      match eval lib schema combined cond with
      | .ok v => .ok (if isTruthy v then some combined else none)
      | .error _ => .ok none
      | .stop why => .stop why

def joinRow (rightRows : List Row) (rightLen : Nat) (joinType : JoinType) (condition : Option Expr)
    (schema : TableSchema) (left : Row) : Rows :=
  let found := collect (fun right => joinMatches lib schema condition (left ++ right)) (.ok ())
    rightRows
  match joinType, found with
  | .left, ⟨[], .ok ()⟩ => ⟨[left ++ List.replicate rightLen .null], .ok ()⟩
  | _, found => found

/-- The rows on the right are read first. -/
def nestedLoopJoin (rightLen : Nat) (joinType : JoinType) (condition : Option Expr)
    (schema : TableSchema) (left right : Rows) : Rows :=
  match right.outcome with
  | .ok rightRows =>
      collectMany (joinRow lib rightRows rightLen joinType condition schema) left.ending left.rows
  | .error reason => ⟨[], .error reason⟩
  | .stop why => ⟨[], .stop why⟩

end Operators

end ChocoBase.Plan
