import ChocoBase.Concurrency.LockManager
import ChocoBase.Engine.Execute
import ChocoBase.Sql.Parser

/-!
# Clones of one database

The clones of a database share its storage and its locks; each keeps the token of
a transaction of its own.  A statement runs while nobody else runs one.
-/

namespace ChocoBase.Server

open ChocoBase.Foundation ChocoBase.Concurrency ChocoBase.Engine ChocoBase.Sql ChocoBase.Types
  ChocoBase.Auth

/-- What a server gets from its libraries and from the system. -/
structure Host where
  text : TextLibrary
  lib : Library
  /-- the derived `Debug` of a token -/
  debugToken : Token → String
  /-- the derived `Debug` of a `Vec<f32>` -/
  debugVector : List Float32 → String
  /-- `f64::to_string` -/
  floatText : Float → String
  /-- `String::from_utf8_lossy` -/
  lossy : List UInt8 → String
  env : Environment
  /-- how deep subqueries may nest -/
  depth : Nat

/-- The parse errors are among the errors of the source's `DbError`. -/
inductive QueryError where
  | parse (e : ParseError)
  | db (e : DbError)
  deriving DecidableEq

def QueryError.text (ioText : IoErrorKind → String) : QueryError → String
  | .parse e => "parse error at byte " ++ toString e.offset ++ ": " ++ e.message
  | .db e => e.text ioText

structure SharedDatabase where
  db : Database
  owners : Owners
  nextTx : TxId
  /-- the token that this clone keeps -/
  transaction : Option TxId

namespace SharedDatabase

abbrev Action (α : Type) : Type := Exec SharedDatabase QueryError α

def onDatabase {α : Type} (x : Exec Database DbError α) : Action α := fun s =>
  (((x s.db).1).mapError .db, { s with db := (x s.db).2 })

/-- `locks.begin()` -/
def beginToken : Action TxId := fun s =>
  (.ok s.nextTx, { s with nextTx := s.nextTx + 1 })

/-- `token.shared("database")` or `token.exclusive("database")`; a timeout is ignored. -/
def acquire (tx : TxId) (mode : LockMode) : Action Unit := fun s =>
  (.ok (), { s with
    owners := if LockManager.compatible s.owners tx "database" mode then
        LockManager.grant s.owners tx "database" mode
      else s.owners })

/-- Drop a token. -/
def release (tx : Option TxId) (s : SharedDatabase) : SharedDatabase :=
  match tx with
  | some tx => { s with owners := LockManager.releaseAll s.owners tx }
  | none => s

/-- A computation at whose end the token is dropped. -/
def dropping {α : Type} (tx : Option TxId) (x : Action α) : Action α := fun s =>
  ((x s).1, release tx (x s).2)

def takeTransaction : Action (Option TxId) := fun s =>
  (.ok s.transaction, { s with transaction := none })

/-- The token takes the place of the one kept before. -/
def keepTransaction (tx : TxId) : Action Unit := fun s =>
  (.ok (), release s.transaction { s with transaction := some tx })

section Statements

variable (host : Host)

def run (ctx : ExecutionContext) (stmt : Statement) : Action ExecResult :=
  onDatabase (Database.execute host.lib ctx host.env (host.depth + 1) stmt)

def runBegin (ctx : ExecutionContext) : Action ExecResult := do
  let token ← beginToken
  acquire token .exclusive
  match ← Exec.capture (run host ctx .begin) with
  | .ok result => do
      keepTransaction token
      return result
  | .error e => dropping (some token) (.throw e)
  | .stop why => dropping (some token) (.halt why)

/-- `COMMIT` and `ROLLBACK` give up the token, also where they fail. -/
def runEnd (ctx : ExecutionContext) (stmt : Statement) : Action ExecResult := do
  let token ← takeTransaction
  dropping token (run host ctx stmt)

/-- In the transaction of the clone, or with a token for this statement. -/
def runLocked (mode : LockMode) (ctx : ExecutionContext) (stmt : Statement) :
    Action ExecResult := do
  let s ← Exec.get
  if s.transaction.isSome then run host ctx stmt
  else
    let token ← beginToken
    acquire token mode
    dropping (some token) (run host ctx stmt)

def executeStatement (ctx : ExecutionContext) (stmt : Statement) : Action ExecResult :=
  match stmt with
  | .begin => runBegin host ctx
  | .commit | .rollback => runEnd host ctx stmt
  | .select .. => runLocked host .shared ctx stmt
  | _ => runLocked host .exclusive ctx stmt

def executeWithContext (sql : String) (ctx : ExecutionContext) : Action ExecResult := fun s =>
  match parse host.text host.debugToken sql with
  | .ok stmt => executeStatement host ctx stmt s
  | .error e => (.error (.parse e), s)
  | .stop why => (.stop why, s)

/-- The error of the `ROLLBACK` is ignored. -/
def rollbackOnDisconnect : Action Unit := do
  match ← takeTransaction with
  | none => return ()
  | some token =>
      dropping (some token) do
        let _ ← ((run host .admin .rollback).attempt : Action (Except QueryError ExecResult))
        return ()

/-- An error is taken for a table that does not exist. -/
def tableSchema (name : String) : Action (Option TableSchema) := do
  let found : Except QueryError (Option TableSchema) ←
    (onDatabase ((Catalog.getTable name).run (Database.answer host.env))).attempt
  return found.toOption.join

end Statements

/-! ## What a clone keeps of the locks -/

section Locks

variable {host : Host} {d d' : SharedDatabase}

/-- A lock of another token than the kept ones stays, and the clone takes none but its own. -/
def Keeps (d d' : SharedDatabase) : Prop :=
  ∀ resource, ∀ e ∈ d'.owners resource, d'.transaction = some e.1 ∨
    e ∈ d.owners resource ∧ d.transaction ≠ some e.1

theorem Keeps.of_eq (howners : d'.owners = d.owners) (htransaction : d'.transaction = d.transaction) :
    Keeps d d' := by
  intro resource e he
  rw [howners] at he
  rw [htransaction]
  by_cases hown : d.transaction = some e.1
  · exact .inl hown
  · exact .inr ⟨he, hown⟩

theorem mem_release {tx : Option TxId} {resource : String} {e : TxId × LockMode} :
    e ∈ (release tx d).owners resource ↔ e ∈ d.owners resource ∧ tx ≠ some e.1 := by
  cases tx with
  | none => simp [release]
  | some tx => simp [release, LockManager.mem_releaseAll, eq_comm]

theorem release_transaction (tx : Option TxId) : (release tx d).transaction = d.transaction := by
  cases tx <;> rfl

theorem mem_acquire {tx : TxId} {mode : LockMode} {resource : String} {e : TxId × LockMode}
    (h : e ∈ (acquire tx mode d).2.owners resource) : e ∈ d.owners resource ∨ e.1 = tx := by
  simp only [acquire] at h
  split at h
  · rcases LockManager.mem_grant.mp h with h | ⟨-, rfl⟩
    · exact .inl h
    · exact .inr rfl
  · exact .inl h

/-- A token for one statement leaves nothing behind. -/
theorem Keeps.of_token {tx : TxId} {mode : LockMode} {d₁ : SharedDatabase}
    (howners : d₁.owners = (acquire tx mode { d with nextTx := d.nextTx + 1 }).2.owners)
    (htransaction : d₁.transaction = d.transaction) : Keeps d (release (some tx) d₁) := by
  intro resource e he
  obtain ⟨he, htx⟩ := mem_release.mp he
  rw [howners] at he
  rw [release_transaction, htransaction]
  by_cases hown : d.transaction = some e.1
  · exact .inl hown
  · refine .inr ⟨(mem_acquire he).resolve_right fun heq => ?_, hown⟩
    exact htx (congrArg some heq.symm)

theorem run_owners (ctx : ExecutionContext) (stmt : Statement) :
    (run host ctx stmt d).2.owners = d.owners := rfl

theorem run_transaction (ctx : ExecutionContext) (stmt : Statement) :
    (run host ctx stmt d).2.transaction = d.transaction := rfl

theorem runBegin_keeps (ctx : ExecutionContext) : Keeps d (runBegin host ctx d).2 := by
  let d₂ := (acquire d.nextTx .exclusive { d with nextTx := d.nextTx + 1 }).2
  have hrun : runBegin host ctx d =
      (match (run host ctx .begin d₂).1 with
      | .ok result => do
          keepTransaction d.nextTx
          return result
      | .error e => dropping (some d.nextTx) (.throw e)
      | .stop why => dropping (some d.nextTx) (.halt why) : Action ExecResult)
        (run host ctx .begin d₂).2 := rfl
  rw [hrun]
  cases (run host ctx .begin d₂).1 with
  | ok result =>
      intro resource e he
      obtain ⟨he, htx⟩ := mem_release.mp he
      rcases mem_acquire he with he | heq
      · exact .inr ⟨he, htx⟩
      · left
        rw [heq]
        exact release_transaction _
  | error e => exact .of_token rfl rfl
  | stop why => exact .of_token rfl rfl

theorem runEnd_keeps (ctx : ExecutionContext) (stmt : Statement) :
    Keeps d (runEnd host ctx stmt d).2 := by
  intro resource e he
  obtain ⟨he, htx⟩ := mem_release.mp he
  exact .inr ⟨he, htx⟩

theorem runLocked_keeps (mode : LockMode) (ctx : ExecutionContext) (stmt : Statement) :
    Keeps d (runLocked host mode ctx stmt d).2 := by
  have hrun : runLocked host mode ctx stmt d =
      (if d.transaction.isSome then run host ctx stmt
      else do
        let token ← beginToken
        acquire token mode
        dropping (some token) (run host ctx stmt) : Action ExecResult) d := rfl
  rw [hrun]
  split
  · exact .of_eq rfl rfl
  · exact .of_token rfl rfl

theorem executeWithContext_keeps (sql : String) (ctx : ExecutionContext) :
    Keeps d (executeWithContext host sql ctx d).2 := by
  unfold executeWithContext
  split
  · next stmt hparse =>
      cases stmt
      case begin => exact runBegin_keeps ctx
      case commit => exact runEnd_keeps ctx _
      case rollback => exact runEnd_keeps ctx _
      all_goals exact runLocked_keeps _ ctx _
  · exact .of_eq rfl rfl
  · exact .of_eq rfl rfl

theorem ignored_state {α : Type} (x : Action α) (s : SharedDatabase) :
    ((do
      let _ ← (x.attempt : Action (Except QueryError α))
      return () : Action Unit) s).2 = (x s).2 := by
  rw [Exec.bind_apply, Exec.attempt]
  rcases x s with ⟨_ | _ | _, s'⟩ <;> rfl

theorem attempt_keeps {α : Type} {x : Action α} (h : Keeps d (x d).2) :
    Keeps d ((x.attempt : Action (Except QueryError α)) d).2 := by
  rw [Exec.attempt]
  rcases hx : x d with ⟨_ | _ | _, d'⟩ <;> rw [hx] at h <;> exact h

theorem tableSchema_keeps (name : String) : Keeps d (tableSchema host name d).2 := by
  have hlookup : Keeps d
      (onDatabase ((Catalog.getTable name).run (Database.answer host.env)) d).2 := .of_eq rfl rfl
  revert hlookup
  rw [tableSchema, Exec.bind_apply, Exec.attempt]
  rcases onDatabase ((Catalog.getTable name).run (Database.answer host.env)) d with
    ⟨_ | _ | _, d'⟩ <;> exact fun h => h

theorem rollbackOnDisconnect_none (h : d.transaction = none) :
    rollbackOnDisconnect host d = (.ok (), d) := by
  rcases d with ⟨db, owners, nextTx, transaction⟩
  obtain rfl : transaction = none := h
  rfl

theorem rollbackOnDisconnect_some {tx : TxId} (h : d.transaction = some tx) :
    (rollbackOnDisconnect host d).2 = release (some tx) { d with
      transaction := none
      db := (Database.execute host.lib .admin host.env (host.depth + 1) .rollback d.db).2 } := by
  rcases d with ⟨db, owners, nextTx, transaction⟩
  obtain rfl : transaction = some tx := h
  exact congrArg (release (some tx)) (ignored_state (run host .admin .rollback) _)

theorem rollbackOnDisconnect_keeps : Keeps d (rollbackOnDisconnect host d).2 := by
  cases h : d.transaction with
  | none =>
      rw [rollbackOnDisconnect_none h]
      exact .of_eq rfl rfl
  | some tx =>
      rw [rollbackOnDisconnect_some h]
      intro resource e he
      obtain ⟨he, htx⟩ := mem_release.mp he
      exact .inr ⟨he, h ▸ htx⟩


end Locks

end SharedDatabase

end ChocoBase.Server
