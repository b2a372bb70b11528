import ChocoBase.Engine.Execute
import ChocoBase.Storage.Phases

/-!
# Requests that open and close a transaction

Every other request leaves an open transaction open, and opens none.
-/

namespace ChocoBase.Foundation.Prog

variable {I : Interface} {σ γ ε α : Type} {H : Handler I σ} {view : σ → γ} {P : I.Op → Prop}

open Exec (Preserves)

/-- What all its requests leave alone, a program leaves alone. -/
theorem Only.run_preserves {x : Prog I ε α} (h : x.Only P) (hH : ∀ op, P op → Preserves view (H op)) :
    Preserves view (x.run H) := by
  induction x with
  | pure value => exact .pure value
  | throw reason => exact .throw reason
  | halt why => exact .halt why
  | call op next ih =>
      intro s
      have hop := hH op h.1 s
      simp only [run]
      rcases hrun : H op s with ⟨value | reason | why, s'⟩ <;> rw [hrun] at hop
      · exact (ih _ (h.2 _) s').trans hop
      · exact (ih _ (h.2 _) s').trans hop
      · exact hop

theorem only_true (x : Prog I ε α) : x.Only fun _ => True := by
  induction x with
  | pure value => trivial
  | throw reason => trivial
  | halt why => trivial
  | call op next ih => exact ⟨trivial, fun r => ih r⟩

end ChocoBase.Foundation.Prog

namespace ChocoBase.Engine

open ChocoBase.Foundation ChocoBase.Storage ChocoBase.BTree ChocoBase.Catalog
open Exec (Preserves)

/-- Whether a transaction is open. -/
def Database.isOpen (d : Database) : Bool := d.pager.inTransaction

/-- The requests that open and close transactions. -/
def DbRequest.Moves : DbRequest → Bool
  | .beginTransaction | .commitTransaction | .rollbackTransaction => true
  | _ => false

variable {α : Type}

theorem onPager_inPhase (op : PageRequest) : Pager.InPhase (PageRequest.onPager op) := by
  cases op with
  | getPage no => exact Pager.getPage_inPhase no
  | encodeInto no node => exact Pager.getPageMut_inPhase no _
  | allocatePage => exact Pager.allocatePage_inPhase
  | freePage no => exact Pager.freePage_inPhase no
  | catalogRoot => exact Pager.catalogRoot_inPhase
  | setCatalogRoot root => exact Pager.setCatalogRoot_inPhase root

theorem run_inPhase {ε : Type} (x : PageProg ε α) :
    Preserves Pager.inTransaction (x.run PageRequest.onPager) :=
  x.only_true.run_preserves fun op _ => onPager_inPhase op

theorem drain_inPhase (fuel : Nat) (cursor : Cursor) :
    Preserves Pager.inTransaction (drain fuel cursor) := by
  induction fuel generalizing cursor with
  | zero => exact .pure _
  | succ fuel ih =>
      refine Preserves.bind (.capture (run_inPhase _)) fun result => ?_
      rcases result with (⟨_ | entry, cursor⟩ | reason | why)
      · exact .pure _
      · exact (ih cursor).bind fun _ => .pure _
      · exact .pure _
      · exact .pure _

theorem scanWith_inPhase (start : PageProg BTreeError Cursor) :
    Preserves Pager.inTransaction (scanWith start) := by
  refine Preserves.bind (.capture (run_inPhase _)) fun result => ?_
  cases result with
  | ok cursor => exact drain_inPhase _ cursor
  | error reason => exact .pure _
  | stop why => exact .pure _

namespace Database

theorem onPager_isOpen {ε : Type} {x : Exec Pager ε α} (h : Preserves Pager.inTransaction x) :
    Preserves isOpen (onPager x) := fun d => h d.pager

theorem onStorage_isOpen {x : Exec Pager StorageError α} (h : Pager.InPhase x) :
    Preserves isOpen (onStorage x) := fun d => h d.pager

theorem answer_isOpen (env : Environment) {op : DbRequest} (hop : op.Moves = false) :
    Preserves isOpen (answer env op) := by
  cases op with
  | beginTransaction | commitTransaction | rollbackTransaction => cases hop
  | createTree => exact onPager_isOpen (run_inPhase _)
  | insert root key payload => exact onPager_isOpen (run_inPhase _)
  | delete root key => exact onPager_isOpen (run_inPhase _)
  | search root key => exact onPager_isOpen (run_inPhase _)
  | scan root => exact onPager_isOpen (scanWith_inPhase _)
  | scanFrom root key => exact onPager_isOpen (scanWith_inPhase _)
  | walkAndFree root => exact onPager_isOpen (run_inPhase _)
  | catalogRoot => exact onStorage_isOpen Pager.catalogRoot_inPhase
  | setCatalogRoot root => exact onStorage_isOpen (Pager.setCatalogRoot_inPhase root)
  | flush => exact onStorage_isOpen Pager.flush_inPhase
  | publishEvents | sendEvent event => intro d; simp only [answer]; split <;> rfl
  | _ => exact fun _ => rfl

end Database

/-- A program without these requests. -/
abbrev Settled {ε : Type} (x : DbProg ε α) : Prop :=
  x.Only fun op : DbRequest => op.Moves = false

theorem Settled.isOpen {ε : Type} {x : DbProg ε α} (h : Settled x) (env : Environment) :
    Preserves Database.isOpen (x.run (Database.answer env)) :=
  h.run_preserves fun _ hop => Database.answer_isOpen env hop

theorem settled_ask {ε : Type} {convert : BTreeError → ε} {op : DbRequest} (hop : op.Moves = false) :
    Settled (ask convert op) := Prog.only_request hop

theorem settled_bootstrap : Settled bootstrap := by
  refine .bind (settled_ask rfl) fun stored => ?_
  simp only
  split
  · exact .bind (settled_ask rfl) fun _ => .bind (settled_ask rfl) fun _ =>
      .bind (settled_ask rfl) fun _ => settled_ask rfl
  · exact .bind (settled_ask rfl) fun _ => settled_ask rfl

namespace Database

variable (lib : Sql.Library) (ctx : Auth.ExecutionContext) (env : Environment)

theorem run_inTransaction (d : Database) :
    inTransaction.run (answer env) d = (.ok d.isOpen, d) := rfl

/-- A `ROLLBACK` opens nothing. -/
theorem execute_rollback_opens_nothing {d : Database} (hclosed : d.isOpen = false) (fuel : Nat) :
    (execute lib ctx env fuel .rollback d).2.isOpen = false := by
  cases fuel with
  | zero => exact hclosed
  | succ fuel =>
      have hrun : execute lib ctx env (fuel + 1) .rollback d =
          (.error (.plan .noTransactionInProgress), d) := by
        simp only [execute, executeStatement, executeRollback, Prog.run_bind,
          Exec.bind_ok (run_inTransaction env d), hclosed]
        rfl
      rw [hrun]
      exact hclosed

/-- Once the pager has rolled back, nothing opens a transaction again. -/
theorem execute_rollback_closes {d : Database} (h : d.pager.canRollBack = true) (fuel : Nat) :
    (execute lib ctx env (fuel + 1) .rollback d).2.isOpen = false := by
  cases hopen : d.isOpen with
  | false => exact execute_rollback_opens_nothing lib ctx env hopen _
  | true =>
      obtain ⟨p', hrollback, hclosed⟩ := Pager.rollbackTransaction_closes h
      have hanswer : answer env .rollbackTransaction { d with transactionEvents := [] } =
          (.ok (), { d with pager := p', transactionEvents := [] }) := by
        have hpager : onStorage Pager.rollbackTransaction { d with transactionEvents := [] } =
            (.ok (), { d with pager := p', transactionEvents := [] }) := by
          simp [onStorage, onPager, Exec.zoom, hrollback, Outcome.mapError]
        exact hpager
      have hrest : Settled (bootstrap >>= fun _ => (return .ok : DbProg DbError ExecResult)) :=
        settled_bootstrap.bind fun _ => trivial
      have hrun : execute lib ctx env (fuel + 1) .rollback d =
          (bootstrap >>= fun _ => (return .ok : DbProg DbError ExecResult)).run (answer env)
            { d with pager := p', transactionEvents := [] } := by
        have hask : executeRollback.run (answer env) d =
            (if d.isOpen = true then do
                ask fromPager .clearEvents
                ask fromPager .rollbackTransaction
                bootstrap
                return .ok
              else Prog.throw (.plan .noTransactionInProgress)).run (answer env) d :=
          Prog.run_request_bind rfl _
        rw [hopen, if_pos rfl] at hask
        exact hask.trans ((Prog.run_request_bind rfl _).trans (Prog.run_request_bind hanswer _))
      rw [hrun, hrest.isOpen env]
      exact hclosed

end Database

end ChocoBase.Engine
