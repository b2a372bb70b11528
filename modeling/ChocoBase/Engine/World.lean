import ChocoBase.Catalog.Catalog

/-!
# Worlds to read from

A statement that only reads leaves everything as it is, so that each of its requests
is answered the same every time.  A world is these answers.  Programs are read in it as
plain functions, and `ofDatabase` is the world as a database stands.
-/

namespace ChocoBase.Engine

open ChocoBase.Foundation ChocoBase.Storage ChocoBase.BTree

abbrev World : Type := (op : DbRequest) → Outcome BTreeError op.Res

namespace World

def handler (w : World) : Handler dbRequests Unit := fun op s => (w op, s)

def ofDatabase (env : Environment) (d : Database) : World := fun op => (Database.answer env op d).1

section Outcomes

variable {ε ε' α β : Type} (w : World)

def outcome (x : DbProg ε α) : Outcome ε α := (x.run w.handler ()).1

@[simp] theorem outcome_pure (a : α) : w.outcome (pure a : DbProg ε α) = .ok a := rfl

@[simp] theorem outcome_throw (e : ε) : w.outcome (.throw e : DbProg ε α) = .error e := rfl

@[simp] theorem outcome_halt (why : Stop) : w.outcome (.halt why : DbProg ε α) = .stop why := rfl

@[simp] theorem outcome_ofOutcome (o : Outcome ε α) : w.outcome (.ofOutcome o) = o := by
  cases o <;> rfl

@[simp] theorem outcome_bind (x : DbProg ε α) (f : α → DbProg ε β) :
    w.outcome (x >>= f) = (w.outcome x).bind fun a => w.outcome (f a) := by
  unfold outcome
  rw [Prog.run_bind, Exec.bind_apply]
  rcases x.run w.handler () with ⟨a | reason | why, ⟨⟩⟩ <;> rfl

theorem outcome_bind_ok {x : DbProg ε α} {f : α → DbProg ε β} {b : β} :
    w.outcome (x >>= f) = .ok b ↔ ∃ a, w.outcome x = .ok a ∧ w.outcome (f a) = .ok b := by
  rw [outcome_bind]
  exact Outcome.bind_eq_ok

@[simp] theorem outcome_mapError (convert : ε' → ε) (x : DbProg ε' α) :
    w.outcome (x.mapError convert) = (w.outcome x).mapError convert := by
  unfold outcome
  induction x with
  | pure a => rfl
  | throw reason => rfl
  | halt why => rfl
  | call op next ih =>
      simp only [Prog.mapError, Prog.run]
      rcases w.handler op () with ⟨a | reason | why, ⟨⟩⟩
      · exact ih _
      · exact ih _
      · rfl

/-- The program returns in the world, with a value that passes a test. -/
def returns (x : DbProg ε α) (test : α → Bool) : Bool :=
  match w.outcome x with
  | .ok a => test a
  | _ => false

variable {w} in
theorem exists_of_returns {x : DbProg ε α} {test : α → Bool} (h : w.returns x test = true) :
    ∃ a, w.outcome x = .ok a ∧ test a = true := by
  unfold returns at h
  cases hx : w.outcome x with
  | ok a => exact ⟨a, rfl, by simpa [hx] using h⟩
  | error reason => simp [hx] at h
  | stop why => simp [hx] at h

end Outcomes

end World

end ChocoBase.Engine
