import ChocoBase.Engine.Definitions
import ChocoBase.Engine.Describes

/-!
# Runs of statements

What a database stands for: a dictionary, and in a transaction the one that a
`ROLLBACK` brings back.  A statement that succeeds moves this state as `Held.after`
says; one that fails outside of a transaction leaves it alone.
-/

namespace ChocoBase.Engine

open ChocoBase.Foundation ChocoBase.Storage ChocoBase.BTree ChocoBase.Sql ChocoBase.Types
  ChocoBase.Auth ChocoBase.Catalog ChocoBase.Plan

/-! ## One statement in a transaction -/

/-- What a statement asks for is asked by queries. -/
def Plain : Statement → Prop
  | .update _ _ whereClause _ => Asking whereClause
  | .delete _ whereClause _ => Asking whereClause
  | .select columns table tableRef whereClause groupBy having orderBy limit =>
      Query (.select columns table tableRef whereClause groupBy having orderBy limit)
  | _ => True

section Mutating

variable {lib : Library} {ctx : ExecutionContext} {f : Forest} {cat : OrdMap Bytes Bytes}
  {lay : Layout} {stmt : Statement}

theorem does_done {x : DbProg DbError Unit} {P : Forest → Prop}
    (hx : Does f x (fun _ f' => P f') fun _ => True) : Does f (done x) (fun _ f' => P f') fun _ => True :=
  Does.seq hx fun _ _ _ h => does_pure h

theorem does_executeMutating (h : Sound lib ∅ f cat lay) (hplain : Unforced lib cat ctx)
    (hactive : f.atBegin.isSome) {execute : Statement → DbProg DbError ExecResult}
    (hexecute : ∀ stmt, Query stmt → Peeks f (execute stmt)) (hstmt : Plain stmt) :
    Does f (executeMutating lib ctx execute stmt) (fun _ f' => Kept lib cat stmt f')
      fun _ => True := by
  cases stmt with
  | createTable name columns => exact does_executeCreateTable h name columns
  | dropTable name => exact does_done (does_dropTable h name)
  | createIndex name table column => exact does_executeCreateIndex h name table column
  | dropIndex name => exact does_done (does_dropIndex h name)
  | insert table columns rows returning =>
      refine (does_executeInsert h hactive).mono ?_ fun _ _ => trivial
      rintro _ f' - ⟨_, _, _, _, _, _, -, -, -, -, hrewritten⟩
      exact hrewritten.kept rfl
  | delete table whereClause returning => exact does_executeDelete h hplain hactive hexecute hstmt
  | update table assignments whereClause returning =>
      exact does_executeUpdate h hplain hactive hexecute hstmt
  | createUser username password role => exact does_executeCreateUser h username password role
  | alterTableRls table enabled => exact does_done (does_setTableRls h table enabled)
  | alterTableAddColumn table column => exact does_executeAlterTableAddColumn h table column
  | alterTableDropColumn table column => exact does_executeAlterTableDropColumn h table column
  | alterTableRename table newName => exact does_done (does_renameTable h table newName)
  | createPolicy name table cmd usingExpr withCheck =>
      exact does_done (does_createPolicy h ⟨name, table, cmd, usingExpr, withCheck⟩)
  | dropPolicy name table => exact does_done (does_dropPolicy h name table)
  | select columns table tableRef whereClause groupBy having orderBy limit => trivial
  | begin => trivial
  | commit => trivial
  | rollback => trivial
  | explain inner => trivial

end Mutating

/-! ## A transaction for one statement -/

/-- An automatic commit that goes well. -/
def committing (x : DbProg DbError ExecResult) : DbProg DbError ExecResult := do
  ask fromPager .beginTransaction
  let res ← x
  ask fromPager .commitTransaction
  ask fromPager .publishEvents
  return res

section Committing

variable {x : DbProg DbError ExecResult} {d d' : Database} {res : ExecResult}
  {H : Handler dbRequests Database}

theorem run_committing (h : (autoCommit x).run H d = (.ok res, d')) :
    (committing x).run H d = (.ok res, d') := by
  obtain ⟨_, d₁, hbegin, h, -⟩ := Prog.exists_of_bind_ok h
  obtain ⟨result, d₂, hx, h, -⟩ := Prog.exists_of_bind_ok h
  refine (Prog.run_bind_ok hbegin).trans ?_
  cases result with
  | ok res' => exact (Prog.run_bind_ok (Prog.run_attempt_ok hx)).trans h
  | error reason =>
      obtain ⟨_, d₃, -, h, -⟩ := Prog.exists_of_bind_ok h
      obtain ⟨_, d₄, -, h, -⟩ := Prog.exists_of_bind_ok h
      obtain ⟨_, d₅, -, h, -⟩ := Prog.exists_of_bind_ok h
      cases h

theorem along_committing {allowed : DbRequest → Database → Prop}
    (h : (autoCommit x).Along H allowed d) : (committing x).Along H allowed d := by
  obtain ⟨hbegin, h⟩ := Prog.along_bind.mp h
  refine Prog.along_bind.mpr ⟨hbegin, fun u d₁ hrun => ?_⟩
  obtain ⟨hx, h⟩ := Prog.along_bind.mp (h u d₁ hrun)
  refine Prog.along_bind.mpr ⟨Prog.along_attempt.mp hx, fun res d₂ hrun => ?_⟩
  exact h (.ok res) d₂ (by rw [Prog.run_attempt, Exec.attempt, hrun])

variable {f : Forest} {cat : OrdMap Bytes Bytes} {lay : Layout} {P : ExecResult → Forest → Prop}
  {E : DbError → Prop}

/-- The trees are the same, and nothing is left to do for a commit. -/
structure Closed (f f' : Forest) : Prop where
  now : f'.now = f.now
  root : f'.root = f.root
  idle : f'.atBegin = none
  clean : f'.clean = true

/-- Loading the catalog that the trees have. -/
theorem does_bootstrap (h : Laid f.now.roots (withCatalog f.now.catalogRoot cat lay)) :
    Does f bootstrap (fun _ f' => f' = { f with root := f.now.catalogRoot }) fun _ => False := by
  have hroot : f.now.catalogRoot ≠ 0 := (h.planted none _ _ rfl).2
  have hcatalogRoot : Looks f (ask fromPager .catalogRoot) (fun root => root = f.now.catalogRoot)
      fun _ => False := by
    refine ⟨trivial, ?_, fun _ _ hfalse => hfalse.elim, fun _ _ _ => trivial⟩
    rintro root f' ⟨rfl, hstored⟩
    exact ⟨.refl _, rfl, hstored⟩
  have hload : Does f (do
      let root : PageNo ← ask fromPager .catalogRoot
      ask fromPager (.setRoot root)) (fun _ f' => f' = { f with root := f.now.catalogRoot })
      fun _ => False := by
    refine Looks.seq hcatalogRoot ?_
    rintro _ rfl
    refine ⟨trivial, ?_, fun _ _ hfalse => hfalse.elim, fun _ _ _ => trivial⟩
    rintro _ f' rfl
    exact ⟨⟨_, _, _, [], by rw [List.append_nil]⟩, rfl⟩
  refine Looks.seq hcatalogRoot ?_
  rintro _ rfl
  rw [if_neg hroot]
  exact hload

theorem sure_begin {g : Unit → DbProg DbError ExecResult} {Q : Exec.Post Forest DbError ExecResult}
    (hidle : f.atBegin = none)
    (hg : (g ()).sure (forestContract false) Q { f with atBegin := some f.saved }) :
    (ask fromPager .beginTransaction >>= g).sure (forestContract false) Q f := by
  refine (Prog.sure_bind _ _ _ _).mpr ⟨hidle, ?_, fun _ _ hfalse => hfalse.elim,
    fun _ _ hfalse => hfalse.elim⟩
  rintro _ f' rfl
  exact hg

/-- The end of an automatic commit. -/
theorem sure_commit {Q : Exec.Post Forest DbError ExecResult} {f₁ : Forest}
    (hactive : f₁.atBegin ≠ none) (hQ : ∀ f', Closed f₁ f' → Q.ok res f') :
    (do ask fromPager .commitTransaction; ask fromPager .publishEvents; return res :
      DbProg DbError ExecResult).sure (forestContract false) Q f₁ := by
  refine ⟨hactive, ?_, fun _ _ hfalse => hfalse.elim, fun _ _ hfalse => hfalse.elim⟩
  rintro _ f₂ rfl
  refine ⟨trivial, ?_, fun _ _ hfalse => hfalse.elim, fun _ _ hfalse => hfalse.elim⟩
  rintro _ f₃ rfl
  refine hQ _ ?_
  split <;> exact ⟨rfl, rfl, rfl, rfl⟩

theorem sure_committing (hidle : f.atBegin = none)
    (hx : Does { f with atBegin := some f.saved } x P fun _ => True) :
    (committing x).sure (forestContract false)
      ⟨fun res f' => ∃ f₁, P res f₁ ∧ Closed f₁ f', fun _ _ => True, fun _ _ => True⟩ f := by
  refine sure_begin hidle ?_
  refine Prog.sure_seq hx ?_ (fun _ _ _ => trivial) fun _ _ _ => trivial
  rintro res f₁ ⟨hworking, hP⟩
  refine sure_commit ?_ fun f' hclosed => ⟨f₁, hP, hclosed⟩
  rw [hworking.atBegin]
  exact Option.some_ne_none _

/-- The error path of an automatic commit goes back to where the transaction began. -/
theorem sure_undo {f₁ : Forest} {e : DbError} (h : Housed f cat lay)
    (hsaved : f₁.atBegin = some (some f.now)) (he : E e) :
    (do
      ask fromPager .clearEvents
      let _ ← ignored (ask fromPager .rollbackTransaction)
      let _ ← ignored bootstrap
      Prog.throw e : DbProg DbError ExecResult).sure (forestContract false)
      ⟨fun _ _ => False, fun e f' => E e ∧ Closed f f', fun _ _ => True⟩ f₁ := by
  refine (Prog.sure_bind _ _ _ _).mpr ⟨trivial, ?_, fun _ _ hfalse => hfalse.elim,
    fun _ _ hfalse => hfalse.elim⟩
  rintro _ f₂ rfl
  refine (Prog.sure_bind _ _ _ _).mpr ((Prog.sure_attempt _ _ _).mpr ?_)
  refine ⟨⟨f.now, hsaved⟩, ?_, fun _ _ hfalse => hfalse.elim, fun _ _ hfalse => hfalse.elim⟩
  rintro _ f₃ ⟨snap, hsnap, rfl⟩
  obtain rfl : snap = f.now := Option.some.inj (Option.some.inj (hsnap.symm.trans hsaved))
  have hlaid : Laid f.now.roots (withCatalog f.now.catalogRoot cat lay) := h.stored ▸ h.laid
  refine (Prog.sure_bind _ _ _ _).mpr ((Prog.sure_attempt _ _ _).mpr
    (Prog.sure_mono (does_bootstrap hlaid) ?_ (fun _ _ h => h.2.elim) fun _ _ h => h))
  rintro _ f₄ ⟨-, rfl⟩
  exact ⟨he, rfl, h.stored, rfl, rfl⟩

/-- From a database without dirty pages, a failure is undone. -/
theorem sure_autoCommit (h : Housed f cat lay) (hidle : f.atBegin = none) (hclean : f.clean = true)
    (hx : Does { f with atBegin := some f.saved } x P E) :
    (autoCommit x).sure (forestContract false)
      ⟨fun res f' => ∃ f₁, P res f₁ ∧ Closed f₁ f', fun e f' => E e ∧ Closed f f',
        fun _ _ => True⟩ f := by
  have hsaved : f.saved = some f.now := if_pos hclean
  refine sure_begin hidle ?_
  refine (Prog.sure_bind _ _ _ _).mpr ((Prog.sure_attempt _ _ _).mpr
    (Prog.sure_mono hx ?_ ?_ fun _ _ h => h))
  · rintro res f₁ ⟨hworking, hP⟩
    refine sure_commit ?_ fun f' hclosed => ⟨f₁, hP, hclosed⟩
    rw [hworking.atBegin]
    exact Option.some_ne_none _
  · rintro e f₁ ⟨hworking, he⟩
    refine Prog.sure_mono (sure_undo h ?_ he) (fun _ _ h => h.elim) (fun _ _ h => h) fun _ _ h => h
    rw [hworking.atBegin, hsaved]

end Committing

/-! ## What a database stands for -/

/-- A dictionary, and in a transaction the one that a rollback brings back. -/
structure Held where
  now : Dictionary
  saved : Option Dictionary

/-- What a successful statement makes of it. -/
def Held.after (lib : Library) (s : Held) : Statement → Option Held
  | .begin =>
      match s.saved with
      | none => some { s with saved := some s.now }
      | some _ => none
  | .commit => s.saved.map fun _ => { s with saved := none }
  | .rollback => s.saved.map fun saved => ⟨saved, none⟩
  | stmt => (s.now.after lib stmt).map fun now => { s with now }

/-- What the transaction goes back to. -/
inductive Restores (lib : Library) : Option (Option Snapshot) → Option Dictionary → Prop where
  | outside : Restores lib none none
  | inside {f : Forest} {cat : OrdMap Bytes Bytes} {lay : Layout} (h : Sound lib ∅ f cat lay) :
      Restores lib (some (some f.now)) (some (dictionary lib cat))

theorem Restores.idle_iff {lib : Library} {saved : Option (Option Snapshot)} {dict : Option Dictionary}
    (h : Restores lib saved dict) : saved = none ↔ dict = none := by
  cases h with
  | outside => exact ⟨fun _ => rfl, fun _ => rfl⟩
  | inside _ => exact ⟨fun h => (by cases h), fun h => (by cases h)⟩

structure Means (lib : Library) (f : Forest) (s : Held) : Prop where
  exists_sound : ∃ cat lay, Sound lib ∅ f cat lay ∧ s.now = dictionary lib cat
  restores : Restores lib f.atBegin s.saved

/-- The policies that restrict this user ask for nothing but queries. -/
def Held.Unforced (s : Held) (ctx : ExecutionContext) : Prop :=
  ctx.isAdmin = false → ∀ name policy, s.now.policies name = some policy → Asking policy.usingExpr

/-- The statements that change data. -/
def mutates : Statement → Bool
  | .select .. | .begin | .commit | .rollback | .explain _ => false
  | _ => true

section Execute

variable {lib : Library} {ctx : ExecutionContext} {f f' : Forest} {cat : OrdMap Bytes Bytes}
  {lay : Layout} {s : Held} {stmt : Statement} {fuel : Nat}

theorem unforced_of_held (h : Sound lib ∅ f cat lay) (hnow : s.now = dictionary lib cat)
    (hplain : s.Unforced ctx) : Unforced lib cat ctx := by
  intro hadmin policy hpolicy
  obtain ⟨name, hname⟩ := h.isPolicy_iff.mp hpolicy
  exact hplain hadmin name policy (by rw [hnow, hname])

theorem after_of_mutates (hmutates : mutates stmt = true) :
    s.after lib stmt = (s.now.after lib stmt).map fun now => { s with now } := by
  cases stmt <;> first | rfl | cases hmutates

theorem executeStatement_mutates (hmutates : mutates stmt = true) :
    executeStatement lib ctx (fuel + 1) stmt = (do
      if ← inTransaction then executeMutating lib ctx (executeStatement lib ctx fuel) stmt
      else autoCommit (executeMutating lib ctx (executeStatement lib ctx fuel) stmt)) := by
  cases stmt <;> first | rfl | cases hmutates

/-- Inside of a transaction. -/
theorem does_mutate (h : Sound lib ∅ f cat lay) (hnow : s.now = dictionary lib cat)
    (hplain : s.Unforced ctx) (hactive : f.atBegin.isSome) (hstmt : Plain stmt) (fuel : Nat) :
    Does f (executeMutating lib ctx (executeStatement lib ctx fuel) stmt)
      (fun _ f' => Kept lib cat stmt f') fun _ => True :=
  does_executeMutating h (unforced_of_held h hnow hplain) hactive
    (fun _ hquery => hquery.peeks h (unforced_of_held h hnow hplain)) hstmt

/-- What is kept by a statement is what the dictionary becomes. -/
theorem Kept.means {f₁ : Forest} (hmutates : mutates stmt = true) (hnow : s.now = dictionary lib cat)
    (hkept : Kept lib cat stmt f₁) (htrees : f'.now = f₁.now) (hroot : f'.root = f₁.root)
    (hrestores : Restores lib f'.atBegin s.saved) :
    ∃ s', s.after lib stmt = some s' ∧ Means lib f' s' := by
  obtain ⟨cat', lay', hsound, hafter⟩ := hkept
  refine ⟨{ s with now := dictionary lib cat' }, ?_, ⟨cat', lay', hsound.congr htrees hroot, rfl⟩,
    hrestores⟩
  rw [after_of_mutates hmutates, hnow, hafter]
  rfl

/-- What a statement does to a database without dirty pages, or in a transaction. -/
abbrev Follows (lib : Library) (s : Held) (stmt : Statement) (f : Forest)
    (x : DbProg DbError ExecResult) : Prop :=
  x.sure (forestContract false)
    ⟨fun _ f' => (∃ s', s.after lib stmt = some s' ∧ Means lib f' s') ∧
        (f'.atBegin = none → f'.clean = true),
      fun _ f' => f.atBegin = none → Means lib f' s ∧ f'.atBegin = none ∧ f'.clean = true,
      fun _ _ => True⟩ f

theorem Peeks.follows {x : DbProg DbError ExecResult} (hx : Peeks f x) (hmeans : Means lib f s)
    (hclean : f.atBegin = none → f.clean = true) (hafter : s.after lib stmt = some s) :
    Follows lib s stmt f x := by
  refine Prog.sure_mono hx ?_ ?_ fun _ _ h => h
  · rintro _ f' ⟨rfl, -⟩
    exact ⟨⟨s, hafter, hmeans⟩, hclean⟩
  · rintro _ f' ⟨rfl, -⟩ hidle
    exact ⟨hmeans, hidle, hclean hidle⟩

theorem follows_mutating (hmeans : Means lib f s) (hplain : s.Unforced ctx) (hstmt : Plain stmt)
    (hclean : f.atBegin = none → f.clean = true) (hmutates : mutates stmt = true) :
    Follows lib s stmt f (executeStatement lib ctx (fuel + 1) stmt) := by
  obtain ⟨⟨cat, lay, h, hnow⟩, hrestores⟩ := hmeans
  rw [executeStatement_mutates hmutates]
  refine Prog.sure_seq looks_inTransaction ?_ (fun _ _ h => h.2.elim) fun _ _ h => h
  rintro _ f ⟨-, rfl, rfl⟩
  cases hactive : f.atBegin with
  | some saved =>
      have hactive' : f.atBegin.isSome := by rw [hactive]; rfl
      refine Prog.sure_mono (does_mutate h hnow hplain hactive' hstmt fuel) ?_
        (fun _ _ _ hidle => ?_) fun _ _ h => h
      · rintro _ f' ⟨hworking, hkept⟩
        refine ⟨hkept.means hmutates hnow rfl rfl ?_, fun hidle => ?_⟩
        · rwa [hworking.atBegin]
        · rw [hworking.atBegin, hactive] at hidle
          cases hidle
      · cases hidle
  | none =>
      have hbegun : ∀ saved, Sound lib ∅ { f with atBegin := saved } cat lay :=
        fun _ => h.congr rfl rfl
      refine Prog.sure_mono (sure_autoCommit h.toHoused hactive (hclean hactive)
        (does_mutate (hbegun _) hnow hplain rfl hstmt fuel)) ?_ ?_ fun _ _ h => h
      · rintro _ f' ⟨f₁, hkept, hclosed⟩
        refine ⟨hkept.means hmutates hnow hclosed.now hclosed.root ?_, fun _ => hclosed.clean⟩
        rwa [hclosed.idle, ← hactive]
      · rintro _ f' ⟨-, hclosed⟩ -
        refine ⟨⟨⟨cat, lay, h.congr hclosed.now hclosed.root, hnow⟩, ?_⟩, hclosed.idle, hclosed.clean⟩
        rwa [hclosed.idle, ← hactive]

theorem follows_begin (hmeans : Means lib f s) (hclean : f.atBegin = none → f.clean = true) :
    Follows lib s .begin f executeBegin := by
  refine Prog.sure_seq looks_inTransaction ?_ (fun _ _ h => h.2.elim) fun _ _ h => h
  rintro _ f ⟨-, rfl, rfl⟩
  cases hactive : f.atBegin with
  | some saved => exact fun hidle => by cases hidle
  | none =>
      obtain ⟨⟨cat, lay, h, hnow⟩, hrestores⟩ := hmeans
      refine ⟨trivial, ?_, fun _ _ hfalse => hfalse.elim, fun _ _ hfalse => hfalse.elim⟩
      rintro _ f₁ rfl
      refine ⟨hactive, ?_, fun _ _ hfalse => hfalse.elim, fun _ _ hfalse => hfalse.elim⟩
      rintro _ f₂ rfl
      have hsaved : s.saved = none := hrestores.idle_iff.mp hactive
      refine ⟨⟨{ s with saved := some s.now }, ?_, ⟨cat, lay, h.congr rfl rfl, hnow⟩, ?_⟩,
        fun hidle => by cases hidle⟩
      · rw [Held.after, hsaved]
      · rw [Forest.saved, if_pos (hclean hactive), hnow]
        exact .inside (h.congr rfl rfl)

theorem follows_commit (hmeans : Means lib f s) (hclean : f.atBegin = none → f.clean = true) :
    Follows lib s .commit f executeCommit := by
  refine Prog.sure_seq looks_inTransaction ?_ (fun _ _ h => h.2.elim) fun _ _ h => h
  rintro _ f ⟨-, rfl, rfl⟩
  cases hactive : f.atBegin with
  | none => exact fun _ => ⟨hmeans, hactive, hclean hactive⟩
  | some saved =>
      obtain ⟨⟨cat, lay, h, hnow⟩, hrestores⟩ := hmeans
      have hactive' : f.atBegin ≠ none := by rw [hactive]; exact Option.some_ne_none _
      obtain ⟨dict, hsaved⟩ := Option.ne_none_iff_exists'.mp fun hnone =>
        hactive' (hrestores.idle_iff.mpr hnone)
      refine Prog.sure_mono (sure_commit hactive' (Q := ⟨fun _ f' => Closed f f',
        fun _ _ => False, fun _ _ => True⟩) fun _ hclosed => hclosed) ?_ (fun _ _ h => h.elim)
        fun _ _ h => h
      intro _ f' hclosed
      refine ⟨⟨{ s with saved := none }, ?_, ⟨cat, lay, h.congr hclosed.now hclosed.root, hnow⟩, ?_⟩,
        fun _ => hclosed.clean⟩
      · rw [Held.after, hsaved]
        rfl
      · rw [hclosed.idle]
        exact .outside

/-- A rollback goes back to where the transaction began. -/
theorem sure_executeRollback {f₀ : Forest} (h : Housed f₀ cat lay)
    (hactive : f.atBegin = some (some f₀.now)) :
    executeRollback.sure (forestContract false)
      ⟨fun _ f' => Closed f₀ f', fun _ _ => False, fun _ _ => True⟩ f := by
  refine Prog.sure_seq looks_inTransaction ?_ (fun _ _ h => h.2.elim) fun _ _ _ => trivial
  rintro _ f ⟨-, rfl, rfl⟩
  rw [hactive]
  refine (Prog.sure_bind _ _ _ _).mpr ⟨trivial, ?_, fun _ _ hfalse => hfalse.elim,
    fun _ _ hfalse => hfalse.elim⟩
  rintro _ f₁ rfl
  refine (Prog.sure_bind _ _ _ _).mpr ⟨⟨f₀.now, hactive⟩, ?_, fun _ _ hfalse => hfalse.elim,
    fun _ _ hfalse => hfalse.elim⟩
  rintro _ f₂ ⟨snap, hsnap, rfl⟩
  obtain rfl : snap = f₀.now := Option.some.inj (Option.some.inj (hsnap.symm.trans hactive))
  have hlaid : Laid f₀.now.roots (withCatalog f₀.now.catalogRoot cat lay) := h.stored ▸ h.laid
  refine Prog.sure_seq (does_bootstrap hlaid) ?_ (fun _ _ h => h.2.elim) fun _ _ _ => trivial
  rintro _ f₃ ⟨-, rfl⟩
  exact ⟨rfl, h.stored, rfl, rfl⟩

theorem follows_rollback (hmeans : Means lib f s) (hclean : f.atBegin = none → f.clean = true) :
    Follows lib s .rollback f executeRollback := by
  cases hactive : f.atBegin with
  | none =>
      refine Prog.sure_seq looks_inTransaction ?_ (fun _ _ h => h.2.elim) fun _ _ h => h
      rintro _ f ⟨-, rfl, rfl⟩
      rw [hactive]
      exact fun _ => ⟨hmeans, hactive, hclean hactive⟩
  | some saved =>
      obtain ⟨-, hrestores⟩ := hmeans
      rw [hactive] at hrestores
      obtain ⟨snap, dict, hsnap, hsaved, hrestored⟩ : ∃ snap dict, saved = some snap ∧
          s.saved = some dict ∧ ∃ f₀ cat lay, f₀.now = snap ∧ Sound lib ∅ f₀ cat lay ∧
            dict = dictionary lib cat := by
        generalize s.saved = dict at hrestores
        cases hrestores with
        | inside h => exact ⟨_, _, rfl, rfl, _, _, _, rfl, h, rfl⟩
      obtain ⟨f₀, cat, lay, rfl, h, rfl⟩ := hrestored
      subst hsnap
      refine Prog.sure_mono (sure_executeRollback h.toHoused hactive) ?_ (fun _ _ h => h.elim)
        fun _ _ h => h
      intro _ f' hclosed
      refine ⟨⟨⟨dictionary lib cat, none⟩, ?_, ⟨cat, lay, h.congr hclosed.now hclosed.root, rfl⟩, ?_⟩,
        fun _ => hclosed.clean⟩
      · rw [Held.after, hsaved]
        rfl
      · rw [hclosed.idle]
        exact .outside

/-- A statement in a transaction, or on a database without dirty pages. -/
theorem follows_execute (hmeans : Means lib f s) (hplain : s.Unforced ctx) (hstmt : Plain stmt)
    (hclean : f.atBegin = none → f.clean = true) :
    Follows lib s stmt f (executeStatement lib ctx (fuel + 1) stmt) := by
  by_cases hmutates : mutates stmt = true
  · exact follows_mutating hmeans hplain hstmt hclean hmutates
  · obtain ⟨cat, lay, h, hnow⟩ := hmeans.exists_sound
    cases stmt with
    | select columns table tableRef whereClause groupBy having orderBy limit =>
        have hquery : Peeks f (executeStatement lib ctx (fuel + 1) _) :=
          Query.peeks h (unforced_of_held h hnow hplain) hstmt
        exact hquery.follows hmeans hclean rfl
    | explain inner =>
        have hlook : Peeks f (executeStatement lib ctx (fuel + 1) (.explain inner)) :=
          Peeks.seq (peeks_explain h inner) fun _ => peeks_pure _
        exact hlook.follows hmeans hclean rfl
    | begin => exact follows_begin hmeans hclean
    | commit => exact follows_commit hmeans hclean
    | rollback => exact follows_rollback hmeans hclean
    | _ => exact (hmutates rfl).elim

/-- Outside of a transaction, what changes no data changes nothing at all. -/
theorem views_execute (hmeans : Means lib f s) (hplain : s.Unforced ctx) (hstmt : Plain stmt)
    (hmutates : mutates stmt = false) (hbegin : stmt ≠ .begin) (hidle : f.atBegin = none) :
    Views f (executeStatement lib ctx (fuel + 1) stmt) (fun _ => s.after lib stmt = some s)
      fun _ => True := by
  obtain ⟨cat, lay, h, hnow⟩ := hmeans.exists_sound
  have hthrow : ∀ (x : DbProg DbError ExecResult) (e : DbError) (P : ExecResult → Prop),
      Views f (do if ← inTransaction then x else .throw e) P fun _ => True := fun x e P => by
    refine Views.seq ((looks_inTransaction.views (Prog.only_request trivial)).mono (fun _ h => h)
      fun _ h => h.elim) ?_
    rintro _ rfl
    rw [hidle]
    exact views_throw trivial
  cases stmt with
  | select columns table tableRef whereClause groupBy having orderBy limit =>
      exact (Query.peeks h (unforced_of_held h hnow hplain) hstmt).mono (fun _ _ => rfl) fun _ h => h
  | explain inner =>
      exact (Peeks.seq (peeks_explain h inner) fun _ => peeks_pure _).mono (fun _ _ => rfl)
        fun _ h => h
  | begin => exact (hbegin rfl).elim
  | commit => exact hthrow _ _ _
  | rollback => exact hthrow _ _ _
  | _ => cases hmutates

end Execute

/-! ## Databases -/

section Databases

variable {lib : Library} {ctx : ExecutionContext} {env : Environment} {d d' : Database}
  {f : Forest} {s : Held} {stmt : Statement} {fuel : Nat}

/-- The database stands for this state. -/
def Stands (lib : Library) (d : Database) (s : Held) : Prop := ∃ f, Describes d f ∧ Means lib f s

theorem Describes.clean (h : Describes d f) (hclean : f.clean = true) : d.pager.dirty = ∅ := by
  obtain ⟨_, _, _, _, -, -, -, hdirty⟩ := h.pager
  exact hdirty hclean

theorem Describes.cleaned (h : Describes d f) (hdirty : d.pager.dirty = ∅) :
    Describes d { f with clean := true } := by
  obtain ⟨base, start, active, st, hholds, hin, hphase, -⟩ := h.pager
  exact { h with pager := ⟨base, start, active, st, hholds, hin, hphase, fun _ => hdirty⟩ }

theorem Means.cleaned (h : Means lib f s) : Means lib { f with clean := true } s := by
  obtain ⟨⟨cat, lay, hsound, hnow⟩, hrestores⟩ := h
  exact ⟨⟨cat, lay, hsound.congr rfl rfl, hnow⟩, hrestores⟩

/-- The nodes that the statement writes fit their pages. -/
abbrev Execute.Fits (lib : Library) (ctx : ExecutionContext) (env : Environment) (fuel : Nat)
    (stmt : Statement) (d : Database) : Prop :=
  (executeStatement lib ctx fuel stmt).Along (Database.answer env)
    (fun op d => d.Regular false op) d

/-- A statement in a transaction, or on a database without dirty pages. -/
theorem Stands.execute (h : Stands lib d s) (hplain : s.Unforced ctx) (hstmt : Plain stmt)
    (hclean : s.saved = none → d.pager.dirty = ∅) (hfits : Execute.Fits lib ctx env fuel stmt d) :
    Exec.wp (Database.execute lib ctx env fuel stmt)
      ⟨fun _ d' => (∃ s', s.after lib stmt = some s' ∧ Stands lib d' s' ∧
          (s'.saved = none → d'.pager.dirty = ∅)),
        fun _ d' => s.saved = none → Stands lib d' s ∧ d'.pager.dirty = ∅, fun _ _ => True⟩ d := by
  obtain ⟨f, hd, hmeans⟩ := h
  cases fuel with
  | zero => trivial
  | succ fuel =>
      have hstart : ∃ f, Describes d f ∧ Means lib f s ∧ (f.atBegin = none → f.clean = true) := by
        by_cases hidle : f.atBegin = none
        · exact ⟨_, hd.cleaned (hclean (hmeans.restores.idle_iff.mp hidle)), hmeans.cleaned, fun _ => rfl⟩
        · exact ⟨f, hd, hmeans, fun h => (hidle h).elim⟩
      obtain ⟨f, hd, hmeans, hclean⟩ := hstart
      refine Exec.wp_mono (Prog.sure_sound (honours env false) hd
        (follows_execute hmeans hplain hstmt hclean) hfits) ?_ ?_ fun _ _ _ => trivial
      · rintro _ d' ⟨f', hd', ⟨s', hafter, hmeans'⟩, hclean'⟩
        refine ⟨s', hafter, ⟨f', hd', hmeans'⟩, fun hsaved => hd'.clean (hclean' ?_)⟩
        exact hmeans'.restores.idle_iff.mpr hsaved
      · rintro _ d' ⟨f', hd', herror⟩ hsaved
        obtain ⟨hmeans', -, hclean'⟩ := herror (hmeans.restores.idle_iff.mpr hsaved)
        exact ⟨⟨f', hd', hmeans'⟩, hd'.clean hclean'⟩

/-- Outside of a transaction a statement that changes data commits what it did. -/
theorem mutate_ok (hd : Describes d f) (hmeans : Means lib f s) (hidle : f.atBegin = none)
    (hplain : s.Unforced ctx) (hstmt : Plain stmt) (hmutates : mutates stmt = true)
    (hfits : Execute.Fits lib ctx env (fuel + 1) stmt d) {res : ExecResult}
    (hrun : Database.execute lib ctx env (fuel + 1) stmt d = (.ok res, d')) :
    ∃ s', s.after lib stmt = some s' ∧ Stands lib d' s' := by
  obtain ⟨⟨cat, lay, h, hnow⟩, hrestores⟩ := hmeans
  rw [Execute.Fits, executeStatement_mutates hmutates] at hfits
  rw [Database.execute, executeStatement_mutates hmutates] at hrun
  obtain ⟨active, d₁, hactive, hrun, -⟩ := Prog.exists_of_bind_ok hrun
  obtain ⟨hquery, hfits⟩ := Prog.along_bind.mp hfits
  have hfits := hfits active d₁ hactive
  have hlook : Looks f inTransaction (fun active => active = f.atBegin.isSome) fun _ => False :=
    looks_inTransaction
  obtain ⟨f₁, hd₁, -, rfl, rfl⟩ := Exec.wp_ok (Prog.sure_sound (honours env false) hd hlook hquery)
    hactive
  rw [hidle] at hfits hrun
  have hbegun : ∀ saved, Sound lib ∅ { f₁ with atBegin := saved } cat lay := fun _ => h.congr rfl rfl
  have hcommit := sure_committing hidle (does_mutate (hbegun _) hnow hplain rfl hstmt fuel)
  obtain ⟨f', hd', f₂, hkept, hclosed⟩ := Exec.wp_ok (Prog.sure_sound (honours env false) hd₁ hcommit
    (along_committing hfits)) (run_committing hrun)
  obtain ⟨s', hafter, hmeans'⟩ := hkept.means hmutates hnow hclosed.now hclosed.root (by
    rwa [hclosed.idle, ← hidle])
  exact ⟨s', hafter, f', hd', hmeans'⟩

/-- A statement that succeeds; only `BEGIN` needs a database without dirty pages. -/
theorem Stands.execute_ok (h : Stands lib d s) (hplain : s.Unforced ctx) (hstmt : Plain stmt)
    (hbegin : stmt = .begin → d.pager.dirty = ∅) (hfits : Execute.Fits lib ctx env fuel stmt d)
    {res : ExecResult} (hrun : Database.execute lib ctx env fuel stmt d = (.ok res, d')) :
    ∃ s', s.after lib stmt = some s' ∧ Stands lib d' s' := by
  by_cases hclean : s.saved = none → d.pager.dirty = ∅
  · obtain ⟨s', hafter, hstands, -⟩ := Exec.wp_ok (h.execute hplain hstmt hclean hfits) hrun
    exact ⟨s', hafter, hstands⟩
  · obtain ⟨hsaved, hdirty⟩ := Classical.not_imp.mp hclean
    obtain ⟨f, hd, hmeans⟩ := h
    have hidle : f.atBegin = none := hmeans.restores.idle_iff.mpr hsaved
    cases fuel with
    | zero => cases hrun
    | succ fuel =>
        cases hmutates : mutates stmt with
        | true => exact mutate_ok hd hmeans hidle hplain hstmt hmutates hfits hrun
        | false =>
            have hviews : Views f (executeStatement lib ctx (fuel + 1) stmt)
                (fun _ => s.after lib stmt = some s) fun _ => True :=
              views_execute hmeans hplain hstmt hmutates (fun heq => hdirty (hbegin heq)) hidle
            obtain ⟨f', hd', rfl, hafter⟩ := Exec.wp_ok (Prog.sure_sound (honours env false) hd hviews
              hfits) hrun
            exact ⟨s, hafter, f', hd', hmeans⟩

end Databases

end ChocoBase.Engine
