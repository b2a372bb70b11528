import ChocoBase.Catalog.Evolution
import ChocoBase.Engine.Created
import ChocoBase.Engine.StoredRows
import ChocoBase.Foundation.Trace

/-!
# Histories of a database

Clients send statements one after another, in transactions or not, and some of them
fail.  As long as a client rolls back the transaction in which a statement failed, the
database follows the dictionary: it stands for what the successful statements made of
it, and a `ROLLBACK` brings back what it stood for at `BEGIN`.
-/

namespace ChocoBase.Engine

open ChocoBase.Foundation ChocoBase.Storage ChocoBase.BTree ChocoBase.Sql ChocoBase.Types
  ChocoBase.Auth ChocoBase.Catalog ChocoBase.Plan

/-! ## Statements that fail -/

section Failing

variable {lib : Library} {ctx : ExecutionContext} {f : Forest} {s : Held} {stmt : Statement}
  {fuel : Nat}

/-- What a statement that failed leaves behind. -/
structure Failed (stmt : Statement) (f f' : Forest) : Prop where
  atBegin : f'.atBegin = f.atBegin
  kept : f.atBegin = none ∨ mutates stmt = false → f'.now = f.now ∧ f'.root = f.root

theorem Failed.means {f' : Forest} (h : Failed stmt f f') (hmeans : Means lib f s)
    (hkept : f.atBegin = none ∨ mutates stmt = false) : Means lib f' s := by
  obtain ⟨⟨cat, lay, hsound, hnow⟩, hrestores⟩ := hmeans
  obtain ⟨htrees, hroot⟩ := h.kept hkept
  exact ⟨⟨cat, lay, hsound.congr htrees hroot, hnow⟩, h.atBegin ▸ hrestores⟩

/-- Whenever the program fails, it leaves this behind. -/
abbrev Fails (stmt : Statement) (f : Forest) (x : DbProg DbError ExecResult) : Prop :=
  x.sure (forestContract false)
    ⟨fun _ _ => True, fun _ f' => Failed stmt f f', fun _ _ => True⟩ f

theorem Peeks.fails {x : DbProg DbError ExecResult} (h : Peeks f x) : Fails stmt f x := by
  refine Prog.sure_mono h (fun _ _ _ => trivial) ?_ fun _ _ h => h
  rintro _ _ ⟨rfl, -⟩
  exact ⟨rfl, fun _ => ⟨rfl, rfl⟩⟩

theorem fails_of_succeeds {x : DbProg DbError ExecResult} {P : ExecResult → Forest → Prop}
    (h : x.sure (forestContract false) ⟨P, fun _ _ => False, fun _ _ => True⟩ f) :
    Fails stmt f x :=
  Prog.sure_mono h (fun _ _ _ => trivial) (fun _ _ hfalse => hfalse.elim) fun _ _ h => h

theorem fails_mutating (h : Sound lib ∅ f cat lay) (hnow : s.now = dictionary lib cat)
    (hplain : s.Unforced ctx) (hstmt : Plain stmt) (hclean : f.atBegin = none → f.clean = true)
    (hmutates : mutates stmt = true) :
    Fails stmt f (executeStatement lib ctx (fuel + 1) stmt) := by
  rw [executeStatement_mutates hmutates]
  refine Prog.sure_seq looks_inTransaction ?_ (fun _ _ h => h.2.elim) fun _ _ h => h
  rintro _ f ⟨-, rfl, rfl⟩
  cases hactive : f.atBegin with
  | some saved =>
      have hactive' : f.atBegin.isSome := by rw [hactive]; rfl
      refine Prog.sure_mono (does_mutate h hnow hplain hactive' hstmt fuel) (fun _ _ _ => trivial)
        ?_ fun _ _ h => h
      rintro _ f' ⟨hworking, -⟩
      refine ⟨hworking.atBegin, ?_⟩
      rintro (hidle | hreads)
      · rw [hactive] at hidle
        cases hidle
      · rw [hmutates] at hreads
        cases hreads
  | none =>
      have hbegun : ∀ saved, Sound lib ∅ { f with atBegin := saved } cat lay :=
        fun _ => h.congr rfl rfl
      refine Prog.sure_mono (sure_autoCommit h.toHoused hactive (hclean hactive)
        (does_mutate (hbegun _) hnow hplain rfl hstmt fuel)) (fun _ _ _ => trivial) ?_
        fun _ _ h => h
      rintro _ f' ⟨-, hclosed⟩
      exact ⟨hclosed.idle.trans hactive.symm, fun _ => ⟨hclosed.now, hclosed.root⟩⟩

theorem fails_begin : Fails .begin f executeBegin := by
  refine Prog.sure_seq looks_inTransaction ?_ (fun _ _ h => h.2.elim) fun _ _ h => h
  rintro _ f ⟨-, rfl, rfl⟩
  cases hactive : f.atBegin with
  | some saved => exact (peeks_throw _).fails
  | none =>
      refine fails_of_succeeds (P := fun _ _ => True) ⟨trivial, ?_, fun _ _ hfalse => hfalse.elim,
        fun _ _ hfalse => hfalse.elim⟩
      rintro _ f₁ rfl
      exact ⟨hactive, fun _ _ _ => trivial, fun _ _ hfalse => hfalse.elim,
        fun _ _ hfalse => hfalse.elim⟩

theorem fails_commit : Fails .commit f executeCommit := by
  refine Prog.sure_seq looks_inTransaction ?_ (fun _ _ h => h.2.elim) fun _ _ h => h
  rintro _ f ⟨-, rfl, rfl⟩
  cases hactive : f.atBegin with
  | none => exact (peeks_throw _).fails
  | some saved =>
      refine fails_of_succeeds (P := fun _ _ => True) (sure_commit ?_ fun _ _ => trivial)
      rw [hactive]
      exact Option.some_ne_none _

theorem Restores.exists_housed {saved : Option Snapshot} {dict : Option Dictionary}
    (h : Restores lib (some saved) dict) :
    ∃ f₀ cat lay, saved = some f₀.now ∧ Sound lib ∅ f₀ cat lay ∧
      dict = some (dictionary lib cat) := by
  cases h with
  | inside h => exact ⟨_, _, _, rfl, h, rfl⟩

theorem Restores.isSome_eq {saved : Option (Option Snapshot)} {dict : Option Dictionary}
    (h : Restores lib saved dict) : saved.isSome = dict.isSome := by
  cases h with
  | outside => rfl
  | inside h => rfl

theorem fails_rollback (h : Restores lib f.atBegin s.saved) : Fails .rollback f executeRollback := by
  cases hactive : f.atBegin with
  | none =>
      refine Prog.sure_seq looks_inTransaction ?_ (fun _ _ h => h.2.elim) fun _ _ h => h
      rintro _ f ⟨-, rfl, rfl⟩
      rw [hactive]
      exact (peeks_throw _).fails
  | some saved =>
      rw [hactive] at h
      obtain ⟨f₀, cat, lay, rfl, h, -⟩ := h.exists_housed
      exact fails_of_succeeds (sure_executeRollback h.toHoused hactive)

/-- Outside of a transaction, and if it changes no data, a statement that fails has no effect. -/
theorem fails_execute (hmeans : Means lib f s) (hplain : s.Unforced ctx) (hstmt : Plain stmt)
    (hclean : f.atBegin = none → f.clean = true) :
    Fails stmt f (executeStatement lib ctx (fuel + 1) stmt) := by
  obtain ⟨cat, lay, h, hnow⟩ := hmeans.exists_sound
  by_cases hmutates : mutates stmt = true
  · exact fails_mutating h hnow hplain hstmt hclean hmutates
  · cases stmt with
    | select columns table tableRef whereClause groupBy having orderBy limit =>
        have hquery : Peeks f (executeStatement lib ctx (fuel + 1) _) :=
          Query.peeks h (unforced_of_held h hnow hplain) hstmt
        exact hquery.fails
    | explain inner =>
        have hlook : Peeks f (executeStatement lib ctx (fuel + 1) (.explain inner)) :=
          Peeks.seq (peeks_explain h inner) fun _ => peeks_pure _
        exact hlook.fails
    | begin => exact fails_begin
    | commit => exact fails_commit
    | rollback => exact fails_rollback hmeans.restores
    | _ => exact (hmutates rfl).elim

theorem sure_executeBegin (hidle : f.atBegin = none) (hclean : f.clean = true) :
    executeBegin.sure (forestContract false)
      ⟨fun _ f' => f'.now = f.now ∧ f'.root = f.root ∧ f'.atBegin = some (some f.now),
        fun _ _ => False, fun _ _ => True⟩ f := by
  refine Prog.sure_seq looks_inTransaction ?_ (fun _ _ h => h.2.elim) fun _ _ h => h
  rintro _ f ⟨-, rfl, rfl⟩
  rw [hidle]
  refine ⟨trivial, ?_, fun _ _ hfalse => hfalse.elim, fun _ _ hfalse => hfalse.elim⟩
  rintro _ f₁ rfl
  refine ⟨hidle, ?_, fun _ _ hfalse => hfalse.elim, fun _ _ hfalse => hfalse.elim⟩
  rintro _ f₂ rfl
  exact ⟨rfl, rfl, congrArg some (if_pos hclean)⟩

/-- The statement ends no transaction. -/
def staysIn : Statement → Bool
  | .commit | .rollback => false
  | _ => true

/-- A statement that succeeds in a transaction leaves it open. -/
theorem open_execute {saved : Option Snapshot} (hmeans : Means lib f s) (hplain : s.Unforced ctx)
    (hstmt : Plain stmt) (hactive : f.atBegin = some saved) (hstays : staysIn stmt = true) :
    (executeStatement lib ctx (fuel + 1) stmt).sure (forestContract false)
      ⟨fun _ f' => f'.atBegin = some saved, fun _ _ => True, fun _ _ => True⟩ f := by
  obtain ⟨cat, lay, h, hnow⟩ := hmeans.exists_sound
  have hpeeks {x : DbProg DbError ExecResult} (hx : Peeks f x) :
      x.sure (forestContract false)
        ⟨fun _ f' => f'.atBegin = some saved, fun _ _ => True, fun _ _ => True⟩ f := by
    refine Prog.sure_mono hx ?_ (fun _ _ _ => trivial) fun _ _ h => h
    rintro _ _ ⟨rfl, -⟩
    exact hactive
  by_cases hmutates : mutates stmt = true
  · rw [executeStatement_mutates hmutates]
    refine Prog.sure_seq looks_inTransaction ?_ (fun _ _ h => h.2.elim) fun _ _ h => h
    rintro _ f ⟨-, rfl, rfl⟩
    have hsome : f.atBegin.isSome := by rw [hactive]; rfl
    rw [hsome]
    refine Prog.sure_mono (does_mutate h hnow hplain hsome hstmt fuel) ?_ (fun _ _ _ => trivial)
      fun _ _ h => h
    exact fun _ f' h' => h'.1.atBegin.trans hactive
  · cases stmt with
    | select columns table tableRef whereClause groupBy having orderBy limit =>
        exact hpeeks (Query.peeks h (unforced_of_held h hnow hplain) hstmt)
    | explain inner => exact hpeeks (Peeks.seq (peeks_explain h inner) fun _ => peeks_pure _)
    | begin =>
        refine Prog.sure_seq looks_inTransaction ?_ (fun _ _ _ => trivial) fun _ _ h => h
        rintro _ f ⟨-, rfl, rfl⟩
        rw [hactive]
        trivial
    | commit => cases hstays
    | rollback => cases hstays
    | _ => exact (hmutates rfl).elim

end Failing

/-! ## Databases -/

section Databases

variable {lib : Library} {ctx : ExecutionContext} {env : Environment} {d d' : Database}
  {f : Forest} {s : Held} {stmt : Statement} {fuel : Nat}

theorem Describes.inTransaction (h : Describes d f) : d.pager.inTransaction = f.atBegin.isSome := by
  obtain ⟨f', ⟨-, hactive⟩, -⟩ := honours ⟨fun _ => 0, fun _ _ => "", ""⟩ false .inTransaction d f h
    ⟨trivial, fun hstrict => by cases hstrict⟩ trivial
  exact hactive

/-- In a forest that stands for `s`, nothing is dirty outside of a transaction. -/
theorem Stands.exists_clean (h : Stands lib d s) (hclean : s.saved = none → d.pager.dirty = ∅) :
    ∃ f, Describes d f ∧ Means lib f s ∧ (f.atBegin = none → f.clean = true) := by
  obtain ⟨f, hd, hmeans⟩ := h
  by_cases hidle : f.atBegin = none
  · exact ⟨_, hd.cleaned (hclean (hmeans.restores.idle_iff.mp hidle)), hmeans.cleaned, fun _ => rfl⟩
  · exact ⟨f, hd, hmeans, fun h => (hidle h).elim⟩

/-- What a failing statement does to a database that stands for `s`. -/
theorem execute_failed (hd : Describes d f) (hmeans : Means lib f s) (hplain : s.Unforced ctx)
    (hstmt : Plain stmt) (hclean : f.atBegin = none → f.clean = true)
    (hfits : Execute.Fits lib ctx env fuel stmt d) {e : DbError}
    (hrun : Database.execute lib ctx env fuel stmt d = (.error e, d')) :
    ∃ f', Describes d' f' ∧ Failed stmt f f' := by
  cases fuel with
  | zero => cases hrun
  | succ fuel => exact Exec.wp_error (Prog.sure_sound (honours env false) hd
      (fails_execute hmeans hplain hstmt hclean) hfits) hrun

end Databases

/-! ## The machine of dictionaries -/

/-- A statement of a history: whose it is, how deep its subqueries go, and whether it succeeds. -/
structure Call where
  ctx : ExecutionContext
  fuel : Nat
  stmt : Statement
  succeeds : Bool

/-- What the clients see: a dictionary, or a transaction in which a statement has failed. -/
inductive Standing where
  | sound (s : Held)
  | failed (saved : Dictionary)

namespace Standing

/-- Where a statement leads that fails. -/
def afterError (s : Held) (stmt : Statement) : Standing :=
  match s.saved with
  | some saved => if mutates stmt then .failed saved else .sound s
  | none => .sound s

/-- Only a `ROLLBACK` leads out of a transaction in which a statement has failed. -/
def afterRollback (saved : Dictionary) : Statement → Option Standing
  | .rollback => some (.sound ⟨saved, none⟩)
  | _ => none

def step (lib : Library) (t : Standing) (c : Call) : Option Standing :=
  match t with
  | .sound s =>
      if c.succeeds then (s.after lib c.stmt).map .sound else some (afterError s c.stmt)
  | .failed saved => if c.succeeds then afterRollback saved c.stmt else none

/-- All dictionaries that are in use, or that a `ROLLBACK` brings back. -/
def All (P : Dictionary → Prop) : Standing → Prop
  | .sound s => P s.now ∧ ∀ saved, s.saved = some saved → P saved
  | .failed saved => P saved

variable {lib : Library} {P : Dictionary → Prop} {s s' : Held} {stmt : Statement} {t t' : Standing}
  {c : Call}

theorem all_after (h : s.after lib stmt = some s') (hall : (sound s).All P)
    (hevolves : ∀ d d', P d → Dictionary.Evolves lib d stmt d' → P d') : (sound s').All P := by
  obtain ⟨hnow, hsaved⟩ := hall
  have hrun (hafter : (s.now.after lib stmt).map (fun now => { s with now }) = some s') :
      (sound s').All P := by
    obtain ⟨now, hnow', rfl⟩ := Option.map_eq_some_iff.mp hafter
    exact ⟨hevolves _ _ hnow (Dictionary.evolves_of_after hnow'), hsaved⟩
  cases stmt with
  | begin =>
      cases hidle : s.saved with
      | none =>
          rw [Held.after, hidle] at h
          obtain rfl := Option.some.inj h
          exact ⟨hnow, fun saved heq => Option.some.inj heq ▸ hnow⟩
      | some saved =>
          rw [Held.after, hidle] at h
          cases h
  | commit =>
      obtain ⟨_, -, rfl⟩ := Option.map_eq_some_iff.mp h
      exact ⟨hnow, fun _ heq => by cases heq⟩
  | rollback =>
      obtain ⟨saved, heq, rfl⟩ := Option.map_eq_some_iff.mp h
      exact ⟨hsaved saved heq, fun _ heq => by cases heq⟩
  | _ => exact hrun h

theorem all_afterError (hall : (sound s).All P) : (afterError s stmt).All P := by
  unfold afterError
  split
  · next saved hsaved =>
      split
      · exact hall.2 saved hsaved
      · exact hall
  · exact hall

theorem all_step (h : t.step lib c = some t') (hall : t.All P)
    (hevolves : ∀ d d', P d → Dictionary.Evolves lib d c.stmt d' → P d') : t'.All P := by
  cases t with
  | sound s =>
      rw [step] at h
      split at h
      · obtain ⟨s', hafter, rfl⟩ := Option.map_eq_some_iff.mp h
        exact all_after hafter hall hevolves
      · obtain rfl := Option.some.inj h
        exact all_afterError hall
  | failed saved =>
      obtain ⟨-, h⟩ := Option.ite_none_right_eq_some.mp h
      unfold afterRollback at h
      split at h
      · obtain rfl := Option.some.inj h
        exact ⟨hall, fun _ heq => by cases heq⟩
      · cases h

end Standing

/-! ## Sessions -/

/-- A database, and whether a statement of its open transaction has failed. -/
structure Session where
  db : Database
  spoiled : Bool

/-- The statement asks for queries only, and the policy that it creates does so as well. -/
def Orderly (lib : Library) : Statement → Prop
  | .createPolicy _ _ _ usingExpr _ => Asking (storedExpr lib usingExpr)
  | stmt => Plain stmt

namespace Session

def step (lib : Library) (env : Environment) (s : Session) (c : Call) : Option Session :=
  match Database.execute lib c.ctx env c.fuel c.stmt s.db, c.succeeds with
  | (.ok _, db), true => some ⟨db, false⟩
  | (.error _, db), false => some ⟨db, mutates c.stmt && s.db.pager.inTransaction⟩
  | _, _ => none

/-- What a client may send: the nodes written fit their pages, and what has failed is rolled back. -/
structure Legal (lib : Library) (env : Environment) (s : Session) (c : Call) : Prop where
  orderly : Orderly lib c.stmt
  fits : Execute.Fits lib c.ctx env c.fuel c.stmt s.db
  rollsBack : s.spoiled = true → c.stmt = .rollback

/-- The session is where the machine of dictionaries is. -/
def Follows (lib : Library) (s : Session) : Standing → Prop
  | .sound held => s.spoiled = false ∧ Stands lib s.db held ∧
      (held.saved = none → s.db.pager.dirty = ∅)
  | .failed saved => s.spoiled = true ∧
      ∃ f, Describes s.db f ∧ Restores lib f.atBegin (some saved)

variable {lib : Library} {env : Environment} {s s' : Session} {t : Standing} {c : Call}
  {held : Held} {stmt : Statement}

theorem orderly_plain (h : Orderly lib stmt) : Plain stmt := by
  cases stmt with
  | createPolicy => trivial
  | _ => exact h

theorem orderly_asks (h : Orderly lib stmt) {d d' : Dictionary} (hasks : d.Asks)
    (hevolves : Dictionary.Evolves lib d stmt d') : d'.Asks := by
  refine hevolves.asks hasks ?_
  rintro name table cmd usingExpr withCheck rfl
  exact h

theorem step_cases (h : s.step lib env c = some s') :
    (∃ res, Database.execute lib c.ctx env c.fuel c.stmt s.db = (.ok res, s'.db) ∧
      c.succeeds = true ∧ s'.spoiled = false) ∨
    ∃ e, Database.execute lib c.ctx env c.fuel c.stmt s.db = (.error e, s'.db) ∧
      c.succeeds = false ∧ s'.spoiled = (mutates c.stmt && s.db.pager.inTransaction) := by
  unfold step at h
  split at h
  · next res db hrun hok =>
      obtain rfl := Option.some.inj h
      exact .inl ⟨res, hrun, hok, rfl⟩
  · next e db hrun hok =>
      obtain rfl := Option.some.inj h
      exact .inr ⟨e, hrun, hok, rfl⟩
  · cases h

/-- A statement that cannot fail succeeds. -/
theorem step_surely {P : ExecResult → Forest → Prop} {f : Forest} (hd : Describes s.db f)
    (hsure : ∀ fuel, (executeStatement lib c.ctx (fuel + 1) c.stmt).sure (forestContract false)
      ⟨P, fun _ _ => False, fun _ _ => True⟩ f)
    (hfits : Execute.Fits lib c.ctx env c.fuel c.stmt s.db) (hstep : s.step lib env c = some s') :
    c.succeeds = true ∧ s'.spoiled = false ∧ ∃ res f', Describes s'.db f' ∧ P res f' := by
  obtain ⟨ctx, fuel, stmt, succeeds⟩ := c
  cases fuel with
  | zero => cases hstep
  | succ fuel =>
      have hexecute := Prog.sure_sound (honours env false) hd (hsure fuel) hfits
      rcases step_cases hstep with ⟨res, hrun, hok, hspoiled⟩ | ⟨e, hrun, -, -⟩
      · obtain ⟨f', hd', hP⟩ := Exec.wp_ok hexecute hrun
        exact ⟨hok, hspoiled, res, f', hd', hP⟩
      · obtain ⟨_, _, hfalse⟩ := Exec.wp_error hexecute hrun
        exact hfalse.elim

/-- A `ROLLBACK` brings back the trees that were there at `BEGIN`. -/
theorem step_rollback {f f₀ : Forest} {cat : OrdMap Bytes Bytes} {lay : Layout}
    (hd : Describes s.db f) (hsound : Sound lib ∅ f₀ cat lay)
    (hactive : f.atBegin = some (some f₀.now)) (hlegal : s.Legal lib env c)
    (hrollback : c.stmt = .rollback) (hstep : s.step lib env c = some s') :
    c.succeeds = true ∧ (∃ f', Describes s'.db f' ∧ Closed f₀ f') ∧
      s'.Follows lib (.sound ⟨dictionary lib cat, none⟩) := by
  have hsure (fuel : Nat) : (executeStatement lib c.ctx (fuel + 1) c.stmt).sure
      (forestContract false) ⟨fun _ f' => Closed f₀ f', fun _ _ => False, fun _ _ => True⟩ f := by
    rw [hrollback]
    exact sure_executeRollback hsound.toHoused hactive
  obtain ⟨hok, hspoiled, _, f', hd', hclosed⟩ := step_surely hd hsure hlegal.fits hstep
  refine ⟨hok, ⟨f', hd', hclosed⟩, hspoiled, ⟨f', hd', ⟨cat, lay, hsound.congr hclosed.now
    hclosed.root, rfl⟩, ?_⟩, fun _ => hd'.clean hclosed.clean⟩
  rw [hclosed.idle]
  exact .outside

/-- A step of a session in which nothing has failed. -/
theorem follows_sound (h : s.Follows lib (.sound held)) (hasks : held.now.Asks)
    (hlegal : s.Legal lib env c) (hstep : s.step lib env c = some s') :
    ∃ t', (Standing.sound held).step lib c = some t' ∧ s'.Follows lib t' := by
  obtain ⟨hspoiled, hstands, hclean⟩ := h
  have hunforced : held.Unforced c.ctx := fun _ => hasks
  have hplain := orderly_plain hlegal.orderly
  have hexecute := hstands.execute hunforced hplain hclean hlegal.fits
  rw [Standing.step]
  rcases step_cases hstep with ⟨res, hrun, hok, hspoiled'⟩ | ⟨e, hrun, hok, hspoiled'⟩
  · obtain ⟨held', hafter, hstands', hclean'⟩ := Exec.wp_ok hexecute hrun
    refine ⟨.sound held', ?_, hspoiled', hstands', hclean'⟩
    rw [if_pos hok, hafter, Option.map_some]
  · refine ⟨Standing.afterError held c.stmt, if_neg (by simp [hok]), ?_⟩
    obtain ⟨f, hd, hmeans, hclean⟩ := hstands.exists_clean hclean
    obtain ⟨f', hd', hfailed⟩ := execute_failed hd hmeans hunforced hplain hclean hlegal.fits hrun
    rw [hd.inTransaction, hmeans.restores.isSome_eq] at hspoiled'
    rw [Standing.afterError]
    cases hsaved : held.saved with
    | none =>
        obtain ⟨hstands', hclean'⟩ := Exec.wp_error hexecute hrun hsaved
        exact ⟨by rw [hspoiled', hsaved]; exact Bool.and_false _, hstands', fun _ => hclean'⟩
    | some saved =>
        cases hmutates : mutates c.stmt with
        | true =>
            refine ⟨by rw [hspoiled', hsaved, hmutates]; rfl, f', hd', ?_⟩
            rw [hfailed.atBegin, ← hsaved]
            exact hmeans.restores
        | false =>
            refine ⟨by rw [hspoiled', hmutates]; rfl, ⟨f', hd', hfailed.means hmeans (.inr hmutates)⟩,
              fun hnone => ?_⟩
            rw [hsaved] at hnone
            cases hnone

/-- A `ROLLBACK` after a failure. -/
theorem follows_failed {saved : Dictionary} (h : s.Follows lib (.failed saved))
    (hlegal : s.Legal lib env c) (hstep : s.step lib env c = some s') :
    ∃ t', (Standing.failed saved).step lib c = some t' ∧ s'.Follows lib t' := by
  obtain ⟨hspoiled, f, hd, hrestores⟩ := h
  have hrollback := hlegal.rollsBack hspoiled
  cases hactive : f.atBegin with
  | none =>
      rw [hactive] at hrestores
      cases hrestores
  | some snap =>
      rw [hactive] at hrestores
      obtain ⟨f₀, cat, lay, rfl, hsound, heq⟩ := hrestores.exists_housed
      obtain rfl := Option.some.inj heq
      obtain ⟨hok, -, hfollows⟩ := step_rollback hd hsound hactive hlegal hrollback hstep
      refine ⟨_, ?_, hfollows⟩
      rw [Standing.step, if_pos hok, hrollback]
      rfl

theorem follows_step (h : s.Follows lib t ∧ t.All Dictionary.Asks) (hlegal : s.Legal lib env c)
    (hstep : s.step lib env c = some s') :
    ∃ t', t.step lib c = some t' ∧ s'.Follows lib t' ∧ t'.All Dictionary.Asks := by
  obtain ⟨hfollows, hasks⟩ := h
  have hnext : ∃ t', t.step lib c = some t' ∧ s'.Follows lib t' := by
    cases t with
    | sound held => exact follows_sound hfollows hasks.1 hlegal hstep
    | failed saved => exact follows_failed hfollows hlegal hstep
  obtain ⟨t', ht', hfollows'⟩ := hnext
  exact ⟨t', ht', hfollows', Standing.all_step ht' hasks fun _ _ hd => orderly_asks hlegal.orderly hd⟩

end Session

/-! ## What the catalog answers -/

section Answers

variable {lib : Library} {env : Environment} {d d' : Database} {s : Held} {strict : Bool}

/-- What only reads writes no nodes. -/
theorem along_inspects {ε α : Type} {x : DbProg ε α} (hx : x.Only Inspects) (d : Database) :
    x.Along (Database.answer env) (fun op d => d.Regular strict op) d := by
  induction x generalizing d with
  | pure | throw | halt => trivial
  | call op next ih =>
      obtain ⟨hop, hnext⟩ := hx
      unfold Prog.Along
      refine ⟨?_, ?_⟩
      · cases op <;> first | exact hop.elim | exact ⟨trivial, fun _ => rfl⟩
      · split
        · exact ih _ (hnext _) _
        · exact ih _ (hnext _) _
        · trivial

theorem getTable_stands (h : Stands lib d s) {name : String} {found : Option TableSchema}
    (hrun : (getTable name).run (Database.answer env) d = (.ok found, d')) :
    found.map tableEntry = s.now.tables name := by
  obtain ⟨f, hd, ⟨cat, lay, hsound, hnow⟩, -⟩ := h
  obtain ⟨_, -, -, hfound⟩ := Exec.wp_ok (Prog.sure_sound (honours env false) hd
    (hsound.views_getTable name) (along_inspects (only_getRecord _ _) d)) hrun
  rw [hnow]
  rcases hfound with ⟨hnone, rfl⟩ | ⟨schema, rfl, ht, rfl⟩
  · exact (tables_none hnone).symm
  · exact ht.listed.symm

theorem listPolicies_stands (h : Stands lib d s) {table : String} {policies : List PolicySchema}
    (hrun : (listPoliciesForTable lib table).run (Database.answer env) d = (.ok policies, d'))
    (policy : PolicySchema) :
    policy ∈ policies ↔ s.now.policies policy.name = some policy ∧ policy.table = table := by
  obtain ⟨f, hd, ⟨cat, lay, hsound, hnow⟩, -⟩ := h
  have honly : (listPoliciesForTable lib table).Only Inspects :=
    .bind (only_listRecords _ _) fun _ => trivial
  have hviews : Views f (listPoliciesForTable lib table) (fun policies => ∀ policy,
      policy ∈ policies ↔ IsPolicy lib cat policy ∧ policy.table = table) fun _ => True :=
    hsound.views_listPolicies table
  obtain ⟨_, -, -, hlisted⟩ := Exec.wp_ok (Prog.sure_sound (honours env false) hd hviews
    (along_inspects honly d)) hrun
  rw [hlisted, hnow]
  refine and_congr_left fun _ => ⟨?_, fun hpolicy => hsound.isPolicy_iff.mpr ⟨_, hpolicy⟩⟩
  rintro ⟨payload, hget, hdecode⟩
  simp [dictionary, hget, hdecode]

end Answers

/-! ## Following a history -/

section Following

variable {lib : Library} {env : Environment} {s s' : Session} {t : Standing} {calls : List Call}

theorem exists_follows (h : s.Follows lib t) (hasks : t.All Dictionary.Asks)
    (hrun : Trace (Session.step lib env) (Session.Legal lib env) s calls s') :
    ∃ t', Trace (Standing.step lib) (fun _ _ => True) t calls t' ∧ s'.Follows lib t' ∧
      t'.All Dictionary.Asks :=
  hrun.simulate ⟨h, hasks⟩ fun _ _ _ _ hR hlegal hstep => Session.follows_step hR hlegal hstep

/-- What each statement of a history keeps of the dictionary, the history keeps. -/
theorem exists_follows_all {P : Dictionary → Prop} (h : s.Follows lib t)
    (hasks : t.All Dictionary.Asks) (hall : t.All P)
    (hrun : Trace (Session.step lib env) (Session.Legal lib env) s calls s')
    (hevolves : ∀ c ∈ calls, ∀ d d', P d → Dictionary.Evolves lib d c.stmt d' → P d') :
    ∃ t', s'.Follows lib t' ∧ t'.All P := by
  obtain ⟨t', htrace, hfollows, -⟩ := exists_follows h hasks hrun
  exact ⟨t', hfollows, htrace.keeps hall fun c hc _ _ hall _ hstep =>
    Standing.all_step hstep hall (hevolves c hc)⟩

/-- Unless a transaction has failed, the session stands for a dictionary. -/
theorem Session.Follows.exists_stands (h : s.Follows lib t) (hspoiled : s.spoiled = false) :
    ∃ held, t = .sound held ∧ Stands lib s.db held := by
  cases t with
  | sound held => exact ⟨held, rfl, h.2.1⟩
  | failed saved =>
      rw [h.1] at hspoiled
      cases hspoiled

end Following

/-! ## A database that was just created -/

section Created

/-- The users' table, and nothing else. -/
def usersOnly : Dictionary :=
  (⟨fun _ => none, fun _ => none, fun _ => none⟩ : Dictionary).setTable usersTable
    (some ⟨usersColumns, false⟩)

theorem asks_usersOnly : usersOnly.Asks := fun _ _ h => by cases h

theorem all_asks_usersOnly : (Standing.sound ⟨usersOnly, none⟩).All Dictionary.Asks :=
  ⟨asks_usersOnly, fun _ hsaved => by cases hsaved⟩

theorem wellFormed_usersOnly : usersOnly.WellFormed :=
  Dictionary.WellFormed.setTable (fun _ _ h => by cases h)
    (by rintro _ ⟨⟩; exact TableEntry.wellFormed_users)

theorem sure_prepare_users (lib : Library) :
    prepare.sure (forestContract false)
      ⟨fun _ f' => Means lib f' ⟨usersOnly, none⟩, fun _ _ => True, fun _ _ => True⟩ .bare := by
  refine Prog.sure_seq (sure_bootstrap lib) ?_ (fun _ _ h => h.elim) fun _ _ h => h
  rintro _ f ⟨⟨lay, h⟩, hidle⟩
  refine (Prog.sure_bind _ _ _ _).mpr ⟨trivial, ?_, fun _ _ hfalse => hfalse.elim,
    fun _ _ hfalse => hfalse.elim⟩
  rintro _ f' rfl
  have h' : Sound lib ∅ { f with clean := true } .empty lay := h.congr rfl rfl
  refine (Prog.sure_mono (does_ensureAuthTable h') ?_ (fun _ _ _ => trivial) fun _ _ _ => trivial :
    ensureAuthTable.sure (forestContract false)
      ⟨fun _ f' => Means lib f' ⟨usersOnly, none⟩, fun _ _ => True, fun _ _ => True⟩
      { f with clean := true })
  rintro _ f'' ⟨hworking, cat, lay', hsound, hdict⟩
  refine ⟨⟨cat, lay', hsound, ?_⟩, ?_⟩
  · have hnone : (dictionary lib .empty).tables usersTable = none := rfl
    rw [hdict, if_pos hnone]
    rfl
  · rw [hworking.atBegin, hidle]
    exact .outside

theorem sure_created (lib : Library) :
    prepareAndFlush.sure (forestContract false)
      ⟨fun _ f' => Means lib f' ⟨usersOnly, none⟩ ∧ f'.clean = true, fun _ _ => True,
        fun _ _ => True⟩ .bare := by
  refine Prog.sure_seq (sure_prepare_users lib) ?_ (fun _ _ h => h) fun _ _ h => h
  rintro _ f h
  refine ⟨trivial, ?_, fun _ _ hfalse => hfalse.elim, fun _ _ hfalse => hfalse.elim⟩
  rintro _ f' rfl
  exact ⟨h.cleaned, rfl⟩

/-- A session on a database that was just created. -/
def newSession : Session := ⟨createdAtRest plainEnvironment, false⟩

theorem newSession_follows (lib : Library) : newSession.Follows lib (.sound ⟨usersOnly, none⟩) := by
  have hok : (prepareAndFlush.run (Database.answer plainEnvironment)
      (Database.ofPager Pager.created).sorting).1 = .ok () := by decide +kernel
  have hfits : prepareAndFlush.Along (Database.answer plainEnvironment)
      (fun op d => d.Regular false op) (Database.ofPager Pager.created).sorting := by decide +kernel
  obtain ⟨f, hd, hmeans, hclean⟩ := Exec.wp_ok (Prog.sure_sound (honours plainEnvironment false)
    describes_bare.sorting (sure_created lib) hfits) (Prod.ext hok rfl)
  exact ⟨rfl, ⟨f, hd, hmeans⟩, fun _ => hd.clean hclean⟩

/-- The library, on expressions that are not there. -/
def nullLibrary : Library := { plainLibrary with
  exprText := fun e => if e.isNone then some "null" else none
  parseExpr := fun text => if text = "null" then some none else none }

/-- Statements that ask for nothing. -/
def asksNothing : Statement → Bool
  | .createTable .. | .insert .. | .begin | .rollback | .alterTableRls .. => true
  | .createPolicy _ _ _ none _ => true
  | _ => false

theorem orderly_of_asksNothing {stmt : Statement} (h : asksNothing stmt = true) :
    Orderly nullLibrary stmt := by
  cases stmt with
  | createTable | insert | begin | rollback | alterTableRls => trivial
  | createPolicy name table cmd usingExpr withCheck =>
      cases usingExpr with
      | none => exact fun w hw => by cases hw
      | some e => cases h
  | _ => cases h

def isRollback : Statement → Bool
  | .rollback => true
  | _ => false

theorem eq_of_isRollback {stmt : Statement} (h : isRollback stmt = true) : stmt = .rollback := by
  cases stmt with
  | rollback => rfl
  | _ => cases h

/-- What is legal can be tried. -/
def Tried (s : Session) (c : Call) : Prop :=
  asksNothing c.stmt = true ∧
    Execute.Fits nullLibrary c.ctx plainEnvironment c.fuel c.stmt s.db ∧
    (s.spoiled = true → isRollback c.stmt = true)

instance instDecidableTried (s : Session) (c : Call) : Decidable (Tried s c) :=
  inferInstanceAs (Decidable (_ ∧ _ ∧ _))

theorem legal_of_tried {s : Session} {c : Call} (h : Tried s c) :
    s.Legal nullLibrary plainEnvironment c :=
  ⟨orderly_of_asksNothing h.1, h.2.1, fun hspoiled => eq_of_isRollback (h.2.2 hspoiled)⟩

/-- A history of the session that can be tried. -/
abbrev Goes (s : Session) (calls : List Call) (s' : Session) : Prop :=
  Trace (Session.step nullLibrary plainEnvironment)
    (Session.Legal nullLibrary plainEnvironment) s calls s'

theorem exists_goes {P : Session → Prop} [DecidablePred P] {s : Session} {calls : List Call}
    (h : ((Trace.follow (Session.step nullLibrary plainEnvironment) Tried s calls).any
      fun s' => decide (P s')) = true) : ∃ s', Goes s calls s' ∧ P s' := by
  obtain ⟨s', hrun, hP⟩ := Trace.exists_of_follow h
  exact ⟨s', hrun.weaken fun _ _ => legal_of_tried, hP⟩

def asAdmin (stmt : Statement) (succeeds : Bool) : Call := ⟨.admin, 1, stmt, succeeds⟩

def createNotes : Call :=
  asAdmin (.createTable "notes" [⟨"id", .integer, false, true⟩, ⟨"body", .text, false, false⟩]) true

def insertNote (body : String) (succeeds : Bool) : Call :=
  asAdmin (.insert "notes" none [[.intLiteral 1, .stringLiteral body]] none) succeeds

/-- A table with a row, a policy, and row-level security. -/
def prepared : List Call :=
  [createNotes, asAdmin (.createPolicy "own" "notes" .select none none) true,
    asAdmin (.alterTableRls "notes" true) true, insertNote "a" true]

/-- The key of the row is inserted again, in a transaction. -/
def disturbed : List Call := asAdmin .begin true :: [insertNote "b" false] ++ [asAdmin .rollback true]

/-- The catalog has the table. -/
def hasNotes (s : Session) : Bool :=
  match ((getTable "notes").run (Database.answer plainEnvironment) s.db).1 with
  | .ok (some _) => true
  | _ => false

theorem exists_notes {s : Session} (h : hasNotes s = true) :
    ∃ schema d, (getTable "notes").run (Database.answer plainEnvironment) s.db =
      (.ok (some schema), d) := by
  unfold hasNotes at h
  split at h
  · next schema hok => exact ⟨schema, _, Prod.ext hok rfl⟩
  · cases h

/-- The catalog has a policy on the table. -/
def hasPolicies (s : Session) : Bool :=
  match ((listPoliciesForTable nullLibrary "notes").run (Database.answer plainEnvironment) s.db).1 with
  | .ok (_ :: _) => true
  | _ => false

theorem exists_policies {s : Session} (h : hasPolicies s = true) :
    ∃ policy policies d, (listPoliciesForTable nullLibrary "notes").run
      (Database.answer plainEnvironment) s.db = (.ok (policy :: policies), d) := by
  unfold hasPolicies at h
  split at h
  · next policy policies hok => exact ⟨policy, policies, _, Prod.ext hok rfl⟩
  · cases h

theorem goes_prepared :
    ∃ s, Goes newSession prepared s ∧ (s.spoiled = false ∧ s.db.pager.inTransaction = false) ∧
      (hasNotes s = true ∧ hasPolicies s = true) ∧
      ((Trace.follow (Session.step nullLibrary plainEnvironment) Tried s
        [insertNote "b" false]).any fun _ => decide True) = true ∧
      ((Trace.follow (Session.step nullLibrary plainEnvironment) Tried s disturbed).any
        fun s' => decide (s'.spoiled = false ∧ hasNotes s' = true)) = true :=
  exists_goes (by decide +kernel)

theorem goes_disturbed :
    ∃ s', Goes newSession (prepared ++ disturbed) s' ∧ s'.spoiled = false ∧ hasNotes s' = true := by
  obtain ⟨s, hrun, -, -, -, hfollow⟩ := goes_prepared
  obtain ⟨s', hrun', hspoiled, hnotes⟩ := exists_goes hfollow
  exact ⟨s', hrun.append hrun', hspoiled, hnotes⟩

theorem follows_goes {s : Session} {calls : List Call} (h : Goes newSession calls s)
    (hspoiled : s.spoiled = false) (hidle : s.db.pager.inTransaction = false) :
    ∃ held, s.Follows nullLibrary (.sound held) ∧ held.saved = none ∧
      (Standing.sound held).All Dictionary.Asks := by
  obtain ⟨t, -, hfollows, hasks⟩ := exists_follows (newSession_follows nullLibrary)
    all_asks_usersOnly h
  obtain ⟨held, rfl, f, hd, hmeans⟩ := hfollows.exists_stands hspoiled
  rw [hd.inTransaction] at hidle
  exact ⟨held, hfollows, hmeans.restores.idle_iff.mp (Option.isNone_iff_eq_none.mp (by simpa using hidle)),
    hasks⟩

end Created

/-! ## Histories -/

section Histories

variable {lib : Library} {env : Environment} {s s' : Session} {t : Standing} {calls : List Call}

/-- The statement does not name this table's row-level security, and none of these policies. -/
structure Spares (table : String) (policies : List PolicySchema) (stmt : Statement) : Prop where
  touches : Dictionary.touches table stmt = false
  create : ∀ name cmd usingExpr withCheck, stmt ≠ .createPolicy name table cmd usingExpr withCheck
  drop : ∀ policy ∈ policies, ∀ table', stmt ≠ .dropPolicy policy.name table'

/-- The trees of the two databases are the same: their roots, and the map at each root. -/
def Alike (d d' : Database) : Prop :=
  ∃ f f', Describes d f ∧ Describes d' f' ∧ f'.now = f.now ∧ f'.root = f.root

/-- The transaction that began on this snapshot is still open. -/
def Session.Within (lib : Library) (snap : Snapshot) (s : Session) : Prop :=
  ∃ f, Describes s.db f ∧ f.atBegin = some (some snap) ∧
    (s.spoiled = true ∨ ∃ held, Means lib f held ∧ (Standing.sound held).All Dictionary.Asks)

theorem Session.within_step {snap : Snapshot} {c : Call} (h : s.Within lib snap)
    (hlegal : s.Legal lib env c) (hstays : staysIn c.stmt = true)
    (hstep : s.step lib env c = some s') : s'.Within lib snap := by
  obtain ⟨f, hd, hactive, hspoiled | ⟨held, hmeans, hasks⟩⟩ := h
  · rw [hlegal.rollsBack hspoiled] at hstays
    cases hstays
  · have hopen : f.atBegin = none → f.clean = true := fun hidle => by
      rw [hactive] at hidle
      cases hidle
    have horderly := hlegal.orderly
    have hfits := hlegal.fits
    obtain ⟨ctx, fuel, stmt, succeeds⟩ := c
    have hunforced : held.Unforced ctx := fun _ => hasks.1
    have hplain : Plain stmt := orderly_plain horderly
    rcases step_cases hstep with ⟨res, hrun, -, -⟩ | ⟨e, hrun, -, hspoiled'⟩
    · cases fuel with
      | zero => cases hrun
      | succ fuel =>
          have hfollows : Engine.Follows lib held stmt f (executeStatement lib ctx (fuel + 1) stmt) :=
            follows_execute hmeans hunforced hplain hopen
          have hexecute := Prog.sure_and hfollows
            (open_execute hmeans hunforced hplain hactive hstays)
          obtain ⟨f', hd', ⟨⟨held', hafter, hmeans'⟩, -⟩, hactive'⟩ :=
            Exec.wp_ok (Prog.sure_sound (honours env false) hd hexecute hfits) hrun
          exact ⟨f', hd', hactive', .inr ⟨held', hmeans', Standing.all_after hafter hasks
            fun _ _ hd => orderly_asks horderly hd⟩⟩
    · obtain ⟨f', hd', hfailed⟩ := execute_failed hd hmeans hunforced hplain hopen hfits hrun
      refine ⟨f', hd', hfailed.atBegin.trans hactive, ?_⟩
      cases hmutates : mutates stmt with
      | true =>
          left
          rw [hspoiled', hd.inTransaction, hactive, hmutates]
          rfl
      | false => exact .inr ⟨held, hfailed.means hmeans (.inr hmutates), hasks⟩

/-- `BEGIN` where nothing is dirty saves all trees. -/
theorem Session.within_begin {c : Call} {f : Forest} {held : Held} (hd : Describes s.db f)
    (hmeans : Means lib f held) (hidle : f.atBegin = none) (hclean : f.clean = true)
    (hasks : held.now.Asks) (hlegal : s.Legal lib env c) (hbegin : c.stmt = .begin)
    (hstep : s.step lib env c = some s') : s'.Within lib f.now := by
  obtain ⟨⟨cat, lay, hsound, hnow⟩, -⟩ := hmeans
  have hsure (fuel : Nat) : (executeStatement lib c.ctx (fuel + 1) c.stmt).sure
      (forestContract false)
      ⟨fun _ f' => f'.now = f.now ∧ f'.root = f.root ∧ f'.atBegin = some (some f.now),
        fun _ _ => False, fun _ _ => True⟩ f := by
    rw [hbegin]
    exact sure_executeBegin hidle hclean
  obtain ⟨-, -, _, f', hd', htrees, hroot, hactive⟩ := step_surely hd hsure hlegal.fits hstep
  refine ⟨f', hd', hactive, .inr ⟨⟨held.now, some held.now⟩,
    ⟨⟨cat, lay, hsound.congr htrees hroot, hnow⟩, ?_⟩, hasks, ?_⟩⟩
  · rw [hactive, hnow]
    exact .inside hsound
  · exact fun saved heq => Option.some.inj heq ▸ hasks

end Histories

end ChocoBase.Engine
