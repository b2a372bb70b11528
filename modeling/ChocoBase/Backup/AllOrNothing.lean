import ChocoBase.Backup.Texts
import ChocoBase.Engine.Created
import ChocoBase.Engine.ParsedStatements
import ChocoBase.Server.Connections

/-!
# A script in one transaction

A restore ends its transaction itself.  As long as no statement of the script ends it before,
a script that fails leaves the database as it was.
-/

namespace ChocoBase.Backup

open ChocoBase.Foundation ChocoBase.Storage ChocoBase.BTree ChocoBase.Engine ChocoBase.Sql
  ChocoBase.Types ChocoBase.Auth ChocoBase.Catalog ChocoBase.Server

/-! ## Statements in a transaction -/

/-- The statements that end a transaction. -/
def endsTransaction : Statement → Bool
  | .commit | .rollback => true
  | _ => false

/-- Within a transaction that goes back to the snapshot, the catalog is sound. -/
structure Open (lib : Library) (snap : Snapshot) (f : Forest) : Prop where
  exists_sound : ∃ cat lay, Sound lib ∅ f cat lay
  atBegin : f.atBegin = some (some snap)

section Statement

variable {lib : Library} {snap : Snapshot} {f : Forest} {cat : OrdMap Bytes Bytes} {lay : Layout}

theorem unforced_admin : Unforced lib cat .admin := fun hadmin => by cases hadmin

/-- A statement leaves the transaction open, whether it fails or not. -/
theorem open_executeStatement (h : Open lib snap f) {stmt : Statement} (hplain : Plain stmt)
    (hstmt : endsTransaction stmt = false) (fuel : Nat) :
    (executeStatement lib .admin (fuel + 1) stmt).sure (forestContract false)
      ⟨fun _ f' => Open lib snap f', fun _ f' => f'.atBegin = some (some snap), fun _ _ => True⟩
      f := by
  obtain ⟨⟨cat, lay, hsound⟩, hactive⟩ := h
  by_cases hmutates : mutates stmt = true
  · rw [executeStatement_mutates hmutates]
    refine Prog.sure_seq looks_inTransaction ?_ (fun _ _ h => h.2.elim) fun _ _ h => h
    rintro _ f ⟨-, rfl, rfl⟩
    rw [hactive]
    have hsome : f.atBegin.isSome := by rw [hactive]; rfl
    refine Prog.sure_mono (does_executeMutating hsound unforced_admin hsome
      (fun _ hquery => hquery.peeks hsound unforced_admin) hplain) ?_ ?_ fun _ _ h => h
    · rintro _ f' ⟨hworking, cat', lay', hsound', -⟩
      exact ⟨⟨cat', lay', hsound'⟩, hworking.atBegin.trans hactive⟩
    · rintro _ f' ⟨hworking, -⟩
      exact hworking.atBegin.trans hactive
  · have hpeeks {x : DbProg DbError ExecResult} (hx : Peeks f x) :
        x.sure (forestContract false)
          ⟨fun _ f' => Open lib snap f', fun _ f' => f'.atBegin = some (some snap),
            fun _ _ => True⟩ f := by
      refine Prog.sure_mono hx ?_ ?_ fun _ _ h => h
      · rintro _ f' ⟨rfl, -⟩
        exact ⟨⟨cat, lay, hsound⟩, hactive⟩
      · rintro _ f' ⟨rfl, -⟩
        exact hactive
    cases stmt with
    | select columns table tableRef whereClause groupBy having orderBy limit =>
        exact hpeeks (Query.peeks hsound unforced_admin hplain)
    | explain inner => exact hpeeks (Peeks.seq (peeks_explain hsound inner) fun _ => peeks_pure _)
    | begin =>
        refine hpeeks (Views.seq ((looks_inTransaction.views (Prog.only_request trivial)).mono
          (fun _ h => h) fun _ h => h.elim) ?_)
        rintro _ rfl
        rw [hactive]
        exact views_throw trivial
    | commit => cases hstmt
    | rollback => cases hstmt
    | _ => exact absurd rfl hmutates

/-- Dropping a table fails only where there is none, and then nothing has changed. -/
theorem open_dropTable (h : Open lib snap f) (name : String) (fuel : Nat) :
    (executeStatement lib .admin (fuel + 1) (.dropTable name)).sure (forestContract false)
      ⟨fun _ f' => Open lib snap f', fun _ f' => Open lib snap f', fun _ _ => True⟩ f := by
  obtain ⟨⟨cat, lay, hsound⟩, hactive⟩ := h
  have hopen {f' : Forest} (hworking : Working f f') (hsound' : ∃ cat lay, Sound lib ∅ f' cat lay) :
      Open lib snap f' := ⟨hsound', hworking.atBegin.trans hactive⟩
  rw [executeStatement_mutates rfl]
  refine Prog.sure_seq looks_inTransaction ?_ (fun _ _ h => h.2.elim) fun _ _ h => h
  rintro _ f ⟨-, rfl, rfl⟩
  rw [hactive]
  have hdone : (Catalog.dropTable name).sure (forestContract false)
      ⟨fun _ f' => Open lib snap f', fun _ f' => Open lib snap f', fun _ _ => True⟩ f := by
    cases habsent : cat.get (tableKey name) with
    | none =>
        refine Prog.sure_seq (hsound.views_requireTable name) ?_ ?_ fun _ _ h => h
        · rintro schema _ ⟨rfl, rfl, ht⟩
          rw [ht.recorded] at habsent
          cases habsent
        · rintro _ f' ⟨rfl, -⟩
          exact hopen (.refl _) ⟨cat, lay, hsound⟩
    | some payload =>
        refine Prog.sure_mono (hsound.dropTable name) ?_ ?_ fun _ _ h => h
        · rintro _ f' ⟨hworking, schema, -, -, cat', lay', hremoved⟩
          exact hopen hworking ⟨cat', lay', hremoved.sound⟩
        · rintro _ f' ⟨-, hnone⟩
          rw [habsent] at hnone
          cases hnone
  exact Prog.sure_seq hdone (fun _ _ h => h) (fun _ _ h => h) fun _ _ h => h

end Statement

/-! ## The script -/

section Script

-- what the program writes itself is not to be parsed by unfolding
attribute [local irreducible] parse

variable {host : Host} {f₀ f : Forest} {cat : OrdMap Bytes Bytes} {lay : Layout} {sql : String}

theorem sure_execute {Q : Exec.Post Forest QueryError ExecResult}
    (herror : ∀ e, parse host.text host.debugToken sql = .error e → Q.error (.parse e) f)
    (hstop : ∀ why, Q.stop why f)
    (hstmt : ∀ stmt, parse host.text host.debugToken sql = .ok stmt →
      (executeStatement host.lib .admin (host.depth + 1) stmt).sure (forestContract false)
        ⟨Q.ok, fun e f' => Q.error (.db e) f', Q.stop⟩ f) :
    (execute host sql).sure (forestContract false) Q f := by
  rw [execute]
  cases hparse : parse host.text host.debugToken sql with
  | ok stmt => exact (Prog.sure_mapError _ _ _ _).mpr (hstmt stmt hparse)
  | error e => exact herror e hparse
  | stop why => exact hstop why

/-- A statement that is parsed for sure. -/
theorem sure_execute_of_parse {Q : Exec.Post Forest QueryError ExecResult} {stmt : Statement}
    (hparse : parse host.text host.debugToken sql = .ok stmt)
    (h : (executeStatement host.lib .admin (host.depth + 1) stmt).sure (forestContract false)
      ⟨Q.ok, fun e f' => Q.error (.db e) f', Q.stop⟩ f) :
    (execute host sql).sure (forestContract false) Q f := by
  rw [execute, hparse]
  exact (Prog.sure_mapError _ _ _ _).mpr h

/-- A failure inside of the transaction is undone. -/
theorem sure_rollback (hascii : host.text.LikeAscii) (h : Housed f₀ cat lay)
    (hactive : f.atBegin = some (some f₀.now)) (e : QueryError) :
    (do executeIgnored host "ROLLBACK"; Prog.throw e : DbProg QueryError Unit).sure
      (forestContract false) ⟨fun _ _ => False, fun _ f' => Closed f₀ f', fun _ _ => True⟩ f := by
  have hrollback : (execute host "ROLLBACK").sure (forestContract false)
      ⟨fun _ f' => Closed f₀ f', fun _ _ => False, fun _ _ => True⟩ f :=
    sure_execute_of_parse (parse_rollback hascii) (Prog.sure_mono (sure_executeRollback h hactive)
      (fun _ _ h => h) (fun _ _ h => h.elim) fun _ _ h => h)
  refine (Prog.sure_bind _ _ _ _).mpr ((Prog.sure_bind _ _ _ _).mpr
    ((Prog.sure_attempt _ _ _).mpr (Prog.sure_mono hrollback ?_ ?_ fun _ _ h => h)))
  · exact fun _ _ hclosed => hclosed
  · exact fun _ _ hfalse => hfalse.elim

/-- Whatever is dropped, the transaction stays open. -/
theorem sure_dropExisting (hascii : host.text.LikeAscii) {snap : Snapshot}
    (h : Open host.lib snap f) (stmt : String) :
    (dropExisting host stmt).sure (forestContract false)
      ⟨fun _ f' => Open host.lib snap f', fun _ _ => False, fun _ _ => True⟩ f := by
  unfold dropExisting
  split
  · exact h
  · next name _ =>
      obtain ⟨cat, lay, hsound⟩ := h.exists_sound
      refine (Prog.sure_bind _ _ _ _).mpr ((Prog.sure_attempt _ _ _).mpr
        (Prog.sure_mono (hsound.views_getTable name) ?_ ?_ fun _ _ _ => trivial))
      · rintro found f ⟨rfl, -⟩
        cases found with
        | none => exact h
        | some schema =>
            have hdrop : (execute host ("DROP TABLE " ++ name)).sure (forestContract false)
                ⟨fun _ f' => Open host.lib snap f', fun _ f' => Open host.lib snap f',
                  fun _ _ => True⟩ f :=
              sure_execute (fun _ _ => h) (fun _ => trivial) fun stmt hparse => by
                obtain ⟨table, rfl⟩ := parse_dropTable hascii hparse
                exact open_dropTable h table host.depth
            exact (Prog.sure_bind _ _ _ _).mpr ((Prog.sure_attempt _ _ _).mpr hdrop)
      · rintro _ f ⟨rfl, -⟩
        exact h

/-- None of the statements of the script ends the transaction. -/
def StaysOpen (host : Host) (stmts : List String) : Prop :=
  ∀ text ∈ stmts, ∀ stmt, parse host.text host.debugToken (cleanedStmt host text) = .ok stmt →
    endsTransaction stmt = false

/-- A statement is executed, or everything is as before the transaction. -/
theorem sure_executeOrRollback (hascii : host.text.LikeAscii) (h₀ : Housed f₀ cat lay)
    (h : Open host.lib f₀.now f)
    (hstays : ∀ stmt, parse host.text host.debugToken sql = .ok stmt →
      endsTransaction stmt = false) :
    (executeOrRollback host sql).sure (forestContract false)
      ⟨fun _ f' => Open host.lib f₀.now f', fun _ f' => Closed f₀ f', fun _ _ => True⟩ f := by
  have hexecute : (execute host sql).sure (forestContract false)
      ⟨fun _ f' => Open host.lib f₀.now f', fun _ f' => f'.atBegin = some (some f₀.now),
        fun _ _ => True⟩ f :=
    sure_execute (fun _ _ => h.atBegin) (fun _ => trivial) fun stmt hparse =>
      open_executeStatement h (parse_plain hparse) (hstays stmt hparse) host.depth
  refine (Prog.sure_bind _ _ _ _).mpr ((Prog.sure_attempt _ _ _).mpr
    (Prog.sure_mono hexecute (fun _ _ h => h) ?_ fun _ _ h => h))
  intro e f₁ hactive
  exact Prog.sure_mono (sure_rollback hascii h₀ hactive e) (fun _ _ h => h.elim) (fun _ _ h => h)
    fun _ _ h => h

theorem sure_restoreLoop (hascii : host.text.LikeAscii) (h₀ : Housed f₀ cat lay)
    {stmts : List String} (h : Open host.lib f₀.now f) (hstays : StaysOpen host stmts) :
    (restoreLoop host stmts).sure (forestContract false)
      ⟨fun _ f' => Open host.lib f₀.now f', fun _ f' => Closed f₀ f', fun _ _ => True⟩ f := by
  induction stmts generalizing f with
  | nil => exact h
  | cons stmt stmts ih =>
      have hrest : StaysOpen host stmts := fun text hmem =>
        hstays text (List.mem_cons_of_mem _ hmem)
      rw [restoreLoop]
      split
      · exact ih h hrest
      · refine Prog.sure_seq (sure_dropExisting hascii h _) ?_ (fun _ _ h => h.elim)
          fun _ _ h => h
        intro _ f₁ h₁
        refine Prog.sure_seq (sure_executeOrRollback hascii h₀ h₁ (hstays stmt List.mem_cons_self))
          ?_ (fun _ _ h => h) fun _ _ h => h
        intro _ f₂ h₂
        exact Prog.sure_seq (ih h₂ hrest) (fun _ _ h => h) (fun _ _ h => h) fun _ _ h => h

theorem sure_execute_begin (hascii : host.text.LikeAscii) (h : Sound host.lib ∅ f cat lay)
    (hidle : f.atBegin = none) (hclean : f.clean = true) :
    (execute host "BEGIN TRANSACTION").sure (forestContract false)
      ⟨fun _ f' => Open host.lib f.now f', fun _ _ => False, fun _ _ => True⟩ f := by
  refine sure_execute_of_parse (parse_begin hascii) ?_
  refine Prog.sure_seq looks_inTransaction ?_ (fun _ _ h => h.2.elim) fun _ _ h => h
  rintro _ f ⟨-, rfl, rfl⟩
  rw [hidle]
  refine ⟨trivial, ?_, fun _ _ hfalse => hfalse.elim, fun _ _ hfalse => hfalse.elim⟩
  rintro _ f₁ rfl
  refine ⟨hidle, ?_, fun _ _ hfalse => hfalse.elim, fun _ _ hfalse => hfalse.elim⟩
  rintro _ f₂ rfl
  exact ⟨⟨cat, lay, h.congr rfl rfl⟩, congrArg some (if_pos hclean)⟩

theorem sure_execute_commit (hascii : host.text.LikeAscii) {snap : Snapshot}
    (h : Open host.lib snap f) :
    (execute host "COMMIT").sure (forestContract false)
      ⟨fun _ f' => AtRest host.lib f', fun _ _ => False, fun _ _ => True⟩ f := by
  obtain ⟨⟨cat, lay, hsound⟩, hactive⟩ := h
  refine sure_execute_of_parse (parse_commit hascii) ?_
  refine Prog.sure_seq looks_inTransaction ?_ (fun _ _ h => h.2.elim) fun _ _ h => h
  rintro _ f ⟨-, rfl, rfl⟩
  rw [hactive]
  refine sure_commit (by rw [hactive]; exact Option.some_ne_none _) fun f' hclosed => ?_
  exact ⟨⟨cat, lay, hsound.congr hclosed.now hclosed.root⟩, hclosed.idle, hclosed.clean⟩

/-- A transaction whose body undoes its failures itself. -/
theorem sure_inTransaction (hascii : host.text.LikeAscii) (h : AtRest host.lib f)
    {body : DbProg QueryError Nat} (total : Nat)
    (hbody : ∀ cat lay f₁, Housed f cat lay → Open host.lib f.now f₁ →
      body.sure (forestContract false)
        ⟨fun _ f' => Open host.lib f.now f', fun _ f' => Closed f f', fun _ _ => True⟩ f₁) :
    (do
      let _ ← execute host "BEGIN TRANSACTION"
      let count ← body
      let _ ← execute host "COMMIT"
      return total + count : DbProg QueryError Nat).sure (forestContract false)
      ⟨fun _ f' => AtRest host.lib f', fun _ f' => Closed f f', fun _ _ => True⟩ f := by
  obtain ⟨cat, lay, hsound⟩ := h.exists_sound
  refine Prog.sure_seq (sure_execute_begin hascii hsound h.idle h.clean) ?_
    (fun _ _ h => h.elim) fun _ _ h => h
  intro _ f₁ h₁
  refine Prog.sure_seq (hbody cat lay f₁ hsound.toHoused h₁) ?_ (fun _ _ h => h) fun _ _ h => h
  intro count f₂ h₂
  exact Prog.sure_seq (sure_execute_commit hascii h₂) (fun _ _ h => h) (fun _ _ h => h.elim)
    fun _ _ h => h

/-- What a script leaves of a database at rest. -/
theorem sure_restoreDatabase (hascii : host.text.LikeAscii) (h : AtRest host.lib f)
    (hstays : ∀ stmts ∈ splitStatements host.text sql, StaysOpen host stmts) :
    (restoreDatabase host sql).sure (forestContract false)
      ⟨fun _ f' => AtRest host.lib f', fun _ f' => Closed f f', fun _ _ => True⟩ f := by
  unfold restoreDatabase
  split
  · trivial
  · exact h
  · next stmts _ hsplit =>
      have hrun := sure_inTransaction hascii h 0 fun cat lay f₁ hhoused h₁ =>
        sure_restoreLoop hascii hhoused h₁ (hstays _ hsplit)
      simpa only [Nat.zero_add] using hrun

end Script

/-! ## The count -/

section Count

variable {host : Host} {d d' : Database} {n : Nat}

/-- Run a text on a database. -/
def runsTo (host : Host) (sql : String) (d d' : Database) : Prop :=
  ∃ res, (execute host sql).run (Database.answer host.env) d = (.ok res, d')

/--
These texts run one after the other without an error, `n` of them.  A text that creates a
table runs where there is none of the name: one that was there has been dropped.
-/
inductive Performs (host : Host) : List String → Database → Nat → Database → Prop where
  | nil {d : Database} : Performs host [] d 0 d
  | skip {stmt : String} {stmts : List String} {d d' : Database} {n : Nat}
      (hempty : cleanedStmt host stmt = "") (hrest : Performs host stmts d n d') :
      Performs host (stmt :: stmts) d n d'
  | perform {stmt : String} {stmts : List String} {d d₁ d₂ d' : Database} {n : Nat}
      (hne : cleanedStmt host stmt ≠ "")
      (hdrop : (dropExisting host (cleanedStmt host stmt)).run (Database.answer host.env) d =
        (.ok (), d₁))
      (hrun : runsTo host (cleanedStmt host stmt) d₁ d₂) (hrest : Performs host stmts d₂ n d') :
      Performs host (stmt :: stmts) d (n + 1) d'

/-- All texts are counted that are not empty without their comments. -/
theorem Performs.count {stmts : List String} (h : Performs host stmts d n d') :
    n = (stmts.filter fun stmt => cleanedStmt host stmt ≠ "").length := by
  induction h with
  | nil => rfl
  | skip hempty _ ih => rw [ih, List.filter_cons_of_neg (by simpa using hempty)]
  | perform hne _ _ _ ih =>
      rw [ih, List.filter_cons_of_pos (by simpa using hne), List.length_cons]

theorem runsTo_of_executeOrRollback {sql : String} {u : Unit}
    (h : (executeOrRollback host sql).run (Database.answer host.env) d = (.ok u, d')) :
    runsTo host sql d d' := by
  obtain ⟨result, d₁, hrun, h, -⟩ := Prog.exists_of_bind_ok h
  cases result with
  | ok res =>
      cases h
      exact ⟨res, Prog.run_attempt_ok hrun⟩
  | error e =>
      obtain ⟨-, d₂, -, h, -⟩ := Prog.exists_of_bind_ok h
      cases h

theorem performs_of_restoreLoop {stmts : List String}
    (h : (restoreLoop host stmts).run (Database.answer host.env) d = (.ok n, d')) :
    Performs host stmts d n d' := by
  induction stmts generalizing d n with
  | nil =>
      cases h
      exact .nil
  | cons stmt stmts ih =>
      rw [restoreLoop] at h
      split at h
      · next hempty => exact .skip hempty (ih h)
      · next hne =>
          obtain ⟨_, d₁, hdrop, h, -⟩ := Prog.exists_of_bind_ok h
          obtain ⟨_, d₂, hrun, h, -⟩ := Prog.exists_of_bind_ok h
          obtain ⟨count, d₃, hrest, h, -⟩ := Prog.exists_of_bind_ok h
          cases h
          exact .perform hne hdrop (runsTo_of_executeOrRollback hrun) (ih hrest)

/-- The texts of the script run in one transaction, `n` of them. -/
def Restored (host : Host) (sql : String) (d : Database) (n : Nat) (d' : Database) : Prop :=
  ∃ stmts, splitStatements host.text sql = some stmts ∧
    if stmts = [] then n = 0 ∧ d' = d
    else ∃ d₁ d₂, runsTo host "BEGIN TRANSACTION" d d₁ ∧ Performs host stmts d₁ n d₂ ∧
      runsTo host "COMMIT" d₂ d'

theorem restored_of_ok {sql : String}
    (h : (restoreDatabase host sql).run (Database.answer host.env) d = (.ok n, d')) :
    Restored host sql d n d' := by
  unfold restoreDatabase at h
  split at h
  · cases h
  · next hsplit =>
      cases h
      exact ⟨[], hsplit, if_pos rfl |>.mpr ⟨rfl, rfl⟩⟩
  · next stmts hne hsplit =>
      obtain ⟨res, d₁, hbegin, h, -⟩ := Prog.exists_of_bind_ok h
      obtain ⟨count, d₂, hloop, h, -⟩ := Prog.exists_of_bind_ok h
      obtain ⟨res', d₃, hcommit, h, -⟩ := Prog.exists_of_bind_ok h
      cases h
      have hne' : stmts ≠ [] := fun heq => hne (heq ▸ rfl)
      refine ⟨stmts, hsplit, ?_⟩
      rw [if_neg hne']
      exact ⟨d₁, d₂, ⟨res, hbegin⟩, performs_of_restoreLoop hloop, ⟨res', hcommit⟩⟩

end Count

/-! ## All or nothing -/

/--
A script none of whose statements ends a transaction, on a database at rest: if it fails, all
trees are as before, those of the tables, of the indexes and of the catalog, and no transaction
is open; if not, all its statements were executed in one transaction.
-/
theorem restore_all_or_nothing {host : Host} {d d' : Database} {f : Forest} {sql : String}
    (hascii : host.text.LikeAscii) (hd : Describes d f) (hrest : AtRest host.lib f)
    (hstays : ∀ stmts ∈ splitStatements host.text sql, StaysOpen host stmts)
    (hfits : (restoreDatabase host sql).Along (Database.answer host.env)
      (fun op d => d.Regular false op) d) :
    (∀ e, (restoreDatabase host sql).run (Database.answer host.env) d = (.error e, d') →
      ∃ f', Describes d' f' ∧ f'.now = f.now ∧ f'.root = f.root ∧ f'.atBegin = none) ∧
    ∀ n, (restoreDatabase host sql).run (Database.answer host.env) d = (.ok n, d') →
      Restored host sql d n d' ∧ ∃ f', Describes d' f' ∧ AtRest host.lib f' := by
  have hwp := Prog.sure_sound (honours host.env false) hd (sure_restoreDatabase hascii hrest hstays)
    hfits
  refine ⟨fun e hrun => ?_, fun n hrun => ⟨restored_of_ok hrun, Exec.wp_ok hwp hrun⟩⟩
  obtain ⟨f', hd', hclosed⟩ := Exec.wp_error hwp hrun
  exact ⟨f', hd', hclosed.now, hclosed.root, hclosed.idle⟩

/-! ## Small scripts -/

section Scripts

open Running (plainHost)

-- the runs are evaluated by the kernel alone
attribute [local irreducible] prepareAndFlush restoreDatabase

/-- The users are read, and what follows is no statement. -/
def readAndFail : String := "SELECT * FROM _users; '"

def fails : Outcome QueryError Nat → Bool
  | .error _ => true
  | _ => false

theorem exists_of_fails {x : Outcome QueryError Nat × Database} (h : fails x.1 = true) :
    ∃ e d', x = (.error e, d') := by
  obtain ⟨n | e | why, d'⟩ := x
  · cases h
  · exact ⟨e, d', rfl⟩
  · cases h

/-- The text is parsed as a statement that ends a transaction. -/
def parsesEnd (text : String) : Bool :=
  match parse plainHost.text plainHost.debugToken (cleanedStmt plainHost text) with
  | .ok stmt => endsTransaction stmt
  | _ => false

theorem staysOpen_of_parses {stmts : List String} (h : ∀ text ∈ stmts, parsesEnd text = false) :
    StaysOpen plainHost stmts := by
  intro text htext stmt hstmt
  have hends := h text htext
  rwa [parsesEnd, hstmt] at hends

theorem restore_readAndFail :
    ∃ f d' f', Describes (createdAtRest plainHost.env) f ∧ Describes d' f' ∧ f'.now = f.now ∧
      f'.root = f.root ∧ f'.atBegin = none := by
  have hrun : (restoreDatabase plainHost readAndFail).Along (Database.answer plainHost.env)
        (fun op d => d.Regular false op) (createdAtRest plainHost.env) ∧
      fails ((restoreDatabase plainHost readAndFail).run (Database.answer plainHost.env)
        (createdAtRest plainHost.env)).1 = true := by decide +kernel
  obtain ⟨f, hd, hrest⟩ := createdAtRest_plain plainHost.lib
  have hstays : ∀ stmts ∈ splitStatements plainHost.text readAndFail,
      StaysOpen plainHost stmts := by
    have hsplit : splitStatements plainHost.text readAndFail =
        some ["SELECT * FROM _users", "'"] := by decide +kernel
    have hparse : ∀ text ∈ ["SELECT * FROM _users", "'"], parsesEnd text = false := by
      decide +kernel
    intro stmts hstmts
    obtain rfl := Option.some.inj (hsplit.symm.trans hstmts)
    exact staysOpen_of_parses hparse
  obtain ⟨e, d', hrestore⟩ := exists_of_fails hrun.2
  have hkept := @restore_all_or_nothing plainHost _ d' f readAndFail asciiLibrary_likeAscii hd
    hrest hstays hrun.1
  obtain ⟨f', hd', hkept⟩ := hkept.1 e hrestore
  exact ⟨f, d', f', hd, hd', hkept⟩

/-- A database with a table. -/
def oneTable : Database :=
  Database.runAll plainHost.lib plainHost.env [.createTable "t" [⟨"id", .integer, true, true⟩]]
    (Database.created plainHost.env).2.sorting

/-- Whether the catalog has a table. -/
def hasTable (name : String) (d : Database) : Bool :=
  match ((Catalog.getTable name).run (Database.answer plainHost.env) d).1 with
  | .ok found => found.isSome
  | _ => false

/-- The texts run one after the other. -/
def RunsAll (host : Host) : List String → Database → Database → Prop
  | [], d, d' => d' = d
  | sql :: sqls, d, d' => ∃ d₁, runsTo host sql d d₁ ∧ RunsAll host sqls d₁ d'

def dropAndCommit : String := "DROP TABLE t; COMMIT; '"

def createAgain : String := "CREATE TABLE t (id INTEGER PRIMARY KEY)"

def hasNoSemicolon : Outcome ParseError (List SpannedToken) → Bool
  | .ok tokens => decide (∀ sp ∈ tokens, sp.token ≠ .semicolon)
  | _ => false

theorem splitStatements_of_tokens {sql : String}
    (h : hasNoSemicolon (tokenize plainHost.text sql) = true)
    (htrim : Text.trim plainHost.text.isWhitespace sql.toList = sql.toList)
    (hne : sql.toList ≠ []) : splitStatements plainHost.text sql = some [sql] := by
  cases htokens : tokenize plainHost.text sql with
  | ok tokens =>
      rw [htokens] at h
      have hsplit := splitStatements_single htokens (of_decide_eq_true h) (by rwa [htrim])
      rwa [htrim, String.ofList_toList] at hsplit
  | error e =>
      rw [htokens] at h
      cases h
  | stop why =>
      rw [htokens] at h
      cases h

theorem splitStatements_createAgain :
    splitStatements plainHost.text createAgain = some [createAgain] :=
  splitStatements_of_tokens (by decide +kernel) (by decide +kernel) (by decide)

def succeeds {α : Type} : Outcome QueryError α → Bool
  | .ok _ => true
  | _ => false

/-- The script drops its table, so that its statement succeeds where it would fail alone. -/
theorem restore_createAgain :
    succeeds ((restoreDatabase plainHost createAgain).run (Database.answer plainHost.env)
      oneTable).1 = true ∧
    succeeds ((execute plainHost createAgain).run (Database.answer plainHost.env)
      ((execute plainHost "BEGIN TRANSACTION").run (Database.answer plainHost.env)
        oneTable).2).1 = false := by
  have hscript : restoreDatabase plainHost createAgain = (do
      let _ ← execute plainHost "BEGIN TRANSACTION"
      let count ← restoreLoop plainHost [createAgain]
      let _ ← execute plainHost "COMMIT"
      return count) := by
    rw [restoreDatabase, splitStatements_createAgain]
  rw [hscript]
  decide +kernel

/--
A script that commits itself and then fails leaves the table dropped, and one that creates a
table that exists succeeds, although its only statement does not.
-/
theorem restore_neither :
    (¬∀ d d' sql e, (restoreDatabase plainHost sql).run (Database.answer plainHost.env) d =
      (.error e, d') → ∀ name, hasTable name d' = hasTable name d) ∧
    ¬∀ d d' sql n, (restoreDatabase plainHost sql).run (Database.answer plainHost.env) d =
      (.ok n, d') → ∃ stmts, splitStatements plainHost.text sql = some stmts ∧
        stmts.length = n ∧
        RunsAll plainHost (["BEGIN TRANSACTION"] ++ stmts ++ ["COMMIT"]) d d' := by
  constructor
  · have hdropped : fails ((restoreDatabase plainHost dropAndCommit).run
        (Database.answer plainHost.env) oneTable).1 = true ∧ hasTable "t" oneTable = true ∧
        hasTable "t" ((restoreDatabase plainHost dropAndCommit).run
          (Database.answer plainHost.env) oneTable).2 = false := by decide +kernel
    intro h
    obtain ⟨e, d', hrun⟩ := exists_of_fails hdropped.1
    have hkept := h oneTable d' dropAndCommit e hrun "t"
    have hgone := hdropped.2.2
    rw [hrun, hkept, hdropped.2.1] at hgone
    cases hgone
  · intro h
    rcases hrun : (restoreDatabase plainHost createAgain).run (Database.answer plainHost.env)
      oneTable with ⟨n | e | why, d'⟩
    · obtain ⟨stmts, hsplit, -, d₁, ⟨res, hbegin⟩, hrest⟩ := h oneTable d' createAgain n hrun
      obtain rfl := Option.some.inj (splitStatements_createAgain.symm.trans hsplit)
      obtain ⟨d₂, ⟨res', hcreate⟩, -⟩ := hrest
      have hfails := restore_createAgain.2
      rw [hbegin, hcreate] at hfails
      cases hfails
    · have hsucceeds := restore_createAgain.1
      rw [hrun] at hsucceeds
      cases hsucceeds
    · have hsucceeds := restore_createAgain.1
      rw [hrun] at hsucceeds
      cases hsucceeds

example : splitStatements plainHost.text dropAndCommit ≠ none := by decide +kernel

end Scripts

end ChocoBase.Backup
