import ChocoBase.Backup.PointInTime
import ChocoBase.Foundation.StableSort
import ChocoBase.Sql.InsertTexts
import ChocoBase.Sql.QuoteDoubling

/-!
# Migrations

A migration is a script with a version.  It runs in a transaction of its own, which also
writes its record; a version that has a record is skipped.  The records are kept in a
table of the database itself.
-/

namespace ChocoBase.Backup

open ChocoBase.Foundation ChocoBase.Storage ChocoBase.BTree ChocoBase.Engine ChocoBase.Sql
  ChocoBase.Types ChocoBase.Auth ChocoBase.Catalog ChocoBase.Server

structure Migration where
  version : Int64
  name : String
  sql : String

structure AppliedMigration where
  id : Int64
  version : Int64
  name : String
  appliedAt : UInt64

/-! ## The records -/

section Records

def integerOrZero : Value → Int64
  | .integer n => n
  | _ => 0

def textOrEmpty : Value → String
  | .text s => s
  | _ => ""

/-- The record in a row; none where the row is too short. -/
def appliedOf (row : Row) : Option AppliedMigration := do
  return {
    id := integerOrZero (← row[0]?)
    version := integerOrZero (← row[1]?)
    name := textOrEmpty (← row[2]?)
    appliedAt := (integerOrZero (← row[3]?)).toUInt64 }

def createMigrationsTable : String :=
  "CREATE TABLE _migrations " ++ ("(id INTEGER PRIMARY KEY, version INTEGER NOT NULL, " ++
    "name TEXT NOT NULL, applied_at INTEGER NOT NULL)")

def selectMigrations : String :=
  "SELECT id, version, name, applied_at " ++ "FROM _migrations ORDER BY version ASC"

def recordSql (record : AppliedMigration) : String :=
  "INSERT INTO _migrations (id, version, name, applied_at) VALUES (" ++
    (toString record.id.toInt ++ ", " ++ toString record.version.toInt ++ ", '" ++
      escapeSqlString record.name ++ "', " ++ toString record.appliedAt.toNat ++ ")")

def deleteSql (record : AppliedMigration) : String :=
  "DELETE FROM _migrations WHERE version = " ++ toString record.version.toInt

end Records

/-! ## The runner -/

section Runner

variable (host : Host)

/-- `table_schema`; an error is no table. -/
def tableSchema (name : String) : DbProg QueryError (Option TableSchema) := do
  let found : Except DbError (Option TableSchema) ← (Catalog.getTable name).attempt
  return match found with
    | .ok found => found
    | .error _ => none

def ensureMigrationsTable : DbProg QueryError Unit := do
  let found ← tableSchema "_migrations"
  if found.isNone then do
    let _ ← execute host createMigrationsTable
    return ()
  else return ()

def getAppliedMigrations : DbProg QueryError (List AppliedMigration) := do
  ensureMigrationsTable host
  let res ← execute host selectMigrations
  match res with
  | .rows _ rows => Prog.unwrap (rows.mapM appliedOf)
  | _ => return []

/-- The statements of a script; an error is met with a `ROLLBACK`. -/
def runStatements : List String → DbProg QueryError Unit
  | [] => return ()
  | stmt :: stmts =>
      let s := String.ofList (Text.trim host.text.isWhitespace stmt.toList)
      if s = "" then runStatements stmts
      else do
        executeOrRollback host s
        runStatements stmts

def runScript (sql : String) : DbProg QueryError Unit :=
  match splitStatements host.text sql with
  | none => .halt .panic
  | some stmts => runStatements host stmts

def inTransaction {α : Type} (body : DbProg QueryError α) : DbProg QueryError α := do
  let _ ← execute host "BEGIN TRANSACTION"
  let a ← body
  let _ ← execute host "COMMIT"
  return a

def now : DbProg QueryError UInt64 := (ask fromPager .now : DbProg DbError UInt64).mapError .db

/-- What happens between `BEGIN` and `COMMIT`. -/
def applyBody (maxId : Int64) (m : Migration) : DbProg QueryError AppliedMigration := do
  runScript host m.sql
  if maxId.toInt + 1 ≥ 2 ^ 63 then .halt .overflow
  else do
    let time ← now
    let record : AppliedMigration := ⟨maxId + 1, m.version, m.name, time⟩
    executeOrRollback host (recordSql record)
    return record

def applyLoop (versions : List Int64) : Int64 → List Migration → DbProg QueryError (List AppliedMigration)
  | _, [] => return []
  | maxId, m :: ms =>
      if m.version ∈ versions then applyLoop versions maxId ms
      else do
        let record ← inTransaction host (applyBody host maxId m)
        let rest ← applyLoop versions (maxId + 1) ms
        return record :: rest

/-- `sort_by_key` -/
def byVersion (ms : List Migration) : List Migration :=
  ms.insertionSort fun m m' => m.version ≤ m'.version

def highestId (applied : List AppliedMigration) : Int64 :=
  ((applied.map AppliedMigration.id).max?).getD 0

def applyAll (ms : List Migration) : DbProg QueryError (List AppliedMigration) := do
  ensureMigrationsTable host
  let applied ← getAppliedMigrations host
  applyLoop host (applied.map AppliedMigration.version) (highestId applied) (byVersion ms)

def rollbackBody (downSql : String) (last : AppliedMigration) : DbProg QueryError Unit := do
  runScript host downSql
  executeOrRollback host (deleteSql last)

def rollbackLast (downSql : String) : DbProg QueryError (Option AppliedMigration) := do
  ensureMigrationsTable host
  let applied ← getAppliedMigrations host
  match applied.getLast? with
  | none => return none
  | some last => do
      inTransaction host (rollbackBody host downSql last)
      return some last

end Runner

/-! ## The runner's own statements -/

section Texts

open Parser

variable {text : TextLibrary} {debugToken : Token → String} {stmt : Statement}

/-- What a text is parsed as that starts with one's own. -/
theorem yields_of_starts (hascii : text.LikeAscii) {P : Statement → Prop} {own rest : String}
    {t : Token} {x : Parse Expr → Parse Statement} (hstart : Starts debugToken t x)
    (hyields : ∀ w, Exec.Yields P (x w)) (hisOwn : isOwn own) (hcloses : closes own.toList)
    (hfirst : (ownTokens own).head? = some t)
    (h : parse text debugToken (own ++ rest) = .ok stmt) : P stmt := by
  obtain ⟨a, following, p', fuel, hrun⟩ := parse_word hascii hisOwn hcloses hfirst h
  rw [hstart] at hrun
  exact (hyields _).bind (fun _ hP => Exec.yields_seq fun _ => Exec.yields_pure hP) _ _ _ hrun

theorem endsTransaction_recordSql (hascii : text.LikeAscii) {record : AppliedMigration}
    (h : parse text debugToken (recordSql record) = .ok stmt) : endsTransaction stmt = false := by
  delta recordSql at h
  have hinsert : stmt.isInsert = true := yields_of_starts hascii starts_insert
    (parseInsert_yields debugToken) (by decide +kernel) (by decide) (by decide +kernel) h
  cases stmt with
  | insert => rfl
  | _ => cases hinsert

theorem starts_delete : Starts debugToken .delete (parseDelete debugToken) := fun _ _ _ _ => rfl

theorem endsTransaction_deleteSql (hascii : text.LikeAscii) {record : AppliedMigration}
    (h : parse text debugToken (deleteSql record) = .ok stmt) : endsTransaction stmt = false := by
  have hdelete (w : Parse Expr) : Exec.Yields (fun stmt => endsTransaction stmt = false)
      (parseDelete debugToken w) :=
    Exec.yields_seq fun _ => Exec.yields_seq fun _ => Exec.yields_seq fun _ =>
      Exec.yields_seq fun _ => Exec.yields_seq fun _ => Exec.yields_pure rfl
  delta deleteSql at h
  exact yields_of_starts hascii starts_delete hdelete (by decide +kernel) (by decide)
    (by decide +kernel) h

end Texts

/-! ## What a step keeps -/

section Steps

-- what the program writes itself is not to be parsed by unfolding
attribute [local irreducible] parse

variable {host : Host} {f : Forest}

theorem closed_of_atRest {lib : Library} (h : AtRest lib f) : Closed f f :=
  ⟨rfl, rfl, h.idle, h.clean⟩

/-- A statement that commits itself, or changes nothing. -/
theorem sure_execute_mutates (h : AtRest host.lib f) {sql : String}
    (hmutates : ∀ stmt, parse host.text host.debugToken sql = .ok stmt → mutates stmt = true) :
    (execute host sql).sure (forestContract false)
      ⟨fun _ f' => AtRest host.lib f', fun _ f' => Closed f f', fun _ _ => True⟩ f := by
  refine sure_execute (fun _ _ => closed_of_atRest h) (fun _ => trivial) fun stmt hparse => ?_
  obtain ⟨cat, lay, hsound⟩ := h.exists_sound
  rw [executeStatement_mutates (hmutates stmt hparse)]
  refine Prog.sure_seq looks_inTransaction ?_ (fun _ _ h => h.2.elim) fun _ _ h => h
  rintro _ f ⟨-, rfl, rfl⟩
  rw [h.idle]
  have hbegun : Sound host.lib ∅ { f with atBegin := some f.saved } cat lay := hsound.congr rfl rfl
  refine Prog.sure_mono (sure_autoCommit hsound.toHoused h.idle h.clean
    (does_executeMutating hbegun unforced_admin rfl
      (fun _ hquery => hquery.peeks hbegun unforced_admin) (parse_plain hparse))) ?_ ?_
    fun _ _ h => h
  · rintro _ f' ⟨f₁, ⟨cat', lay', hsound', -⟩, hclosed⟩
    exact ⟨⟨cat', lay', hsound'.congr hclosed.now hclosed.root⟩, hclosed.idle, hclosed.clean⟩
  · exact fun _ f' hclosed => hclosed.2

theorem mutates_createMigrationsTable (hascii : host.text.LikeAscii) {stmt : Statement}
    (hparse : parse host.text host.debugToken createMigrationsTable = .ok stmt) :
    mutates stmt = true := by
  delta createMigrationsTable at hparse
  exact parse_create hascii (by decide +kernel) (by decide) (by decide +kernel) hparse

theorem query_selectMigrations (hascii : host.text.LikeAscii) {stmt : Statement}
    (hparse : parse host.text host.debugToken selectMigrations = .ok stmt) : Query stmt := by
  delta selectMigrations at hparse
  exact parse_select hascii (by decide +kernel) (by decide) (by decide +kernel) hparse

theorem sure_ensureMigrationsTable (hascii : host.text.LikeAscii) (h : AtRest host.lib f) :
    (ensureMigrationsTable host).sure (forestContract false)
      ⟨fun _ f' => AtRest host.lib f', fun _ f' => Closed f f', fun _ _ => True⟩ f := by
  obtain ⟨cat, lay, hsound⟩ := h.exists_sound
  have hfound : (tableSchema "_migrations").sure (forestContract false)
      ⟨fun _ f' => f' = f, fun _ _ => False, fun _ _ => True⟩ f := by
    refine (Prog.sure_bind _ _ _ _).mpr ((Prog.sure_attempt _ _ _).mpr
      (Prog.sure_mono (hsound.views_getTable _) ?_ ?_ fun _ _ _ => trivial))
    · exact fun _ _ hviews => hviews.1
    · exact fun _ _ hviews => hviews.1
  have hcreate := sure_execute_mutates h fun _ hparse => mutates_createMigrationsTable hascii hparse
  unfold ensureMigrationsTable
  refine Prog.sure_seq hfound ?_ (fun _ _ hfalse => hfalse.elim) fun _ _ h => h
  rintro found _ rfl
  split
  · exact Prog.sure_seq hcreate (fun _ _ h => h) (fun _ _ h => h) fun _ _ h => h
  · exact h

theorem sure_getAppliedMigrations (hascii : host.text.LikeAscii) (h : AtRest host.lib f) :
    (getAppliedMigrations host).sure (forestContract false)
      ⟨fun _ f' => AtRest host.lib f', fun _ _ => True, fun _ _ => True⟩ f := by
  unfold getAppliedMigrations
  refine Prog.sure_seq (sure_ensureMigrationsTable hascii h) ?_ (fun _ _ _ => trivial)
    fun _ _ h => h
  intro _ f₁ h₁
  obtain ⟨cat, lay, hsound⟩ := h₁.exists_sound
  have hselect : (execute host selectMigrations).sure (forestContract false)
      ⟨fun _ f' => f' = f₁, fun _ _ => True, fun _ _ => True⟩ f₁ :=
    sure_execute (fun _ _ => trivial) (fun _ => trivial) fun stmt hparse =>
      Prog.sure_mono ((query_selectMigrations hascii hparse).peeks hsound unforced_admin)
        (fun _ _ h => h.1) (fun _ _ _ => trivial) fun _ _ h => h
  refine Prog.sure_seq hselect ?_ (fun _ _ _ => trivial) fun _ _ h => h
  rintro res _ rfl
  cases res with
  | rows names rows =>
      cases hrows : rows.mapM appliedOf with
      | none => simp only [hrows]; trivial
      | some applied => simp only [hrows]; exact h₁
  | _ => exact h₁

/-- None of the statements of the script ends the transaction. -/
def ScriptStaysOpen (host : Host) (sql : String) : Prop :=
  ∀ stmts ∈ splitStatements host.text sql, ∀ text ∈ stmts, ∀ stmt,
    parse host.text host.debugToken
      (String.ofList (Text.trim host.text.isWhitespace text.toList)) = .ok stmt →
    endsTransaction stmt = false

variable {f₀ : Forest} {cat : OrdMap Bytes Bytes} {lay : Layout}

theorem sure_runStatements (hascii : host.text.LikeAscii) (h₀ : Housed f₀ cat lay)
    {stmts : List String} (h : Open host.lib f₀.now f)
    (hstays : ∀ text ∈ stmts, ∀ stmt, parse host.text host.debugToken
      (String.ofList (Text.trim host.text.isWhitespace text.toList)) = .ok stmt →
      endsTransaction stmt = false) :
    (runStatements host stmts).sure (forestContract false)
      ⟨fun _ f' => Open host.lib f₀.now f', fun _ f' => Closed f₀ f', fun _ _ => True⟩ f := by
  induction stmts generalizing f with
  | nil => exact h
  | cons stmt stmts ih =>
      have hrest := fun text hmem => hstays text (List.mem_cons_of_mem stmt hmem)
      rw [runStatements]
      split
      · exact ih h hrest
      · refine Prog.sure_seq (sure_executeOrRollback hascii h₀ h (hstays stmt List.mem_cons_self))
          ?_ (fun _ _ h => h) fun _ _ h => h
        exact fun _ f₁ h₁ => ih h₁ hrest

theorem sure_runScript (hascii : host.text.LikeAscii) (h₀ : Housed f₀ cat lay) {sql : String}
    (h : Open host.lib f₀.now f) (hstays : ScriptStaysOpen host sql) :
    (runScript host sql).sure (forestContract false)
      ⟨fun _ f' => Open host.lib f₀.now f', fun _ f' => Closed f₀ f', fun _ _ => True⟩ f := by
  unfold runScript
  split
  · trivial
  · next stmts hsplit => exact sure_runStatements hascii h₀ h (hstays stmts hsplit)

/-- A transaction whose body undoes its failures itself. -/
theorem sure_transaction (hascii : host.text.LikeAscii) (h : AtRest host.lib f) {α : Type}
    {body : DbProg QueryError α}
    (hbody : ∀ cat lay f₁, Housed f cat lay → Open host.lib f.now f₁ →
      body.sure (forestContract false)
        ⟨fun _ f' => Open host.lib f.now f', fun _ f' => Closed f f', fun _ _ => True⟩ f₁) :
    (inTransaction host body).sure (forestContract false)
      ⟨fun _ f' => AtRest host.lib f', fun _ f' => Closed f f', fun _ _ => True⟩ f := by
  obtain ⟨cat, lay, hsound⟩ := h.exists_sound
  unfold inTransaction
  refine Prog.sure_seq (sure_execute_begin hascii hsound h.idle h.clean) ?_
    (fun _ _ h => h.elim) fun _ _ h => h
  intro _ f₁ h₁
  refine Prog.sure_seq (hbody cat lay f₁ hsound.toHoused h₁) ?_ (fun _ _ h => h) fun _ _ h => h
  intro a f₂ h₂
  exact Prog.sure_seq (sure_execute_commit hascii h₂) (fun _ _ h => h) (fun _ _ h => h.elim)
    fun _ _ h => h

theorem sure_applyBody (hascii : host.text.LikeAscii) (h₀ : Housed f₀ cat lay) {m : Migration}
    (h : Open host.lib f₀.now f) (hstays : ScriptStaysOpen host m.sql) (maxId : Int64) :
    (applyBody host maxId m).sure (forestContract false)
      ⟨fun _ f' => Open host.lib f₀.now f', fun _ f' => Closed f₀ f', fun _ _ => True⟩ f := by
  refine Prog.sure_seq (sure_runScript hascii h₀ h hstays) ?_ (fun _ _ h => h) fun _ _ h => h
  intro _ f₁ h₁
  split
  · trivial
  · have hnow : now.sure (forestContract false)
        ⟨fun _ f' => Open host.lib f₀.now f', fun _ _ => False, fun _ _ => True⟩ f₁ := by
      refine (Prog.sure_mapError _ _ _ _).mpr (Prog.sure_mono (looks_outside (.inl rfl)) ?_
        (fun _ _ hlooks => hlooks.2) fun _ _ h => h)
      rintro _ _ ⟨-, rfl, -⟩
      exact h₁
    refine Prog.sure_seq hnow ?_ (fun _ _ hfalse => hfalse.elim) fun _ _ h => h
    intro time f₂ h₂
    exact Prog.sure_seq (sure_executeOrRollback hascii h₀ h₂ fun _ hparse =>
      endsTransaction_recordSql hascii hparse) (fun _ _ h => h) (fun _ _ h => h) fun _ _ h => h

theorem sure_rollbackBody (hascii : host.text.LikeAscii) (h₀ : Housed f₀ cat lay) {downSql : String}
    (h : Open host.lib f₀.now f) (hstays : ScriptStaysOpen host downSql)
    (last : AppliedMigration) :
    (rollbackBody host downSql last).sure (forestContract false)
      ⟨fun _ f' => Open host.lib f₀.now f', fun _ f' => Closed f₀ f', fun _ _ => True⟩ f := by
  refine Prog.sure_seq (sure_runScript hascii h₀ h hstays) ?_ (fun _ _ h => h) fun _ _ h => h
  exact fun _ f₁ h₁ => sure_executeOrRollback hascii h₀ h₁ fun _ hparse =>
    endsTransaction_deleteSql hascii hparse

end Steps

/-! ## Failing migrations -/

section Failing

variable {host : Host} {f : Forest} {d d' : Database} {e : QueryError}

/-- A loop that fails has applied the migrations before the one that fails, and nothing of it. -/
theorem applyLoop_error (hascii : host.text.LikeAscii) {versions : List Int64} {maxId : Int64}
    {ms : List Migration} (hd : Describes d f) (hrest : AtRest host.lib f)
    (hstays : ∀ m ∈ ms, ScriptStaysOpen host m.sql)
    (hfits : (applyLoop host versions maxId ms).Along (Database.answer host.env)
      (fun op d => d.Regular false op) d)
    (hrun : (applyLoop host versions maxId ms).run (Database.answer host.env) d = (.error e, d')) :
    ∃ done failing rest newly d₁, ms = done ++ failing :: rest ∧
      (applyLoop host versions maxId done).run (Database.answer host.env) d = (.ok newly, d₁) ∧
      SameTrees d₁ d' := by
  induction ms generalizing d f maxId with
  | nil => cases hrun
  | cons m ms ih =>
      have hstays' := fun m' hm' => hstays m' (List.mem_cons_of_mem m hm')
      rw [applyLoop] at hfits hrun
      by_cases hversion : m.version ∈ versions
      · rw [if_pos hversion] at hfits hrun
        obtain ⟨done, failing, rest, newly, d₁, rfl, hdone, hsame⟩ := ih hd hrest hstays' hfits hrun
        refine ⟨m :: done, failing, rest, newly, d₁, rfl, ?_, hsame⟩
        rw [applyLoop, if_pos hversion]
        exact hdone
      · rw [if_neg hversion] at hfits hrun
        obtain ⟨hfits₁, hfits⟩ := Prog.along_bind.mp hfits
        have hwp := Prog.sure_sound (honours host.env false) hd (sure_transaction hascii hrest
          fun cat lay f₁ hhoused h₁ =>
            sure_applyBody hascii hhoused h₁ (hstays m List.mem_cons_self) maxId) hfits₁
        obtain hrun | ⟨record, d₁, hrun₁, hrun⟩ := Prog.cases_of_bind_error hrun
        · obtain ⟨f', hd', hclosed⟩ := Exec.wp_error hwp hrun
          exact ⟨[], m, ms, [], d, rfl, rfl, f, f', hd, hd', hclosed.now, hclosed.root,
            hclosed.idle⟩
        obtain ⟨f₁, hd₁, hrest₁⟩ := Exec.wp_ok hwp hrun₁
        obtain ⟨hfits₂, -⟩ := Prog.along_bind.mp (hfits record d₁ hrun₁)
        obtain hrun | ⟨_, _, -, hpure⟩ := Prog.cases_of_bind_error hrun
        · obtain ⟨done, failing, rest, newly, d₂, rfl, hdone, hsame⟩ :=
            ih hd₁ hrest₁ hstays' hfits₂ hrun
          refine ⟨m :: done, failing, rest, record :: newly, d₂, rfl, ?_, hsame⟩
          rw [applyLoop, if_neg hversion, Prog.run_bind_ok hrun₁, Prog.run_bind_ok hdone]
          rfl
        · cases hpure

theorem byVersion_of_prefix {ms done rest : List Migration} (h : byVersion ms = done ++ rest) :
    byVersion done = done := by
  have horderly : Orderly (fun m m' : Migration => m.version ≤ m'.version) ms :=
    ⟨fun _ _ _ _ => Int64.le_total _ _, fun _ _ _ _ _ _ => Int64.le_trans⟩
  have hsorted := pairwise_insertionSort horderly
  change (byVersion ms).Pairwise _ at hsorted
  rw [h, List.pairwise_append] at hsorted
  exact hsorted.1.insertionSort_eq

/-- What comes before the first migration fails, or leaves a database at rest. -/
theorem cases_of_readRecords {α : Type} {next : List AppliedMigration → DbProg QueryError α}
    (hascii : host.text.LikeAscii) (hd : Describes d f) (hrest : AtRest host.lib f)
    (hfits : (ensureMigrationsTable host >>= fun _ => getAppliedMigrations host >>= next).Along
      (Database.answer host.env) (fun op d => d.Regular false op) d)
    (hrun : (ensureMigrationsTable host >>= fun _ => getAppliedMigrations host >>= next).run
      (Database.answer host.env) d = (.error e, d')) :
    (applyAll host []).run (Database.answer host.env) d = (.error e, d') ∨
      ∃ applied d₁ f₁, Describes d₁ f₁ ∧ AtRest host.lib f₁ ∧
        (next applied).Along (Database.answer host.env) (fun op d => d.Regular false op) d₁ ∧
        (next applied).run (Database.answer host.env) d₁ = (.error e, d') ∧
        ∀ (β : Type) (next' : List AppliedMigration → DbProg QueryError β),
          (ensureMigrationsTable host >>= fun _ => getAppliedMigrations host >>= next').run
            (Database.answer host.env) d = (next' applied).run (Database.answer host.env) d₁ := by
  obtain ⟨hfits₁, hfits⟩ := Prog.along_bind.mp hfits
  have hensure := Prog.sure_sound (honours host.env false) hd
    (sure_ensureMigrationsTable hascii hrest) hfits₁
  obtain hrun | ⟨_, d₁, hrun₁, hrun⟩ := Prog.cases_of_bind_error hrun
  · left
    rw [applyAll, Prog.run_bind, Exec.bind_error hrun]
  obtain ⟨f₁, hd₁, hrest₁⟩ := Exec.wp_ok hensure hrun₁
  obtain ⟨hfits₂, hfits⟩ := Prog.along_bind.mp (hfits () d₁ hrun₁)
  have happlied := Prog.sure_sound (honours host.env false) hd₁
    (sure_getAppliedMigrations hascii hrest₁) hfits₂
  obtain hrun | ⟨applied, d₂, hrun₂, hrun⟩ := Prog.cases_of_bind_error hrun
  · left
    rw [applyAll, Prog.run_bind_ok hrun₁, Prog.run_bind, Exec.bind_error hrun]
  obtain ⟨f₂, hd₂, hrest₂⟩ := Exec.wp_ok happlied hrun₂
  refine .inr ⟨applied, d₂, f₂, hd₂, hrest₂, hfits applied d₂ hrun₂, hrun, fun β next' => ?_⟩
  rw [Prog.run_bind_ok hrun₁, Prog.run_bind_ok hrun₂]

theorem sure_applyLoop (hascii : host.text.LikeAscii) {versions : List Int64} {maxId : Int64}
    {ms : List Migration} (hrest : AtRest host.lib f)
    (hstays : ∀ m ∈ ms, ScriptStaysOpen host m.sql) :
    (applyLoop host versions maxId ms).sure (forestContract false)
      ⟨fun _ f' => AtRest host.lib f', fun _ _ => True, fun _ _ => True⟩ f := by
  induction ms generalizing f maxId with
  | nil => exact hrest
  | cons m ms ih =>
      have hstays' := fun m' hm' => hstays m' (List.mem_cons_of_mem m hm')
      rw [applyLoop]
      split
      · exact ih hrest hstays'
      · refine Prog.sure_seq (sure_transaction hascii hrest fun cat lay f₁ hhoused h₁ =>
          sure_applyBody hascii hhoused h₁ (hstays m List.mem_cons_self) maxId) ?_
          (fun _ _ _ => trivial) fun _ _ h => h
        exact fun _ f₁ h₁ => Prog.sure_seq (ih h₁ hstays') (fun _ _ h => h) (fun _ _ h => h)
          fun _ _ h => h

theorem sure_applyAll (hascii : host.text.LikeAscii) {ms : List Migration}
    (hrest : AtRest host.lib f) (hstays : ∀ m ∈ ms, ScriptStaysOpen host m.sql) :
    (applyAll host ms).sure (forestContract false)
      ⟨fun _ f' => AtRest host.lib f', fun _ _ => True, fun _ _ => True⟩ f := by
  refine Prog.sure_seq (sure_ensureMigrationsTable hascii hrest) ?_ (fun _ _ _ => trivial)
    fun _ _ h => h
  intro _ f₁ h₁
  refine Prog.sure_seq (sure_getAppliedMigrations hascii h₁) ?_ (fun _ _ _ => trivial)
    fun _ _ h => h
  exact fun _ f₂ h₂ => sure_applyLoop hascii h₂ fun m hm =>
    hstays m ((List.mem_insertionSort _).mp hm)

end Failing

/-! ## A small migration -/

section Small

open Running (plainHost)

-- the runs are evaluated by the kernel alone
attribute [local irreducible] prepareAndFlush applyAll rollbackLast

def nothingToDo : Migration := ⟨1, "first", ""⟩

def unreadable : Migration := ⟨2, "second", "'"⟩

def failsWith {α : Type} : Outcome QueryError α → Bool
  | .error _ => true
  | _ => false

theorem exists_error {α : Type} {x : Outcome QueryError α × Database} (h : failsWith x.1 = true) :
    ∃ e d', x = (.error e, d') := by
  obtain ⟨a | e | why, d'⟩ := x
  · cases h
  · exact ⟨e, d', rfl⟩
  · cases h

theorem exists_ok {α : Type} {x : Outcome QueryError α × Database} (h : succeeds x.1 = true) :
    ∃ a d', x = (.ok a, d') := by
  obtain ⟨a | e | why, d'⟩ := x
  · exact ⟨a, d', rfl⟩
  · cases h
  · cases h

/-- A statement of the script ends a transaction. -/
def scriptEnds (sql : String) : Bool :=
  (splitStatements plainHost.text sql).any fun stmts => stmts.any fun text =>
    match parse plainHost.text plainHost.debugToken
      (String.ofList (Text.trim plainHost.text.isWhitespace text.toList)) with
    | .ok stmt => endsTransaction stmt
    | _ => false

theorem staysOpen_of_scriptEnds {sql : String} (h : scriptEnds sql = false) :
    ScriptStaysOpen plainHost sql := by
  intro stmts hstmts text htext stmt hstmt
  rw [scriptEnds, Option.mem_def.mp hstmts, Option.any_some, List.any_eq_false] at h
  have hends := h text htext
  rw [hstmt] at hends
  simpa using hends

theorem runs_unreadable :
    (applyAll plainHost [unreadable, nothingToDo]).Along (Database.answer plainHost.env)
        (fun op d => d.Regular false op) (createdAtRest plainHost.env) ∧
      failsWith ((applyAll plainHost [unreadable, nothingToDo]).run (Database.answer plainHost.env)
        (createdAtRest plainHost.env)).1 = true ∧
      succeeds ((applyAll plainHost []).run (Database.answer plainHost.env)
        (createdAtRest plainHost.env)).1 = true ∧
      scriptEnds nothingToDo.sql = false ∧ scriptEnds unreadable.sql = false := by decide +kernel

theorem created_describes :
    ∃ f, Describes (createdAtRest plainHost.env) f ∧ AtRest plainHost.lib f :=
  createdAtRest_plain plainHost.lib

/-- A database in which the first migration has been applied. -/
def migrated : Database :=
  ((applyAll plainHost [nothingToDo]).run (Database.answer plainHost.env)
    (createdAtRest plainHost.env)).2

theorem runs_migrated :
    (applyAll plainHost [nothingToDo]).Along (Database.answer plainHost.env)
        (fun op d => d.Regular false op) (createdAtRest plainHost.env) ∧
      succeeds ((applyAll plainHost [nothingToDo]).run (Database.answer plainHost.env)
        (createdAtRest plainHost.env)).1 = true ∧
      (rollbackLast plainHost "'").Along (Database.answer plainHost.env)
        (fun op d => d.Regular false op) migrated ∧
      failsWith ((rollbackLast plainHost "'").run (Database.answer plainHost.env) migrated).1 =
        true ∧
      succeeds ((applyAll plainHost []).run (Database.answer plainHost.env) migrated).1 = true := by
  decide +kernel

theorem migrated_describes : ∃ f, Describes migrated f ∧ AtRest plainHost.lib f := by
  obtain ⟨f, hd, hrest⟩ := created_describes
  obtain ⟨hfits, hok, -⟩ := runs_migrated
  obtain ⟨newly, d', hrun⟩ := exists_ok hok
  have hstays : ∀ m ∈ [nothingToDo], ScriptStaysOpen plainHost m.sql := by
    intro m hm
    obtain rfl := List.mem_singleton.mp hm
    exact staysOpen_of_scriptEnds runs_unreadable.2.2.2.1
  obtain ⟨f', hd', hrest'⟩ := Exec.wp_ok (Prog.sure_sound (honours plainHost.env false) hd
    (sure_applyAll asciiLibrary_likeAscii hrest hstays) hfits) hrun
  have heq : migrated = d' := by rw [migrated, hrun]
  exact ⟨f', heq ▸ hd', hrest'⟩

end Small

/-! ## All or nothing -/

section AllOrNothing

open Running (plainHost)

-- the runs are evaluated by the kernel alone
attribute [local irreducible] prepareAndFlush applyAll rollbackLast

variable {host : Host} {f : Forest} {d d' : Database} {e : QueryError}

end AllOrNothing

end ChocoBase.Backup
