import ChocoBase.Backup.AllOrNothing

/-!
# A point-in-time restore in phases

The log's table, the base dump and the replay are three transactions.  Each of them happens
or does not; none is undone because a later one fails.
-/

namespace ChocoBase.Backup

open ChocoBase.Foundation ChocoBase.Storage ChocoBase.BTree ChocoBase.Engine ChocoBase.Sql
  ChocoBase.Types ChocoBase.Auth ChocoBase.Catalog ChocoBase.Server

/-! ## The statements of the log -/

section Texts

variable {text : TextLibrary} {debugToken : Token → String}

/-- What a text is parsed by that starts with one's own. -/
theorem parse_word (hascii : text.LikeAscii) {own rest : String} {t : Token} (hisOwn : isOwn own)
    (hcloses : closes own.toList) (hfirst : (ownTokens own).head? = some t) {stmt : Statement}
    (h : parse text debugToken (own ++ rest) = .ok stmt) :
    ∃ a following p' fuel, Parser.parseStatement debugToken
      (Parser.parseWhereExpr debugToken (fuel + 1)) (fuel + 1) ⟨⟨t, a⟩, following⟩ =
        (.ok stmt, p') := by
  obtain ⟨ts, tokens, p', hlexes, hmap, hparse⟩ := parse_eq_ok h
  obtain ⟨hchars, hown⟩ := lexes_ownTokens hisOwn
  rw [String.toList_append] at hlexes
  obtain ⟨tr, rfl, -⟩ := lexes_own_inv hascii (List.all_eq_true.mp hchars)
    (.inr fun _ => hcloses) hown
    hlexes
  obtain ⟨ts, hts⟩ := List.head?_eq_some_iff.mp hfirst
  rw [hts] at hmap
  cases tokens with
  | nil => cases hmap
  | cons first tokens =>
      obtain ⟨t', a⟩ := first
      obtain rfl : t' = t := (List.cons.inj hmap).1
      refine ⟨a, tokens, p', tokens.length, ?_⟩
      simp only [Parser.parseTokens, Parser.new, List.length_cons] at hparse
      split at hparse
      · next hrun =>
          cases hparse
          exact hrun
      · cases hparse
      · cases hparse

theorem parse_select (hascii : text.LikeAscii) {own rest : String} (hisOwn : isOwn own)
    (hcloses : closes own.toList) (hfirst : (ownTokens own).head? = some .select)
    {stmt : Statement} (h : parse text debugToken (own ++ rest) = .ok stmt) : Query stmt := by
  obtain ⟨a, following, p', fuel, hrun⟩ := parse_word hascii hisOwn hcloses hfirst h
  have hselect : Exec.Yields Query (do
      let stmt ← Parser.parseSelect debugToken (Parser.parseWhereExpr debugToken (fuel + 1))
      Parser.skip (Parser.only .semicolon)
      return stmt) :=
    (yields_parseSelect (yields_parseWhereExpr debugToken _)).bind fun _ hstmt =>
      Exec.yields_seq fun _ => Exec.yields_pure hstmt
  exact hselect ⟨⟨.select, a⟩, following⟩ _ _ hrun

theorem parse_create (hascii : text.LikeAscii) {own rest : String} (hisOwn : isOwn own)
    (hcloses : closes own.toList) (hfirst : (ownTokens own).head? = some .create)
    {stmt : Statement} (h : parse text debugToken (own ++ rest) = .ok stmt) :
    mutates stmt = true := by
  obtain ⟨a, following, p', fuel, hrun⟩ := parse_word hascii hisOwn hcloses hfirst h
  have hcreate : Exec.Yields (fun stmt => mutates stmt = true) (do
      let stmt ← Parser.parseCreate debugToken (Parser.parseWhereExpr debugToken (fuel + 1))
      Parser.skip (Parser.only .semicolon)
      return stmt) :=
    yields_parseCreate.bind fun _ hstmt => Exec.yields_seq fun _ => Exec.yields_pure hstmt.2
  exact hcreate ⟨⟨.create, a⟩, following⟩ _ _ hrun

end Texts

/-! ## The phases -/

section Phases

-- what the program writes itself is not to be parsed by unfolding
attribute [local irreducible] parse

variable {host : Host} {f : Forest}

theorem atRest_of_closed {lib : Library} {f' : Forest} (h : AtRest lib f) (hclosed : Closed f f') :
    AtRest lib f' := by
  obtain ⟨cat, lay, hsound⟩ := h.exists_sound
  exact ⟨⟨cat, lay, hsound.congr hclosed.now hclosed.root⟩, hclosed.idle, hclosed.clean⟩

/-- A statement that commits itself. -/
theorem sure_executeStatement {lib : Library} (h : AtRest lib f) {stmt : Statement}
    (hplain : Plain stmt) (hmutates : mutates stmt = true) (fuel : Nat) :
    (executeStatement lib .admin (fuel + 1) stmt).sure (forestContract false)
      ⟨fun _ f' => AtRest lib f', fun _ f' => AtRest lib f', fun _ _ => True⟩ f := by
  obtain ⟨cat, lay, hsound⟩ := h.exists_sound
  rw [executeStatement_mutates hmutates]
  refine Prog.sure_seq looks_inTransaction ?_ (fun _ _ h => h.2.elim) fun _ _ h => h
  rintro _ f ⟨-, rfl, rfl⟩
  rw [h.idle]
  have hbegun : Sound lib ∅ { f with atBegin := some f.saved } cat lay := hsound.congr rfl rfl
  refine Prog.sure_mono (sure_autoCommit hsound.toHoused h.idle h.clean
    (does_executeMutating hbegun unforced_admin rfl
      (fun _ hquery => hquery.peeks hbegun unforced_admin) hplain)) ?_ ?_ fun _ _ h => h
  · rintro _ f' ⟨f₁, ⟨cat', lay', hsound', -⟩, hclosed⟩
    exact ⟨⟨cat', lay', hsound'.congr hclosed.now hclosed.root⟩, hclosed.idle, hclosed.clean⟩
  · exact fun _ f' hclosed => atRest_of_closed h hclosed.2

theorem sure_ensurePitrTables (hascii : host.text.LikeAscii) (h : AtRest host.lib f) :
    (ensurePitrTables host).sure (forestContract false)
      ⟨fun _ f' => AtRest host.lib f', fun _ _ => False, fun _ _ => True⟩ f := by
  have hexecute {sql : String} (hcreates : ∀ stmt,
      parse host.text host.debugToken sql = .ok stmt → mutates stmt = true) :
      (execute host sql).sure (forestContract false)
        ⟨fun _ f' => AtRest host.lib f', fun _ f' => AtRest host.lib f', fun _ _ => True⟩ f :=
    sure_execute (fun _ _ => h) (fun _ => trivial) fun stmt hparse =>
      sure_executeStatement h (parse_plain hparse) (hcreates stmt hparse) host.depth
  exact (Prog.sure_bind _ _ _ _).mpr ((Prog.sure_attempt _ _ _).mpr (hexecute fun _ hparse =>
    parse_create hascii (by decide +kernel) (by decide) (by decide +kernel) hparse))

theorem sure_walStatements (hascii : host.text.LikeAscii) (h : AtRest host.lib f)
    (target : UInt64) :
    (walStatements host target).sure (forestContract false)
      ⟨fun _ f' => f' = f, fun _ _ => False, fun _ _ => True⟩ f := by
  obtain ⟨cat, lay, hsound⟩ := h.exists_sound
  have hexecute {sql : String} (hselects : ∀ stmt,
      parse host.text host.debugToken sql = .ok stmt → Query stmt) :
      (execute host sql).sure (forestContract false)
        ⟨fun _ f' => f' = f, fun _ f' => f' = f, fun _ _ => True⟩ f :=
    sure_execute (fun _ _ => rfl) (fun _ => trivial) fun stmt hparse =>
      Prog.sure_mono ((hselects stmt hparse).peeks hsound unforced_admin) (fun _ _ h => h.1)
        (fun _ _ h => h.1) fun _ _ h => h
  refine (Prog.sure_bind _ _ _ _).mpr ((Prog.sure_attempt _ _ _).mpr (hexecute fun _ hparse => ?_))
  rw [String.append_assoc] at hparse
  exact parse_select hascii (by decide +kernel) (by decide) (by decide +kernel) hparse

/-- None of the statements that are replayed ends the transaction. -/
def ReplayStaysOpen (host : Host) (stmts : List String) : Prop :=
  ∀ text ∈ stmts, ∀ stmt, parse host.text host.debugToken text = .ok stmt →
    endsTransaction stmt = false

theorem sure_replayLoop (hascii : host.text.LikeAscii) {f₀ : Forest} {cat : OrdMap Bytes Bytes}
    {lay : Layout} (h₀ : Housed f₀ cat lay) {stmts : List String} (h : Open host.lib f₀.now f)
    (hstays : ReplayStaysOpen host stmts) :
    (replayLoop host stmts).sure (forestContract false)
      ⟨fun _ f' => Open host.lib f₀.now f', fun _ f' => Closed f₀ f', fun _ _ => True⟩ f := by
  induction stmts generalizing f with
  | nil => exact h
  | cons stmt stmts ih =>
      refine Prog.sure_seq (sure_executeOrRollback hascii h₀ h (hstays stmt List.mem_cons_self))
        ?_ (fun _ _ h => h) fun _ _ h => h
      intro _ f₁ h₁
      exact Prog.sure_seq (ih h₁ fun text hmem => hstays text (List.mem_cons_of_mem _ hmem))
        (fun _ _ h => h) (fun _ _ h => h) fun _ _ h => h

theorem sure_replay (hascii : host.text.LikeAscii) (h : AtRest host.lib f) {stmts : List String}
    (hstays : ReplayStaysOpen host stmts) (total : Nat) :
    (replay host stmts total).sure (forestContract false)
      ⟨fun _ f' => AtRest host.lib f', fun _ f' => Closed f f', fun _ _ => True⟩ f := by
  unfold replay
  split
  · exact h
  · exact sure_inTransaction hascii h total fun cat lay f₁ hhoused h₁ =>
      sure_replayLoop hascii hhoused h₁ hstays

theorem sure_restoreBase (hascii : host.text.LikeAscii) (h : AtRest host.lib f) {sql : String}
    (hstays : ∀ stmts ∈ splitStatements host.text sql, StaysOpen host stmts) :
    (restoreBase host sql).sure (forestContract false)
      ⟨fun _ f' => AtRest host.lib f', fun _ f' => Closed f f', fun _ _ => True⟩ f := by
  unfold restoreBase
  split
  · exact h
  · exact sure_restoreDatabase hascii h hstays

/-- All trees of the second database are as in the first, and no transaction is open. -/
def SameTrees (d d' : Database) : Prop :=
  ∃ f f', Describes d f ∧ Describes d' f' ∧ f'.now = f.now ∧ f'.root = f.root ∧ f'.atBegin = none

end Phases

/-! ## Small restores -/

section Scripts

open Running (plainHost)

-- the runs are evaluated by the kernel alone
attribute [local irreducible] prepareAndFlush restoreDatabase restoreToPointInTime
  ensurePitrTables walStatements

def logIsEmpty : Outcome QueryError (List String) → Bool
  | .ok [] => true
  | _ => false

/-- A base dump that is no statement: the restore has made the table of the log. -/
theorem restore_quote :
    (restoreToPointInTime plainHost "'" 0).Along (Database.answer plainHost.env)
        (fun op d => d.Regular false op) (createdAtRest plainHost.env) ∧
      fails ((restoreToPointInTime plainHost "'" 0).run (Database.answer plainHost.env)
        (createdAtRest plainHost.env)).1 = true ∧
      logIsEmpty ((walStatements plainHost 0).run (Database.answer plainHost.env)
        ((ensurePitrTables plainHost).run (Database.answer plainHost.env)
          (createdAtRest plainHost.env)).2).1 = true ∧
      hasTable "_pitr_wal_log" (createdAtRest plainHost.env) = false ∧
      hasTable "_pitr_wal_log" ((restoreToPointInTime plainHost "'" 0).run
        (Database.answer plainHost.env) (createdAtRest plainHost.env)).2 = true := by
  decide +kernel

example : logIsEmpty (.ok ["'"]) = false := by decide +kernel

/-- A log whose only entry is no statement. -/
def loggedQuote : Database :=
  Database.runAll plainHost.lib plainHost.env
    [.createTable "_pitr_wal_log" [⟨"id", .integer, true, true⟩,
      ⟨"timestamp_ms", .integer, true, false⟩, ⟨"sql", .text, true, false⟩],
      .insert "_pitr_wal_log" none [[.intLiteral 1, .intLiteral 1, .stringLiteral "'"]] none]
    (Database.created plainHost.env).2.sorting

def dropUsers : String := "DROP TABLE _users"

/-- The same, and the system will refuse the next request. -/
def refusingQuote : Database := { loggedQuote with pager.file.faults := [true] }

/--
The base dump is restored, and then the replay fails.  `CREATE TABLE _pitr_wal_log`, whose
error is ignored, fails at once, because its journal is refused; it would fail anyway.
-/
theorem restore_dropUsers :
    fails ((restoreToPointInTime plainHost dropUsers 1).run (Database.answer plainHost.env)
      refusingQuote).1 = true ∧
    hasTable "_users" refusingQuote = true ∧
    hasTable "_users" ((restoreToPointInTime plainHost dropUsers 1).run
      (Database.answer plainHost.env) refusingQuote).2 = false := by
  have hsplit : splitStatements plainHost.text dropUsers = some [dropUsers] :=
    splitStatements_of_tokens (by decide +kernel) (by decide +kernel) (by decide)
  have hscript : restoreToPointInTime plainHost dropUsers 1 = (do
      ensurePitrTables plainHost
      let stmts ← walStatements plainHost 1
      let total ← (do
        let _ ← execute plainHost "BEGIN TRANSACTION"
        let count ← restoreLoop plainHost [dropUsers]
        let _ ← execute plainHost "COMMIT"
        return count : DbProg QueryError Nat)
      replay plainHost stmts total) := by
    rw [restoreToPointInTime, restoreBase, if_neg (by decide), restoreDatabase, hsplit]
  rw [hscript]
  decide +kernel

example : parsesEnd dropUsers = false := by decide +kernel

end Scripts

end ChocoBase.Backup
