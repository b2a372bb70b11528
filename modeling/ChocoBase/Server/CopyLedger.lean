import ChocoBase.Foundation.Ledger
import ChocoBase.Server.Connections
import ChocoBase.Server.CopyText
import ChocoBase.Sql.InsertTexts

/-!
# Copies and transactions

The database behind a session as a ledger of the statements that are in effect.  Whatever it
accepts, a copy of a JSON client is whole unless a transaction was open before, or the
`COMMIT` fails; a copy of a PostgreSQL client leaves out the rows that are not accepted.
-/

namespace ChocoBase.Server

open ChocoBase.Foundation ChocoBase.Engine ChocoBase.Auth ChocoBase.Sql ChocoBase.Types

open Text (Chars)

/-- What a database decides itself. -/
structure Rules where
  /-- the result of a change, by what is in effect before it -/
  change : List String → String → Except QueryError ExecResult
  /-- the result of a `COMMIT`, and what is settled after it -/
  commit : List String → Except QueryError ExecResult × List String

def Rules.accepts (rules : Rules) (current : List String) (sql : String) : Bool :=
  (rules.change current sql).toBool

section Statements

variable (host : Host) (rules : Rules)

/-- `execute_with_context` in a session of its own -/
def ledgerExecute (sql : String) (s : Ledger String) :
    Except QueryError ExecResult × Ledger String :=
  match parse host.text host.debugToken sql with
  | .ok .begin =>
      match s.working with
      | some _ => (.error (.db (.plan .nestedTransactionNotSupported)), s)
      | none => (.ok .ok, { s with working := some s.settled })
  | .ok .commit =>
      match s.working with
      | some working => ((rules.commit working).1, ⟨(rules.commit working).2, none⟩)
      | none => (.error (.db (.plan .noTransactionInProgress)), s)
  | .ok .rollback =>
      match s.working with
      | some _ => (.ok .ok, { s with working := none })
      | none => (.error (.db (.plan .noTransactionInProgress)), s)
  | _ =>
      match rules.change s.current sql with
      | .ok res => (.ok res, s.add [sql])
      | .error e => (.error e, s)

def ledgerHandler : Handler calls (Ledger String)
  | .execute sql _ => fun s => (.ok (ledgerExecute host rules sql s).1, (ledgerExecute host rules sql s).2)
  | _ => fun s => (.stop .diverges, s)

end Statements

section Texts

variable {text : TextLibrary} {d : Token → String} (hascii : text.LikeAscii)
include hascii

/-- The last word of a statement, with a semicolon behind it. -/
theorem tokenize_terminated {front : Chars} {tf : List Token} (hfront : Firm text front tf)
    {c : Char} {cs : Chars} {t : Token} (hword : ∀ x ∈ c :: cs, ownChar x)
    (hread : lexeme asciiLibrary c cs = .ok (some t, [])) :
    ∃ tokens, tokenize text (String.ofList (front ++ (c :: cs ++ [';']))) = .ok tokens ∧
      tokens.map SpannedToken.token = tf ++ [t, .semicolon, .eof] := by
  have hlexeme := (lexeme_own hascii (hword c List.mem_cons_self)
    (fun x hx => hword x (List.mem_cons_of_mem _ hx)) hread (r := []) (.inl rfl)).1
  have hreads : ReadsAs text (c :: cs) (some t) := ⟨c, cs, rfl, by simpa using hlexeme⟩
  have hstop : readsOn text (c :: cs) [';'] = false := by
    have hinWord : inWord text ';' = false := by
      rw [inWord_ascii hascii (by decide)]
      rfl
    exact readsOn_head hascii hreads hinWord (by decide) (by decide) []
  have hsemicolon : lexeme text ';' [] = .ok (some .semicolon, []) := by
    unfold lexeme
    rw [hascii.isWhitespace _ (by decide), if_neg (by decide)]
    rfl
  have hlexes : Lexes text (c :: cs ++ [';']) [t, .semicolon] :=
    .step (t := some t) (lexeme_append (r := []) (by simpa using hlexeme) hstop)
      (.step hsemicolon .nil)
  obtain ⟨tokens, htokens, hmap⟩ := tokenize_eq_ok_iff.mpr
    (show Lexes text (String.ofList (front ++ (c :: cs ++ [';']))).toList (tf ++ [t, .semicolon]) by
      rw [String.toList_ofList]
      exact (hfront _ _).mpr ⟨_, rfl, hlexes⟩)
  exact ⟨tokens, htokens, by rw [hmap, List.append_assoc]; rfl⟩

/-- A statement of one word or two. -/
theorem parse_terminated {front : Chars} {tf : List Token} (hfront : Firm text front tf)
    {c : Char} {cs : Chars} {t : Token} (hword : ∀ x ∈ c :: cs, ownChar x)
    (hread : lexeme asciiLibrary c cs = .ok (some t, [])) {stmt : Statement}
    (hstmt : ∀ tokens : List SpannedToken,
      tokens.map SpannedToken.token = tf ++ [t, .semicolon, .eof] →
        ∃ p, Parser.parseTokens d tokens = .ok (stmt, p)) :
    parse text d (String.ofList (front ++ (c :: cs ++ [';']))) = .ok stmt := by
  obtain ⟨tokens, htokens, hmap⟩ := tokenize_terminated hascii hfront hword hread
  obtain ⟨p, hparse⟩ := hstmt tokens hmap
  exact Outcome.bind_eq_ok.mpr ⟨tokens, htokens, Outcome.bind_eq_ok.mpr ⟨(stmt, p), hparse, rfl⟩⟩

theorem parse_beginTransaction : parse text d "BEGIN TRANSACTION;" = .ok .begin := by
  have hfront : Firm text "BEGIN ".toList (ownTokens "BEGIN ") :=
    firm_own hascii (by decide +kernel) (by decide)
  have hown : ownTokens "BEGIN " = [.begin] := by decide +kernel
  rw [hown] at hfront
  have htext : "BEGIN TRANSACTION;" =
      String.ofList ("BEGIN ".toList ++ ('T' :: "RANSACTION".toList ++ [';'])) := by decide
  rw [htext]
  refine parse_terminated hascii hfront (t := .transaction) (Text.forall_mem_of_all (by decide))
    (by decide +kernel) fun tokens hmap => ?_
  obtain _ | ⟨⟨t, a⟩, _ | ⟨⟨t', b⟩, _ | ⟨⟨t'', c⟩, _ | ⟨⟨t₃, e⟩, _ | ⟨x, rest⟩⟩⟩⟩⟩ := tokens <;>
    cases hmap
  exact ⟨_, rfl⟩

theorem parse_commitNow : parse text d "COMMIT;" = .ok .commit := by
  have hfront : Firm text [] [] := fun r ts => ⟨fun h => ⟨ts, rfl, h⟩, fun ⟨_, heq, h⟩ => heq ▸ h⟩
  have htext : "COMMIT;" = String.ofList ([] ++ ('C' :: "OMMIT".toList ++ [';'])) := by decide
  rw [htext]
  refine parse_terminated hascii hfront (t := .commit) (Text.forall_mem_of_all (by decide))
    (by decide +kernel) fun tokens hmap => ?_
  obtain _ | ⟨⟨t, a⟩, _ | ⟨⟨t', b⟩, _ | ⟨⟨t'', c⟩, _ | ⟨x, rest⟩⟩⟩⟩ := tokens <;> cases hmap
  exact ⟨_, rfl⟩

theorem parse_rollbackNow : parse text d "ROLLBACK;" = .ok .rollback := by
  have hfront : Firm text [] [] := fun r ts => ⟨fun h => ⟨ts, rfl, h⟩, fun ⟨_, heq, h⟩ => heq ▸ h⟩
  have htext : "ROLLBACK;" = String.ofList ([] ++ ('R' :: "OLLBACK".toList ++ [';'])) := by decide
  rw [htext]
  refine parse_terminated hascii hfront (t := .rollback) (Text.forall_mem_of_all (by decide))
    (by decide +kernel) fun tokens hmap => ?_
  obtain _ | ⟨⟨t, a⟩, _ | ⟨⟨t', b⟩, _ | ⟨⟨t'', c⟩, _ | ⟨x, rest⟩⟩⟩⟩ := tokens <;> cases hmap
  exact ⟨_, rfl⟩

end Texts

example : (match parse asciiLibrary (fun _ => "") "COMMIT;" with
    | .ok .commit => true
    | _ => false) = true := by
  decide +kernel

section Statements

variable {host : Host} {rules : Rules} (hascii : host.text.LikeAscii)
include hascii

theorem execute_begin (s : Ledger String) :
    ledgerExecute host rules "BEGIN TRANSACTION;" s =
      match s.working with
      | some _ => (.error (.db (.plan .nestedTransactionNotSupported)), s)
      | none => (.ok .ok, { s with working := some s.settled }) := by
  simp only [ledgerExecute, parse_beginTransaction hascii]

theorem execute_commit (s : Ledger String) :
    ledgerExecute host rules "COMMIT;" s =
      match s.working with
      | some working => ((rules.commit working).1, ⟨(rules.commit working).2, none⟩)
      | none => (.error (.db (.plan .noTransactionInProgress)), s) := by
  simp only [ledgerExecute, parse_commitNow hascii]

theorem execute_rollback (s : Ledger String) :
    ledgerExecute host rules "ROLLBACK;" s =
      match s.working with
      | some _ => (.ok .ok, { s with working := none })
      | none => (.error (.db (.plan .noTransactionInProgress)), s) := by
  simp only [ledgerExecute, parse_rollbackNow hascii]

/-- A row that is accepted is added, and one that is refused changes nothing. -/
theorem execute_insert {sql : String} {rest : Chars}
    (hsql : sql = String.ofList ("INSERT INTO ".toList ++ rest)) (s : Ledger String) :
    ledgerExecute host rules sql s =
      match rules.change s.current sql with
      | .ok res => (.ok res, s.add [sql])
      | .error e => (.error e, s) := by
  unfold ledgerExecute
  cases hparse : parse host.text host.debugToken sql with
  | ok stmt =>
      have hinsert := isInsert_of_parse hascii (hsql ▸ hparse)
      cases stmt <;> first | rfl | cases hinsert
  | error e => rfl
  | stop why => rfl

omit hascii in
theorem run_execute (sql : String) (ctx : ExecutionContext) (s : Ledger String) :
    (call (.execute sql ctx)).run (ledgerHandler host rules) s =
      (.ok (ledgerExecute host rules sql s).1, (ledgerExecute host rules sql s).2) :=
  congrFun (PostgresWire.run_call _ _) s

end Statements

/-! ## What a client may rely on -/

/-- A reply that counts the rows, or none; a row without a statement is no row of the table. -/
def Honest (request : List (Option String)) (s : Ledger String) :
    Option Nat → Ledger String → Prop
  | some n, s' => ∃ sqls, request = sqls.map some ∧ n = sqls.length ∧ s' = s.add sqls
  | none, s' => s' = s

theorem honest_statements {sqls : List String} {s s' : Ledger String} {n : Nat} :
    Honest (sqls.map some) s (some n) s' ↔ n = sqls.length ∧ s' = s.add sqls := by
  constructor
  · rintro ⟨sqls', heq, hn, hs'⟩
    obtain rfl := List.map_injective_iff.mpr (Option.some_injective _) heq
    exact ⟨hn, hs'⟩
  · rintro ⟨hn, hs'⟩
    exact ⟨sqls, rfl, hn, hs'⟩

/-! ## Copies of a JSON client -/

section Json

variable (host : Host) (rules : Rules) (table : String) (rows : List (List Value))
  (ctx : ExecutionContext)

def rowStatements : List String := rows.map (Session.insertRowSql host table)

def counted : Response → Option Nat
  | .copyDone n => some n
  | _ => none

def HonestCopyIn (s : Ledger String) : Prop :=
  ∃ response s', (Session.copyIn host table rows ctx).run (ledgerHandler host rules) s =
      (.ok response, s') ∧
    Honest ((rowStatements host table rows).map some) s (counted response) s'

variable {host rules table rows ctx} (hascii : host.text.LikeAscii)
include hascii

omit hascii in
theorem insertRowSql_eq (row : List Value) : ∃ rest,
    Session.insertRowSql host table row = String.ofList ("INSERT INTO ".toList ++ rest) := by
  refine ⟨(table ++ " VALUES (" ++ ", ".intercalate (row.map (Session.sqlText host)) ++ ");").toList,
    ?_⟩
  rw [← String.toList_inj, String.toList_ofList]
  simp only [Session.insertRowSql, String.toList_append, List.append_assoc]

omit hascii in
example : Session.insertRowSql Running.plainHost "t" [.integer 1, .null] =
    "INSERT INTO t VALUES (1, NULL);" := by
  decide +kernel

/-- The rows are inserted up to the first that is refused. -/
theorem run_copyRows (count : Nat) (s : Ledger String) :
    ∃ result, (Session.copyRows host table ctx count rows).run (ledgerHandler host rules) s =
        (.ok result, s.add (Ledger.untilRefused rules.accepts s.current
          (rowStatements host table rows))) ∧
      if Ledger.allAccepted rules.accepts s.current (rowStatements host table rows) then
        result = .ok (count + rows.length)
      else ∃ e, result = .error e := by
  induction rows generalizing count s with
  | nil =>
      refine ⟨.ok count, ?_, rfl⟩
      rw [rowStatements, List.map_nil, Ledger.untilRefused, Ledger.add_nil]
      rfl
  | cons row rows ih =>
      obtain ⟨rest, hsql⟩ := @insertRowSql_eq host table row
      rw [Session.copyRows, Prog.run_bind, Exec.bind_apply, run_execute,
        execute_insert hascii hsql, rowStatements, List.map_cons, Ledger.untilRefused,
        Ledger.allAccepted, Rules.accepts]
      cases hchange : rules.change s.current (Session.insertRowSql host table row) with
      | error e => exact ⟨.error e, by simp [Except.toBool]; rfl, e, rfl⟩
      | ok res =>
          obtain ⟨result, hrun, hresult⟩ := ih (count + 1) (s.add [Session.insertRowSql host table row])
          rw [Ledger.current_add] at hrun hresult
          refine ⟨result, hrun.trans ?_, ?_⟩
          · rw [Ledger.add_add]
            rfl
          · rw [List.length_cons, Nat.add_comm rows.length, ← Nat.add_assoc]
            exact hresult

/-- The copy runs in what `BEGIN` left, and ends with `COMMIT` or `ROLLBACK`. -/
theorem run_copyIn {s s₁ : Ledger String}
    (hbegin : (ledgerExecute host rules "BEGIN TRANSACTION;" s).2 = s₁) :
    let sqls := rowStatements host table rows
    let whole := Ledger.allAccepted rules.accepts s₁.current sqls
    ∃ response, (Session.copyIn host table rows ctx).run (ledgerHandler host rules) s =
        (.ok response, (ledgerExecute host rules (if whole then "COMMIT;" else "ROLLBACK;")
          (s₁.add (Ledger.untilRefused rules.accepts s₁.current sqls))).2) ∧
      counted response = if whole then some rows.length else none := by
  intro sqls whole
  obtain ⟨result, hrun, hresult⟩ := @run_copyRows host rules table rows ctx hascii 0 s₁
  rw [Session.copyIn, Prog.run_bind, Exec.bind_apply, run_execute, hbegin]
  change ∃ response, ((Session.copyRows host table ctx 0 rows >>= _).run
    (ledgerHandler host rules) s₁) = _ ∧ _
  rw [Prog.run_bind, Exec.bind_apply, hrun]
  by_cases hwhole : whole = true
  · rw [if_pos hwhole] at hresult
    subst hresult
    refine ⟨.copyDone (0 + rows.length), ?_, ?_⟩
    · rw [if_pos hwhole]
      exact Prog.run_bind_ok (run_execute "COMMIT;" ctx _)
    · rw [if_pos hwhole, Nat.zero_add]
      rfl
  · rw [if_neg hwhole] at hresult
    obtain ⟨e, rfl⟩ := hresult
    refine ⟨.error (Session.errorText host e), ?_, ?_⟩
    · rw [if_neg hwhole]
      exact Prog.run_bind_ok (run_execute "ROLLBACK;" ctx _)
    · rw [if_neg hwhole]
      rfl

omit hascii in
theorem honestCopyIn_of_run {s s' : Ledger String} {response : Response}
    (h : (Session.copyIn host table rows ctx).run (ledgerHandler host rules) s = (.ok response, s')) :
    HonestCopyIn host rules table rows ctx s ↔
      Honest ((rowStatements host table rows).map some) s (counted response) s' := by
  constructor
  · rintro ⟨response', s'', hrun, hhonest⟩
    rw [h] at hrun
    obtain ⟨hresponse, rfl⟩ := Prod.mk.inj hrun
    obtain rfl := Outcome.ok.inj hresponse
    exact hhonest
  · exact fun hhonest => ⟨response, s', h, hhonest⟩

theorem honestCopyIn_iff (s : Ledger String) :
    HonestCopyIn host rules table rows ctx s ↔ s.working = none ∧
      (Ledger.allAccepted rules.accepts s.settled (rowStatements host table rows) →
        (rules.commit (s.settled ++ rowStatements host table rows)).2 =
          s.settled ++ rowStatements host table rows) := by
  have hlength : rows.length = (rowStatements host table rows).length :=
    (List.length_map _).symm
  obtain ⟨settled, _ | working⟩ := s
  · have hbegin : (ledgerExecute host rules "BEGIN TRANSACTION;" ⟨settled, none⟩).2 =
        ⟨settled, some settled⟩ := by rw [execute_begin hascii]
    obtain ⟨response, hrun, hcount⟩ := @run_copyIn host rules table rows ctx hascii _ _ hbegin
    rw [honestCopyIn_of_run hrun, hcount]
    by_cases hwhole : Ledger.allAccepted rules.accepts settled (rowStatements host table rows) = true
    · have hcurrent : Ledger.allAccepted rules.accepts
          (⟨settled, some settled⟩ : Ledger String).current (rowStatements host table rows) = true :=
        hwhole
      rw [if_pos hcurrent, if_pos hcurrent, Ledger.untilRefused_of_allAccepted hcurrent,
        honest_statements, execute_commit hascii]
      simp [Ledger.add, hlength, hwhole]
    · have hcurrent : ¬Ledger.allAccepted rules.accepts
          (⟨settled, some settled⟩ : Ledger String).current (rowStatements host table rows) = true :=
        hwhole
      rw [if_neg hcurrent, if_neg hcurrent, execute_rollback hascii]
      exact iff_of_true rfl ⟨rfl, fun h => absurd h hwhole⟩
  · have hbegin : (ledgerExecute host rules "BEGIN TRANSACTION;" ⟨settled, some working⟩).2 =
        ⟨settled, some working⟩ := by rw [execute_begin hascii]
    obtain ⟨response, hrun, hcount⟩ := @run_copyIn host rules table rows ctx hascii _ _ hbegin
    -- either way the transaction that was open is ended
    rw [honestCopyIn_of_run hrun, hcount]
    refine iff_of_false (fun h => ?_) (by simp)
    split at h
    · rw [honest_statements, execute_commit hascii] at h
      simp [Ledger.add] at h
    · rw [execute_rollback hascii] at h
      simp [Ledger.add, Honest] at h

/-! ### On the shared database -/

/-- The calls that a copy makes, on the session's clone. -/
def cloneHandler (host : Host) : Handler calls SharedDatabase
  | .execute sql ctx => (SharedDatabase.executeWithContext host sql ctx).attempt
  | _ => fun d => (.stop .diverges, d)

omit hascii in
theorem attempt_state {σ ε ε' α : Type} (x : Exec σ ε α) (s : σ) :
    ((x.attempt : Exec σ ε' (Except ε α)) s).2 = (x s).2 := by
  rw [Exec.attempt]
  rcases x s with ⟨_ | _ | _, s'⟩ <;> rfl

omit hascii in
theorem cloneHandler_end {sql : String} {stmt : Statement}
    (hparse : parse host.text host.debugToken sql = .ok stmt)
    (hstmt : stmt = .commit ∨ stmt = .rollback) (d : SharedDatabase) :
    (cloneHandler host (.execute sql ctx) d).2.transaction = none := by
  have hend : (SharedDatabase.executeWithContext host sql ctx d).2.transaction = none := by
    have hrun : (SharedDatabase.runEnd host ctx stmt d).2 = SharedDatabase.release d.transaction
        (SharedDatabase.run host ctx stmt { d with transaction := none }).2 := rfl
    have hexecute : SharedDatabase.executeWithContext host sql ctx d =
        SharedDatabase.runEnd host ctx stmt d := by
      rw [SharedDatabase.executeWithContext, hparse]
      rcases hstmt with rfl | rfl <;> rfl
    rw [hexecute, hrun, SharedDatabase.release_transaction, SharedDatabase.run_transaction]
  exact (congrArg SharedDatabase.transaction
    (attempt_state (SharedDatabase.executeWithContext host sql ctx) d)).trans hend

omit hascii in
/-- Where a call comes to its end, what follows it is returned. -/
theorem run_then_return {op : Call} {response response' : Response} {d d' : SharedDatabase}
    (h : ((call op >>= fun _ => pure response' : Talk Response).run (cloneHandler host)) d =
      (.ok response, d')) : d' = (cloneHandler host op d).2 := by
  rw [Prog.run_bind, Exec.bind_apply, congrFun (PostgresWire.run_call _ _) d] at h
  rcases hcall : cloneHandler host op d with ⟨_ | _ | _, d₁⟩ <;> rw [hcall] at h <;> cases h
  rfl

/-- After a copy the session has no transaction open, whether it had one before or not. -/
theorem copyIn_transaction {d d' : SharedDatabase} {response : Response}
    (h : (Session.copyIn host table rows ctx).run (cloneHandler host) d = (.ok response, d')) :
    d'.transaction = none := by
  rw [Session.copyIn, Prog.run_bind, Exec.bind_apply] at h
  split at h
  · next d₁ hbegin =>
      rw [Prog.run_bind, Exec.bind_apply] at h
      split at h
      · next result d₂ hrows =>
          cases result with
          | ok count =>
              rw [run_then_return h]
              exact cloneHandler_end (parse_commitNow hascii) (.inl rfl) d₂
          | error e =>
              rw [run_then_return h]
              exact cloneHandler_end (parse_rollbackNow hascii) (.inr rfl) d₂
      · cases h
      · cases h
  · cases h
  · cases h

end Json

/-! ## Copies of a PostgreSQL client -/

namespace PostgresWire

/-- How a client ends a copy: it completes it, gives it up, or closes its end. -/
inductive CopyEnd where
  | done
  | fail (message : Bytes)
  | closed

def CopyEnd.wire : CopyEnd → Bytes
  | .done => 99 :: beBytes 4 4
  | .fail message => 102 :: (beBytes 4 (message.length + 4) ++ message)
  | .closed => []

def CopyEnd.Fits : CopyEnd → Prop
  | .fail message => fits message
  | _ => True

/-- Each row of a completed copy is accepted in its turn, and none of another. -/
def SoundRequest (rules : Rules) (s : Ledger String) (request : List (Option String)) :
    CopyEnd → Prop
  | .done => (∀ row ∈ request, row.isSome) ∧
      Ledger.allAccepted rules.accepts s.current request.reduceOption
  | _ => Ledger.accepted rules.accepts s.current request.reduceOption = []

section Requests

variable (host : Host) (csv : Bool) (table : Chars) (columns : List Chars)

/-- A line is a row of the request, with its statement if it fits, unless it is blank or a mark. -/
def lineRequest (line : Chars) : Option (Option String) :=
  if trimmed host line = ['\\', '.'] ∨ trimmed host line = [] then none
  else some ((rowFields host csv columns line).map (copyInsert host table columns))

def copyRequest (chunks : List Bytes) : List (Option String) :=
  chunks.flatMap fun chunk =>
    (Text.lines (host.lossy chunk).toList).filterMap (lineRequest host csv table columns)

variable (rules : Rules) (ctx : ExecutionContext)

/-- A copy that the client does not complete leaves nothing behind. -/
def HonestCopyFrom (chunks : List Bytes) (ending : CopyEnd) (fuel : Nat) (s : Ledger String) :
    Prop :=
  ∃ c, (copyInLoop host csv table columns ctx fuel 0).run
      (Client.handler (ledgerHandler host rules)) ⟨chunks.flatMap copyData ++ ending.wire, [], s⟩ =
      (.ok (), c) ∧
    match ending with
    | .done => ∃ n, c.sent = [.commandComplete ("COPY " ++ toString n)] ∧
        Honest (copyRequest host csv table columns chunks) s (some n) c.db
    | _ => Honest (copyRequest host csv table columns chunks) s none c.db

end Requests

section Copies

variable {host : Host} {csv : Bool} {table : Chars} {columns : List Chars} {rules : Rules}
  {ctx : ExecutionContext}

theorem reduceOption_copyRequest (chunks : List Bytes) :
    (copyRequest host csv table columns chunks).reduceOption =
      (chunks.flatMap (messageRows host csv columns)).map (copyInsert host table columns) := by
  have hline : ∀ line, (lineRequest host csv table columns line).bind id =
      (rowFields host csv columns line).map (copyInsert host table columns) := by
    intro line
    rw [lineRequest]
    split
    · next hskip =>
        rw [rowFields, if_pos (hskip.imp_right .inl)]
        rfl
    · rfl
  rw [copyRequest, List.reduceOption, List.filterMap_flatMap, List.map_flatMap]
  refine List.flatMap_congr fun chunk _ => ?_
  rw [List.filterMap_filterMap, messageRows, List.map_filterMap]
  exact List.filterMap_congr fun line _ => hline line

/-- How the loop goes on behind the last message of data. -/
theorem run_ending {ending : CopyEnd} (h : ending.Fits) (fuel copied : Nat) (s : Ledger String) :
    ∃ c, (copyInLoop host csv table columns ctx (fuel + 1) copied).run
        (Client.handler (ledgerHandler host rules)) ⟨ending.wire, [], s⟩ = (.ok (), c) ∧
      c.db = s ∧ (ending = .done → c.sent = [.commandComplete ("COPY " ++ toString copied)]) := by
  cases ending with
  | done => exact ⟨_, copyInLoop_done fuel copied [] s, rfl, fun _ => rfl⟩
  | fail message =>
      have hbody := @run_readBody _ (ledgerHandler host rules) message h [] [] s
      rw [List.append_nil] at hbody
      refine ⟨_, (Prog.run_bind_ok (run_readType 102 _ [] s)).trans
        ((Prog.run_bind_ok hbody).trans rfl), rfl, nofun⟩
  | closed =>
      have hread : (call (.readExact 1)).run (Client.handler (ledgerHandler host rules))
          ⟨[], [], s⟩ = (.error .unexpectedEof, ⟨[], [], s⟩) := congrFun (run_call _ _) _
      have htry : (tryCall (.readExact 1)).run (Client.handler (ledgerHandler host rules))
          ⟨[], [], s⟩ = (.ok (.error .unexpectedEof), ⟨[], [], s⟩) :=
        (congrFun (Prog.run_attempt _ _) _).trans (attempt_error hread)
      exact ⟨_, (Prog.run_bind_ok htry).trans rfl, rfl, nofun⟩

variable (hascii : host.text.LikeAscii)
include hascii

omit hascii in
theorem copyInsert_eq (fields : List Chars) : ∃ rest,
    copyInsert host table columns fields = String.ofList ("INSERT INTO ".toList ++ rest) := by
  have hfront : ∀ a b c d e f g : Chars,
      a ++ b ++ c ++ d ++ e ++ f ++ g = a ++ (b ++ c ++ d ++ e ++ f ++ g) := by simp
  exact ⟨_, congrArg String.ofList (hfront _ _ _ _ _ _ _)⟩

/-- The rows that are accepted are inserted and counted. -/
theorem run_insertRows_ledger (lines : List (List Chars)) (copied : Nat) (s : Ledger String) :
    (insertRows host columns table ctx copied lines).run (ledgerHandler host rules) s =
      (.ok (copied + (Ledger.accepted rules.accepts s.current
          (lines.map (copyInsert host table columns))).length),
        s.add (Ledger.accepted rules.accepts s.current
          (lines.map (copyInsert host table columns)))) := by
  induction lines generalizing copied s with
  | nil =>
      rw [List.map_nil, Ledger.accepted, Ledger.add_nil]
      rfl
  | cons fields lines ih =>
      obtain ⟨rest, hsql⟩ := @copyInsert_eq host table columns fields
      rw [insertRows, Prog.run_bind, Exec.bind_apply, run_execute, execute_insert hascii hsql,
        List.map_cons, Ledger.accepted, Rules.accepts]
      cases hchange : rules.change s.current (copyInsert host table columns fields) with
      | error e => exact ih copied s
      | ok res =>
          have hrest := ih (copied + 1) (s.add [copyInsert host table columns fields])
          rw [Ledger.current_add, Ledger.add_add, Nat.add_assoc, Nat.add_comm 1] at hrest
          exact hrest

omit hascii in
theorem map_some_iff {request : List (Option String)} {sqls : List String} :
    request = sqls.map some ↔ (∀ row ∈ request, row.isSome) ∧ request.reduceOption = sqls := by
  constructor
  · rintro rfl
    simp [List.reduceOption]
  · rintro ⟨hall, rfl⟩
    induction request with
    | nil => rfl
    | cons row request ih =>
        obtain ⟨hrow, hrest⟩ := List.forall_mem_cons.mp hall
        obtain ⟨sql, rfl⟩ := Option.isSome_iff_exists.mp hrow
        rw [List.reduceOption_cons_of_some, List.map_cons, ← ih hrest]

/-- What a copy comes to, by what the client sends and what the database accepts. -/
theorem run_copy {chunks : List Bytes} (hsizes : ∀ chunk ∈ chunks, fits chunk)
    {ending : CopyEnd} (hending : ending.Fits) {fuel : Nat} (hfuel : chunks.length < fuel)
    (s : Ledger String) :
    let accepted := Ledger.accepted rules.accepts s.current
      (copyRequest host csv table columns chunks).reduceOption
    ∃ c, (copyInLoop host csv table columns ctx fuel 0).run
        (Client.handler (ledgerHandler host rules))
          ⟨chunks.flatMap copyData ++ ending.wire, [], s⟩ = (.ok (), c) ∧
      c.db = s.add accepted ∧
      (ending = .done → c.sent = [.commandComplete ("COPY " ++ toString accepted.length)]) := by
  obtain ⟨more, rfl⟩ := Nat.exists_eq_add_of_lt hfuel
  obtain ⟨unread, hrun⟩ := @copyInLoop_chunks _ host csv table columns ctx
    (ledgerHandler host rules) _ hsizes ending.wire (more + 1) 0 [] s
  rw [run_insertRows_ledger hascii, ← reduceOption_copyRequest, Nat.zero_add] at hrun
  obtain ⟨c, hend, hdb, hsent⟩ := @run_ending host csv table columns rules ctx _ hending more
    (Ledger.accepted rules.accepts s.current
      (copyRequest host csv table columns chunks).reduceOption).length
    (s.add (Ledger.accepted rules.accepts s.current
      (copyRequest host csv table columns chunks).reduceOption))
  exact ⟨c, hrun.trans hend, hdb, hsent⟩

theorem honestCopyFrom_iff {chunks : List Bytes} (hsizes : ∀ chunk ∈ chunks, fits chunk)
    {ending : CopyEnd} (hending : ending.Fits) {fuel : Nat} (hfuel : chunks.length < fuel)
    (s : Ledger String) :
    HonestCopyFrom host csv table columns rules ctx chunks ending fuel s ↔
      SoundRequest rules s (copyRequest host csv table columns chunks) ending := by
  obtain ⟨c, hrun, hdb, hsent⟩ := @run_copy host csv table columns rules ctx hascii _ hsizes _
    hending _ hfuel s
  have hhonest : ∀ P : Client (Ledger String) → Prop,
      (∃ c', (copyInLoop host csv table columns ctx fuel 0).run
        (Client.handler (ledgerHandler host rules))
          ⟨chunks.flatMap copyData ++ ending.wire, [], s⟩ = (.ok (), c') ∧ P c') ↔ P c := by
    intro P
    constructor
    · rintro ⟨c', hrun', hc'⟩
      obtain rfl := (Prod.mk.inj (hrun.symm.trans hrun')).2
      exact hc'
    · exact fun hc => ⟨c, hrun, hc⟩
  rw [HonestCopyFrom, hhonest]
  cases ending with
  | done =>
      constructor
      · rintro ⟨n, -, sqls, hrequest, -, hadd⟩
        obtain ⟨hall, hsqls⟩ := map_some_iff.mp hrequest
        refine ⟨hall, Ledger.accepted_eq_self_iff.mp ?_⟩
        rw [hsqls]
        rw [hdb, hsqls] at hadd
        exact Ledger.add_inj.mp hadd
      · rintro ⟨hall, haccepted⟩
        have hself := Ledger.accepted_eq_self_iff.mpr haccepted
        rw [hself] at hdb hsent
        exact ⟨_, hsent rfl, _, map_some_iff.mpr ⟨hall, rfl⟩, rfl, hdb⟩
  | fail message => exact (iff_of_eq (congrArg (· = s) hdb)).trans Ledger.add_eq_self_iff
  | closed => exact (iff_of_eq (congrArg (· = s) hdb)).trans Ledger.add_eq_self_iff

end Copies

end PostgresWire

/-! ## Both protocols -/

/-- A database that accepts everything. -/
def acceptAll : Rules := ⟨fun _ _ => .ok .ok, fun working => (.ok .ok, working)⟩

end ChocoBase.Server
