import ChocoBase.Foundation.Text
import ChocoBase.Server.Session

/-!
# The PostgreSQL session

A session that starts with a password and then answers one message after another.
Parameters are written into the text of the query.  However the loop ends, nothing
is rolled back.
-/

namespace ChocoBase.Server

open ChocoBase.Foundation ChocoBase.Engine ChocoBase.Sql ChocoBase.Types ChocoBase.Auth

namespace PostgresWire

open Text (Chars)

def slice (body : Bytes) (offset count : Nat) : Bytes := (body.drop offset).take count

section Texts

variable (host : Host)

def upper (s : Chars) : Chars := (host.text.toUppercase (String.ofList s)).toList

def trimmed (s : Chars) : Chars := Text.trim host.text.isWhitespace s

def startsWith (start : String) (s : Chars) : Bool := start.toList.isPrefixOf s

/-- `trim_start().to_uppercase().starts_with(..)` -/
def isCommand (sql : String) (keyword : String) : Bool :=
  startsWith keyword (upper host (Text.trimStart host.text.isWhitespace sql.toList))

/-- The bytes up to the next zero, as a text, and the offset after it. -/
def readCstring (body : Bytes) (offset : Nat) : String × Nat :=
  let bytes := (body.drop offset).takeWhile (· ≠ 0)
  let stop := offset + bytes.length
  (host.lossy bytes, if stop < body.length then stop + 1 else stop)

/-! ## Parameters -/

/-- The value of a parameter as SQL. -/
def paramText : Option String → String
  | none => "NULL"
  | some s =>
      if (parseI64 s.toList).isSome || (host.text.parseF64 s).isSome then s else quoted s

/-- One parameter of a message: its value, if it has one that fits, and the offset after it. -/
def readParam (body : Bytes) (offset : Nat) : Option String × Nat :=
  let len := beValue (slice body offset 4)
  let offset := offset + 4
  -- a negative length other than -1 stands for no value too
  if len < 2 ^ 31 ∧ offset + len ≤ body.length then
    (some (host.lossy (slice body offset len)), offset + len)
  else (none, offset)

/-- A parameter whose length is not in the message is left out. -/
def readParams (body : Bytes) : Nat → Nat → List (Option (Option String))
  | 0, _ => []
  | count + 1, offset =>
      if offset + 4 ≤ body.length then
        let (value, offset) := readParam host body offset
        some value :: readParams body count offset
      else none :: readParams body count offset

def placeholder (i : Nat) : Chars := '$' :: (toString i).toList

/-- Replace `$i` by the first value, `$(i + 1)` by the second, and so on. -/
def substitute : Nat → List (Option (Option String)) → Chars → Chars
  | _, [], sql => sql
  | i, param :: params, sql =>
      let sql := match param with
        | some value => Text.replaceAll (placeholder i) (paramText host value).toList sql
        | none => sql
      substitute (i + 1) params sql

/-- The query of a `Bind` message with its parameters written into it. -/
def boundSql (body : Bytes) (offset : Nat) (query : String) : String :=
  let offset :=
    if offset + 2 ≤ body.length then offset + 2 + beValue (slice body offset 2) * 2 else offset
  if offset + 2 ≤ body.length then
    let params := readParams host body (beValue (slice body offset 2)) (offset + 2)
    String.ofList (substitute host 1 params query.toList)
  else query

end Texts

/-! ## Queries -/

section Session

variable (host : Host)

def send (message : BackendMessage) : Talk Unit := call (.send message)

def flush : Talk Unit := call .flush

def sendAll : List BackendMessage → Talk Unit
  | [] => return ()
  | message :: rest => do
      send message
      sendAll rest

def modifiedTag (sql : String) (count : Nat) : String :=
  if isCommand host sql "INSERT" then "INSERT 0 " ++ toString count
  else if isCommand host sql "UPDATE" then "UPDATE " ++ toString count
  else if isCommand host sql "DELETE" then "DELETE " ++ toString count
  else "SET " ++ toString count

def okTag (sql : String) : String :=
  (["CREATE TABLE", "DROP TABLE", "CREATE INDEX", "BEGIN", "COMMIT", "ROLLBACK"].find?
    (isCommand host sql)).getD "OK"

def reply (sql : String) : Except QueryError ExecResult → List BackendMessage
  | .ok (.rows columns rows) =>
      .rowDescription columns :: rows.map BackendMessage.dataRow ++
        [.commandComplete ("SELECT " ++ toString rows.length)]
  | .ok (.modified count) => [.commandComplete (modifiedTag host sql count)]
  | .ok .ok => [.commandComplete (okTag host sql)]
  | .error e => [.errorResponse "42601" (Session.errorText host e)]

/-- The probes that clients send are answered without the database. -/
def isProbe (sql : String) : Bool :=
  let trimmedSql := String.ofList (trimmed host (Text.trimEnd (· = ';') sql.toList))
  Parser.eqIgnoreAsciiCase trimmedSql "SELECT 1" ||
    Parser.eqIgnoreAsciiCase trimmedSql "SELECT 1 AS one"

def executeAndReplyQuery (sql : String) (ctx : ExecutionContext) : Talk Unit := do
  if isProbe host sql then
    sendAll [.rowDescription ["one"], .dataRow [.integer 1], .commandComplete "SELECT 1"]
  else
    let result ← call (.execute sql ctx)
    sendAll (reply host sql result)

/-! ## COPY -/

/-- `sql.trim_matches('\0').trim()` -/
def cleanSql (sql : Chars) : Chars := trimmed host (Text.trim (· = '\x00') sql)

/-- The text between `COPY` and the keyword, trimmed. -/
def copyTarget (keyword : String) (clean : Chars) : Option (Option Chars) :=
  (Text.before keyword.toList (upper host clean)).map fun start =>
    (Text.byteSlice 4 (utf8Length start) clean).map (trimmed host)

/-- A table, or a table and a list of columns in parentheses. -/
def copyColumns (target : Chars) : Option (Chars × Option (List Chars)) :=
  match Text.before ['('] target with
  | none => some (target, none)
  | some name =>
      let start := name.length + 1
      let stop := match Text.before [')'] target.reverse with
        | some tail => target.length - tail.length - 1
        | none => target.length
      if stop < start then none
      else
        let columns := Text.splitOn ',' ((target.take stop).drop start)
        some (trimmed host name, some ((columns.map (trimmed host)).filter (· ≠ [])))

def copyValue (field : Chars) : Chars :=
  if field = ['\\', 'N'] || Parser.eqIgnoreAsciiCase (String.ofList field) "null" then "NULL".toList
  else match parseI64 field with
    | some n => (toString n.toInt).toList
    | none =>
        match host.text.parseF64 (String.ofList field) with
        | some x => (host.floatText x).toList
        | none => (quoted (String.ofList field)).toList

def copyInsert (table : Chars) (columns fields : List Chars) : String :=
  String.ofList ("INSERT INTO ".toList ++ table ++ " (".toList ++ Text.join ", ".toList columns ++
    ") VALUES (".toList ++ Text.join ", ".toList (fields.map (copyValue host)) ++ ")".toList)

/-- The rows of one `CopyData` message; a line that does not fit is left out. -/
def copyLines (csv : Bool) (table : Chars) (columns : List Chars) (ctx : ExecutionContext) :
    Nat → List Chars → Talk Nat
  | copied, [] => return copied
  | copied, line :: rest => do
      let line := trimmed host line
      let fields := (Text.splitOn (if csv then ',' else '\t') line).map (trimmed host)
      if line = ['\\', '.'] ∨ line = [] ∨ fields.length ≠ columns.length then
        copyLines csv table columns ctx copied rest
      else
        match ← call (.execute (copyInsert host table columns fields) ctx) with
        | .ok _ => copyLines csv table columns ctx (copied + 1) rest
        | .error _ => copyLines csv table columns ctx copied rest

/-- The length of a message and its body. -/
def readBody : Talk Bytes := do
  let len ← call (.readExact 4)
  call (.readExact (beValue len - 4))

/-- The loop of `COPY .. FROM STDIN`. -/
def copyInLoop (csv : Bool) (table : Chars) (columns : List Chars) (ctx : ExecutionContext) :
    Nat → Nat → Talk Unit
  | 0, _ => .halt .diverges
  | fuel + 1, copied => do
      let done : Talk Unit := send (.commandComplete ("COPY " ++ toString copied))
      let read : Except IoErrorKind Bytes ← tryCall (.readExact 1)
      match read with
      | .error _ => done
      | .ok type => do
          let body ← readBody
          if type = [100] then
            let copied ← copyLines host csv table columns ctx copied
              (Text.lines (host.lossy body).toList)
            copyInLoop csv table columns ctx fuel copied
          else if type = [102] then
            send (.errorResponse "57014" "COPY operation failed by client")
          else done

def handleCopyIn (fuel : Nat) (sql : Chars) (ctx : ExecutionContext) : Talk Unit := do
  let clean := cleanSql host sql
  match copyTarget host " FROM " clean with
  | none => send (.errorResponse "42601" "invalid COPY syntax, expected FROM")
  | some target => do
      let target ← Prog.unwrap target
      let (table, columns) ← Prog.unwrap (copyColumns host target)
      let schema : Option TableSchema ← call (.tableSchema (String.ofList table))
      match schema with
      | none =>
          send (.errorResponse "42P01" ("relation \"" ++ String.ofList table ++ "\" does not exist"))
      | some schema => do
          let columns := columns.getD (schema.columns.map fun c => c.name.toList)
          send (.copyInResponse columns.length)
          flush
          copyInLoop host (Text.contains "CSV".toList (upper host clean)) table columns ctx fuel 0

def copyText : Value → String
  | .null => "\\N"
  | .integer n => toString n.toInt
  | .float x => host.floatText x
  | .text s | .json s => s
  | .boolean b => if b then "t" else "f"
  | .vector xs => host.debugVector xs

def copyLine (row : Row) : String := "\t".intercalate (row.map (copyText host)) ++ "\n"

def copyOutQuery (source : Chars) : String :=
  if startsWith "(" source && source.getLast? = some ')' then
    String.ofList (trimmed host (source.drop 1).dropLast)
  else String.ofList ("SELECT * FROM ".toList ++ source)

def copyOutReply : Except QueryError ExecResult → List BackendMessage
  | .ok (.rows columns rows) =>
      .copyOutResponse columns.length :: rows.map (fun row => .copyData (copyLine host row)) ++
        [.copyDone, .commandComplete ("COPY " ++ toString rows.length)]
  | .ok _ => [.copyDone, .commandComplete "COPY 0"]
  | .error e => [.errorResponse "42P01" (Session.errorText host e)]

def handleCopyOut (sql : Chars) (ctx : ExecutionContext) : Talk Unit := do
  let clean := cleanSql host sql
  match copyTarget host " TO " clean with
  | none => send (.errorResponse "42601" "invalid COPY syntax, expected TO")
  | some target => do
      let source ← Prog.unwrap target
      let result ← call (.execute (copyOutQuery host source) ctx)
      sendAll (copyOutReply host result)

/-! ## Messages -/

structure State where
  preparedStatements : String → Option (String × List UInt32)
  portals : String → Option String

def State.empty : State := ⟨fun _ => none, fun _ => none⟩

def ready : Talk Unit := do
  send (.readyForQuery 'I')
  flush

def handleQuery (fuel : Nat) (body : Bytes) (ctx : ExecutionContext) : Talk Unit := do
  let sql := trimmed host (Text.trim (· = '\x00') (host.lossy body).toList)
  let sqlUpper := upper host sql
  let copies (keyword : String) : Bool :=
    startsWith "COPY " sqlUpper && Text.contains keyword.toList sqlUpper
  if sql = [] then send .emptyQueryResponse
  else if copies "FROM STDIN" then handleCopyIn host fuel sql ctx
  else if copies "TO STDOUT" then handleCopyOut host sql ctx
  else executeAndReplyQuery host (String.ofList sql) ctx
  ready

def readOids (body : Bytes) : Nat → Nat → List UInt32
  | 0, _ => []
  | count + 1, offset =>
      if offset + 4 ≤ body.length then
        UInt32.ofNat (beValue (slice body offset 4)) :: readOids body count (offset + 4)
      else readOids body count offset

def handleParse (body : Bytes) (s : State) : Talk State := do
  let (name, offset) := readCstring host body 0
  let (query, offset) := readCstring host body offset
  let oids :=
    if offset + 2 ≤ body.length then
      readOids body (beValue (slice body offset 2)) (offset + 2)
    else []
  send .parseComplete
  return { s with
    preparedStatements := Function.update s.preparedStatements name (some (query, oids)) }

def handleBind (body : Bytes) (s : State) : Talk State := do
  let (portal, offset) := readCstring host body 0
  let (name, offset) := readCstring host body offset
  let query := ((s.preparedStatements name).map Prod.fst).getD name
  send .bindComplete
  return { s with
    portals := Function.update s.portals portal (some (boundSql host body offset query)) }

def handleDescribe (body : Bytes) (s : State) : Talk Unit :=
  match body with
  | [] => return ()
  | type :: _ => do
      let (name, _) := readCstring host body 1
      if type = 83 then
        send (.parameterDescription (((s.preparedStatements name).map Prod.snd).getD []))
      send .noData

def handleExecute (body : Bytes) (s : State) (ctx : ExecutionContext) : Talk Unit := do
  let (portal, _) := readCstring host body 0
  match s.portals portal with
  | some sql => executeAndReplyQuery host sql ctx
  | none => send (.commandComplete "OK")

def handleClose (body : Bytes) (s : State) : Talk State :=
  match body with
  | [] => return s
  | type :: _ => do
      let (name, _) := readCstring host body 1
      send .closeComplete
      return if type = 83 then
          { s with preparedStatements := Function.update s.preparedStatements name none }
        else if type = 80 then { s with portals := Function.update s.portals name none }
        else s

/-- The answer to a message, by its type; `X` ends the loop. -/
def handleMessage (fuel : Nat) (type : UInt8) (body : Bytes) (s : State)
    (ctx : ExecutionContext) : Talk (Option State) :=
  match Char.ofNat type.toNat with
  | 'Q' => do
      handleQuery host fuel body ctx
      return some s
  | 'P' => some <$> handleParse host body s
  | 'B' => some <$> handleBind host body s
  | 'D' => do
      handleDescribe host body s
      return some s
  | 'E' => do
      handleExecute host body s ctx
      return some s
  | 'S' => do
      ready
      return some s
  | 'H' => do
      flush
      return some s
  | 'C' => some <$> handleClose host body s
  | 'X' => return none
  | _ => do
      ready
      return some s

def turn (fuel : Nat) (s : State) (ctx : ExecutionContext) : Talk (Option State) := do
  let read : Except IoErrorKind Bytes ← tryCall (.readExact 1)
  match read with
  | .error .unexpectedEof => return none
  | .error e => .throw e
  | .ok type => do
      let body ← readBody
      handleMessage host fuel (type.headD 0) body s ctx

def loop (ctx : ExecutionContext) : Nat → State → Talk Unit
  | 0, _ => .halt .diverges
  | fuel + 1, s => do
      match ← turn host fuel s ctx with
      | some s => loop ctx fuel s
      | none => return ()

/-! ## The start of a session -/

/-- The pairs of names and values of a startup message; of two values the later one counts. -/
def startupParams : List Chars → List (Chars × Chars)
  | name :: value :: rest => startupParams rest ++ [(name, value)]
  | _ => []

def parseStartupParams (body : Bytes) : List (Chars × Chars) :=
  if body.length ≤ 4 then []
  else startupParams
    ((Text.splitOn '\x00' (host.lossy (body.drop 4)).toList).filter (· ≠ []))

/-- The body of the startup message; a request for encryption is declined first. -/
def readStartup : Talk Bytes := do
  let rest ← call (.readExact 3)
  let body ← call (.readExact (beValue (0 :: rest) - 4))
  if 4 ≤ body.length ∧ beValue (body.take 4) = 80877103 then
    send .noSsl
    flush
    readBody
  else return body

def refuse (code message : String) : Talk Unit := do
  send (.errorResponse code message)
  flush

/-- The context of a user with this password. -/
def authenticate (username password : String) : Talk (Option ExecutionContext) := do
  let found ← call (.execute (Session.userQuery username) .admin)
  match Session.firstUser found with
  | none => return none
  | some row => do
      let (id, hash, role) ← Prog.unwrap row
      let verified : Bool ← call (.verifyPassword password (Session.textOr "" hash))
      return if verified then
          some (.authenticated (Session.intOr 1 id) (Session.textOr "user" role))
        else none

def welcome (username : String) (ctx : ExecutionContext) : List BackendMessage :=
  [.authenticationOk, .backendKeyData (1000 + (ctx.userId.getD 1).toInt).toInt32.toInt 424242,
    .parameterStatus "server_version" "15.0 (ChocoBase)",
    .parameterStatus "client_encoding" "UTF8",
    .parameterStatus "server_encoding" "UTF8",
    .parameterStatus "DateStyle" "ISO, MDY",
    .parameterStatus "integer_datetimes" "on",
    .parameterStatus "standard_conforming_strings" "on",
    .parameterStatus "session_authorization"
      (String.ofList (username.toList.flatMap fun c => if c = '\'' then ['\'', '\''] else [c])),
    .parameterStatus "is_superuser" (if ctx.isAdmin then "on" else "off"),
    .readyForQuery 'I']

/-- The session after the byte that the listener has read, for at most `fuel` messages. -/
def runSession (fuel : Nat) : Talk Unit := do
  let body ← readStartup
  let name := (parseStartupParams host body).lookup "user".toList
  let username := trimmed host (name.getD [])
  if username = [] then
    refuse "28000" "no PostgreSQL user name specified in startup packet"
  else do
    send .authenticationCleartextPassword
    flush
    let type : Bytes ← call (.readExact 1)
    if type ≠ [112] then refuse "28P01" "expected password message"
    else do
      let body ← readBody
      let password := String.ofList (Text.trim (· = '\x00') (host.lossy body).toList)
      match ← authenticate (String.ofList username) password with
      | none =>
          refuse "28P01" ("password authentication failed for user \"" ++ String.ofList username ++
            "\"")
      | some ctx => do
          sendAll (welcome (String.ofList username) ctx)
          flush
          loop host ctx fuel .empty

end Session

end PostgresWire

end ChocoBase.Server
