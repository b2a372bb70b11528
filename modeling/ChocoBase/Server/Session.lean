import ChocoBase.Server.Protocol

/-!
# The JSON session

The loop reads a request, or with a subscription a request or an event, and writes
one response.  When it leaves the loop, the session rolls back what it has open; a
response that cannot be written ends it at once.
-/

namespace ChocoBase.Server

open ChocoBase.Foundation ChocoBase.Engine ChocoBase.Sql ChocoBase.Types ChocoBase.Auth

namespace Session

variable (host : Host)

structure State where
  /-- the filter of the subscription: a table, or none for all -/
  subscription : Option (Option String)
  ctx : ExecutionContext

def initial : State := ⟨none, .anonymous⟩

def respond (response : Response) : Talk Unit := call (.writeResponse response)

def errorText (e : QueryError) : String := e.text host.lib.ioText

/-! ## Requests -/

def intOr (other : Int64) : Value → Int64
  | .integer n => n
  | _ => other

def textOr (other : String) : Value → String
  | .text s => s
  | _ => other

def userQuery (username : String) : String :=
  "SELECT id, password_hash, role FROM _users WHERE username = " ++ quoted username

/-- The first row of a result; a row of fewer columns panics. -/
def firstUser : Except QueryError ExecResult → Option (Option (Value × Value × Value))
  | .ok (.rows _ (row :: _)) => some (do return (← row[0]?, ← row[1]?, ← row[2]?))
  | _ => none

def invalidCredentials : Response := .error "invalid credentials"

def handleAuth (username password : String) (ctx : ExecutionContext) :
    Talk (Response × ExecutionContext) := do
  let found ← call (.execute (userQuery username) .admin)
  match firstUser found with
  | none => return (invalidCredentials, ctx)
  | some row => do
      let (id, hash, role) ← Prog.unwrap row
      let userId := intOr 1 id
      let role := textOr "user" role
      let verified : Bool ← call (.verifyPassword password (textOr "" hash))
      if verified then
        return (.authOk userId username role, .authenticated userId role)
      else return (invalidCredentials, ctx)

def fromClaims (claims : SessionClaims) : ExecutionContext := .authenticated claims.sub claims.role

def handleTokenAuth (token : String) (ctx : ExecutionContext) :
    Talk (Response × ExecutionContext) := do
  match ← call (.verifyJwt token) with
  | some claims => return (.authOk claims.sub claims.username claims.role, fromClaims claims)
  | none => return (.error "invalid or expired token", ctx)

def sqlText : Value → String
  | .integer n => toString n.toInt
  | .float x => host.floatText x
  | .text s | .json s => quoted s
  | .boolean b => toString b
  | .null => "NULL"
  | .vector xs => "'" ++ (host.lib.vectorText xs).getD "" ++ "'"

def insertRowSql (table : String) (row : List Value) : String :=
  "INSERT INTO " ++ table ++ " VALUES (" ++ ", ".intercalate (row.map (sqlText host)) ++ ");"

/-- Insert rows until one fails. -/
def copyRows (table : String) (ctx : ExecutionContext) :
    Nat → List (List Value) → Talk (Except QueryError Nat)
  | count, [] => return .ok count
  | count, row :: rows => do
      match ← call (.execute (insertRowSql host table row) ctx) with
      | .ok _ => copyRows table ctx (count + 1) rows
      | .error e => return .error e

def copyIn (table : String) (rows : List (List Value)) (ctx : ExecutionContext) :
    Talk Response := do
  let _ ← call (.execute "BEGIN TRANSACTION;" ctx)
  match ← copyRows host table ctx 0 rows with
  | .error e => do
      let _ ← call (.execute "ROLLBACK;" ctx)
      return .error (errorText host e)
  | .ok count => do
      let _ ← call (.execute "COMMIT;" ctx)
      return .copyDone count

def copyOut (table : String) (ctx : ExecutionContext) : Talk Response := do
  match ← call (.execute ("SELECT * FROM " ++ table ++ ";") ctx) with
  | .ok (.rows _ rows) => return .copyData rows
  | .ok _ => return .copyData []
  | .error e => return .error (errorText host e)

def handleRequest (s : State) : Request → Talk (Response × State)
  | .auth username password => do
      let (response, ctx) ← handleAuth username password s.ctx
      return (response, { s with ctx })
  | .token token => do
      let (response, ctx) ← handleTokenAuth token s.ctx
      return (response, { s with ctx })
  | .query sql => do
      match ← call (.execute sql s.ctx) with
      | .ok res => return (.result res, s)
      | .error e => return (.error (errorText host e), s)
  | .ping => return (.pong, s)
  | .subscribe table => return (.subscribed, { s with subscription := some table })
  | .unsubscribe => return (.unsubscribed, { s with subscription := none })
  | .copyIn table rows => do
      let response ← copyIn host table rows s.ctx
      return (response, s)
  | .copyOut table => do
      let response ← copyOut host table s.ctx
      return (response, s)

/-! ## Events -/

/-- Whether the rows of an event may be shown to the user; `schema` is that of its table. -/
def checkEventRls (schema : Option TableSchema) (event : ChangeEvent) (ctx : ExecutionContext) :
    Bool :=
  if ctx.isAdmin then true
  else match schema with
    | none => true
    | some schema =>
        if !schema.rlsEnabled then true
        else if ctx.userId.isNone then false
        else match event.newRow.or event.oldRow, schema.columnIndex "user_id" with
          | some row, some idx =>
              match row[idx]? with
              | some (.integer uid) => some uid = ctx.userId
              | _ => true
          | _, _ => true

def tableMatches (filter : Option String) (event : ChangeEvent) : Bool :=
  match filter with
  | some table => event.table = table
  | none => true

/-- An admin's events are not looked up in the catalog. -/
def admits (event : ChangeEvent) (ctx : ExecutionContext) : Talk Bool :=
  if ctx.isAdmin then return true
  else do
    let schema ← call (.tableSchema event.table)
    return checkEventRls schema event ctx

def handleEvent (filter : Option String) (event : ChangeEvent) (s : State) : Talk Unit :=
  if tableMatches filter event then do
    if ← admits event s.ctx then respond (.event event)
  else return ()

/-! ## The loop -/

/-- What one request leads to: the state for the next one, or none to leave the loop. -/
def handleRead (s : State) : Except IoErrorKind (Option Request) → Talk (Option State)
  | .ok (some request) => do
      let (response, s) ← handleRequest host s request
      respond response
      return some s
  | .ok none => return none
  | .error kind => do
      let _ ← tryCall (.writeResponse (.error (host.lib.ioText kind)))
      return none

def handleIncoming (filter : Option String) (s : State) : Incoming → Talk (Option State)
  | .request r => handleRead host s r
  | .event event => do
      handleEvent filter event s
      return some s
  | .lagged => return some s
  | .closed => return some { s with subscription := none }

/-- One turn of the loop. -/
def turn (s : State) : Talk (Option State) :=
  match s.subscription with
  | some filter => do
      let incoming ← call .readRequestOrEvent
      handleIncoming host filter s incoming
  | none => do
      let r ← tryCall .readRequest
      handleRead host s r

def loop : Nat → State → Talk Unit
  | 0, _ => .halt .diverges
  | fuel + 1, s => do
      match ← turn host s with
      | some s => loop fuel s
      | none => return ()

def cleanup : Talk Unit := call .rollbackOnDisconnect

/-- `run_session`, for at most `fuel` turns. -/
def runSession (fuel : Nat) : Talk Unit := do
  loop host fuel initial
  cleanup

end Session

end ChocoBase.Server
