import ChocoBase.Auth.Claims
import ChocoBase.Server.SharedDatabase

/-!
# What a connection says and asks for

The messages of both protocols, and the calls that a session makes: it reads from
its socket, writes to it, and works on its clone of the database.
-/

namespace ChocoBase.Server

open ChocoBase.Foundation ChocoBase.Engine ChocoBase.Sql ChocoBase.Types ChocoBase.Auth

/-! ## The JSON protocol -/

inductive Request where
  | auth (username password : String)
  | token (token : String)
  | query (sql : String)
  | ping
  | subscribe (table : Option String)
  | unsubscribe
  | copyIn (table : String) (rows : List (List Value))
  | copyOut (table : String)
  deriving DecidableEq

inductive Response where
  | authOk (userId : Int64) (username role : String)
  | result (res : ExecResult)
  | error (message : String)
  | pong
  | event (event : ChangeEvent)
  | subscribed
  | unsubscribed
  | copyData (rows : List Row)
  | copyDone (rowsCopied : Nat)
  deriving DecidableEq

/-- What a session with a subscription waits for. -/
inductive Incoming where
  /-- what `read_request` returned; a malformed request is an error -/
  | request (r : Except IoErrorKind (Option Request))
  | event (event : ChangeEvent)
  | lagged
  | closed

/-! ## The messages of a PostgreSQL server -/

inductive BackendMessage where
  | noSsl
  | authenticationCleartextPassword
  | authenticationOk
  | backendKeyData (processId secretKey : Int)
  | parameterStatus (name value : String)
  | readyForQuery (status : Char)
  | emptyQueryResponse
  | parseComplete
  | bindComplete
  | closeComplete
  | noData
  | parameterDescription (oids : List UInt32)
  | rowDescription (columns : List String)
  | dataRow (values : Row)
  | commandComplete (tag : String)
  | errorResponse (code message : String)
  | copyInResponse (columns : Nat)
  | copyOutResponse (columns : Nat)
  | copyData (line : String)
  | copyDone
  deriving DecidableEq

/-! ## Calls -/

inductive Call where
  | readRequest
  /-- `select!` of the next request and the next event -/
  | readRequestOrEvent
  | writeResponse (response : Response)
  | readExact (count : Nat)
  | send (message : BackendMessage)
  | flush
  | execute (sql : String) (ctx : ExecutionContext)
  | tableSchema (name : String)
  | rollbackOnDisconnect
  | verifyPassword (password hash : String)
  | verifyJwt (token : String)

namespace Call

def Res : Call → Type
  | .readRequest => Option Request
  | .readRequestOrEvent => Incoming
  | .readExact _ => Bytes
  | .execute .. => Except QueryError ExecResult
  | .tableSchema _ => Option TableSchema
  | .verifyPassword .. => Bool
  | .verifyJwt _ => Option SessionClaims
  | .writeResponse _ | .send _ | .flush | .rollbackOnDisconnect => Unit

end Call

def calls : Interface where
  Op := Call
  Res := Call.Res
  Err := IoErrorKind

abbrev Talk (α : Type) : Type := Prog calls IoErrorKind α

/-- Make a call; an error of the socket ends the session. -/
abbrev call (op : Call) : Talk op.Res := @Prog.request calls IoErrorKind id op

/-- Make a call and look at its error. -/
abbrev tryCall (op : Call) : Talk (Except IoErrorKind op.Res) :=
  (@Prog.request calls IoErrorKind id op).attempt

/-! ## Values as SQL -/

/-- `format!("'{}'", s.replace('\'', "''"))` -/
def quoted (s : String) : String :=
  "'" ++ String.ofList (s.toList.flatMap fun c => if c = '\'' then ['\'', '\''] else [c]) ++ "'"

end ChocoBase.Server
