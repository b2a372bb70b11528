import ChocoBase.Foundation.OrdMap
import ChocoBase.Server.PostgresWire
import ChocoBase.Server.RestSql
import Mathlib.Data.String.Basic

/-!
# GraphQL queries

A query names a table, arguments in parentheses and fields in braces; it becomes one
`SELECT`.  The positions of the brackets are byte offsets into the text.
-/

namespace ChocoBase.Server.GraphQl

open ChocoBase.Foundation ChocoBase.Engine ChocoBase.Sql ChocoBase.Types ChocoBase.Auth
open Text (Chars)

/-! ## Texts -/

/-- `find` of a character -/
def find (c : Char) (s : Chars) : Option Nat :=
  if c ∈ s then some (utf8Length (s.takeWhile (· ≠ c))) else none

/-- `rfind` of a character -/
def rfind (c : Char) (s : Chars) : Option Nat :=
  if c ∈ s then
    some (utf8Length s - utf8Length (s.reverse.takeWhile (· ≠ c)) - c.utf8Size)
  else none

/-- `&s[start..stop]` -/
def slice (start stop : Nat) (s : Chars) : Outcome String Chars := .unwrap (Text.byteSlice start stop s)

section Parse

variable (host : Host)

def trimmed (s : Chars) : Chars := Text.trim host.text.isWhitespace s

structure Selection where
  table : Chars
  /-- of two arguments of a name, the later one stands first -/
  args : List (Chars × Chars)
  fields : List Chars

def parseGraphqlArgs (args : Chars) : List (Chars × Chars) :=
  (Text.splitOn ',' args).foldl (fun map part =>
    match Rest.splitOnce ':' part with
    | some (k, v) => (trimmed host k, trimmed host v) :: map
    | none => map) []

/-- The text from its first brace on, behind the word `query`. -/
def cleanQuery (query : Chars) : Outcome String Chars :=
  let cleaned := trimmed host query
  match Rest.stripPrefix "query".toList cleaned with
  | none => .ok cleaned
  | some rest =>
      let cleaned := trimmed host rest
      match find '{' cleaned with
      | some pos => slice pos (utf8Length cleaned) cleaned
      | none => .ok cleaned

def parseHeader (header : Chars) : Outcome String (Chars × List (Chars × Chars)) :=
  match find '(' header with
  | none => .ok (header, [])
  | some openParen =>
      match find ')' header with
      | none => .error "unclosed argument list ')'"
      | some closeParen => do
          let tbl ← slice 0 openParen header
          let argStr ← slice (openParen + 1) closeParen header
          return (trimmed host tbl, parseGraphqlArgs host argStr)

def splitFields (fieldsStr : Chars) : List Chars :=
  ((fieldsStr.splitOnP fun c => host.text.isWhitespace c || c = ',').map (trimmed host)).filter
    (· ≠ [])

def parseSelection (inside : Chars) : Outcome String Selection :=
  match find '{' inside with
  | none => .error "expected field selection block '\x7b ... \x7d'"
  | some openBrace =>
      match rfind '}' inside with
      | none => .error "unclosed field selection block '\x7d'"
      | some closeBrace => do
          let header ← slice 0 openBrace inside
          let fieldsStr ← slice (openBrace + 1) closeBrace inside
          let (table, args) ← parseHeader host (trimmed host header)
          let fields := splitFields host (trimmed host fieldsStr)
          if fields = [] then .error "must select at least one field"
          else return ⟨table, args, fields⟩

def parseQuery (query : Chars) : Outcome String Selection := do
  let cleaned ← cleanQuery host query
  if cleaned.head? ≠ some '{' ∨ cleaned.getLast? ≠ some '}' then
    .error "invalid GraphQL syntax: expected '\x7b ... \x7d'"
  else do
    let inside ← slice 1 (utf8Length cleaned - 1) cleaned
    parseSelection host (trimmed host inside)

end Parse

def Selection.sql (sel : Selection) : String :=
  String.ofList ("SELECT ".toList ++ Text.join ", ".toList sel.fields ++ " FROM ".toList ++
    sel.table ++ match sel.args.lookup "limit".toList with
      | some limit => " LIMIT ".toList ++ limit
      | none => [])

/-! ## Results -/

section Execute

variable (host : Host) (ofFloat : Float → Json) (ofFloat32 : Float32 → Json)

/-- A value as JSON; the numbers of a float are those of the JSON library. -/
def valueJson : Value → Json
  | .integer n => .number ⟨some n, toString n.toInt⟩
  | .float x => ofFloat x
  | .text s => .string s
  | .boolean b => .bool b
  | .json s => (host.lib.parseJson s).toOption.getD (.string s)
  | .vector xs => .array (xs.map ofFloat32)
  | .null => .null

/-- The columns of a row; of two columns of a name the later one counts. -/
def rowMembers (row : Row) : Nat → List String → OrdMap String Json → Outcome String (OrdMap String Json)
  | _, [], members => .ok members
  | idx, col :: rest, members => do
      let v ← .unwrap row[idx]?
      rowMembers row (idx + 1) rest (members.insert col (valueJson host ofFloat ofFloat32 v))

def rowJson (columns : List String) (row : Row) : Outcome String Json := do
  let members ← rowMembers host ofFloat ofFloat32 row 0 columns .empty
  return .object members.entries

def rowsJson (columns : List String) : List Row → Outcome String (List Json)
  | [] => .ok []
  | row :: rest => do
      let json ← rowJson host ofFloat ofFloat32 columns row
      let rest ← rowsJson columns rest
      return json :: rest

def dataJson (table : Chars) : Except QueryError ExecResult → Outcome String Json
  | .ok (.rows columns rows) => do
      let rows ← rowsJson host ofFloat ofFloat32 columns rows
      return .object [(String.ofList table, .array rows)]
  | .ok _ => .ok (.object [(String.ofList table, .array [])])
  | .error e => .error (Session.errorText host e)

/-- A result or the text of an error. -/
def answer {α : Type} : Outcome String α → Talk (Except String α)
  | .ok value => return .ok value
  | .error message => return .error message
  | .stop why => .halt why

def executeGraphql (query : String) (ctx : ExecutionContext) : Talk (Except String Json) := do
  let query := trimmed host query.toList
  if query = [] then return .error "query cannot be empty"
  else match ← answer (parseQuery host query) with
    | .error message => return .error message
    | .ok sel => do
        let result ← call (.execute sel.sql ctx)
        answer (dataJson host ofFloat ofFloat32 sel.table result)

end Execute

end ChocoBase.Server.GraphQl
