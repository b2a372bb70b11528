import ChocoBase.Foundation.Text
import ChocoBase.Sql.Lexer
import ChocoBase.Sql.Library
import ChocoBase.Sql.Parser
import ChocoBase.Types.Schema

/-!
# Statements of REST requests

A request on a table becomes statements whose texts are put together from the query
string and the body.  Values are written as literals; names are written as they are.
The parameters of a query string are in a hash map, here the list of its entries in
the order in which it is visited.
-/

namespace ChocoBase.Server.Rest

open ChocoBase.Foundation ChocoBase.Sql ChocoBase.Types
open Text (Chars)

/-! ## Texts -/

/-- `split_once` at a character -/
def splitOnce (sep : Char) (s : Chars) : Option (Chars × Chars) :=
  (Text.before [sep] s).map fun first => (first, s.drop (first.length + 1))

/-- `strip_prefix` -/
def stripPrefix (start s : Chars) : Option Chars :=
  if start.isPrefixOf s then some (s.drop start.length) else none

def trimStartMatches (c : Char) (s : Chars) : Chars := Text.trimStart (· = c) s

def trimEndMatches (c : Char) (s : Chars) : Chars := Text.trimEnd (· = c) s

def trimMatches (c : Char) (s : Chars) : Chars := Text.trim (· = c) s

def equalsIgnoringCase (s : Chars) (word : String) : Bool :=
  Parser.eqIgnoreAsciiCase (String.ofList s) word

/-- `s.replace('\'', "''")` -/
def escapeQuotes (s : Chars) : Chars := s.flatMap fun c => if c = '\'' then ['\'', '\''] else [c]

def inQuotes (s : Chars) : Chars := '\'' :: (s ++ ['\''])

abbrev Params := List (Chars × Chars)

/-- `parse_query_params`, the later entry for a key; the map has no order of its own. -/
def parseQueryParams (query : Chars) : Params :=
  (Text.splitOn '&' query).foldl (fun params pair =>
    match splitOnce '=' pair with
    | some (k, v) => (k, v) :: params.filter (·.1 ≠ k)
    | none => params) []

/-! ## Names and values -/

/-- The text up to the next arrow, and what follows. -/
def upToArrow (s : Chars) : Chars × Chars :=
  match Text.before "->".toList s with
  | some first => (first, s.drop first.length)
  | none => (s, [])

/-- The segment after an arrow, without quotes around it. -/
def pathSegment (after : Chars) : Chars := trimMatches '"' (trimMatches '\'' (upToArrow after).1)

/-- The loop of `format_filter_key`; each turn takes an arrow off. -/
def formatPath : Nat → Chars → Chars
  | 0, remainder => remainder
  | _, [] => []
  | fuel + 1, c :: cs =>
      match stripPrefix "->>".toList (c :: cs) with
      | some after =>
          "->>".toList ++ inQuotes (pathSegment after) ++ formatPath fuel (upToArrow after).2
      | none =>
          match stripPrefix "->".toList (c :: cs) with
          | some after =>
              "->".toList ++ inQuotes (pathSegment after) ++ formatPath fuel (upToArrow after).2
          | none => c :: cs

def formatFilterKey (key : Chars) : Chars :=
  let (first, rest) := upToArrow key
  first ++ formatPath rest.length rest

section Texts

variable (text : TextLibrary)

def trimmed (s : Chars) : Chars := Text.trim text.isWhitespace s

def formatSqlVal (s : Chars) : Chars :=
  match parseI64 s with
  | some i => (toString i.toInt).toList
  | none =>
      if equalsIgnoringCase s "true" || equalsIgnoringCase s "false" then
        (text.toUppercase (String.ofList s)).toList
      else inQuotes (escapeQuotes s)

/-! ## Filters -/

def like (key pattern : Chars) (negated : Bool) : Chars :=
  key ++ (if negated then " NOT LIKE " else " LIKE ").toList ++ inQuotes pattern

def containing (s : Chars) : Chars := "%".toList ++ escapeQuotes s ++ "%".toList

/-- The elements of `{a,b}` or `[a,b]`. -/
def listItems (rhs : Chars) : List Chars :=
  let cleaned := trimEndMatches '}' (trimStartMatches '{' rhs)
  let cleaned := trimEndMatches ']' (trimStartMatches '[' cleaned)
  ((Text.splitOn ',' cleaned).map (trimmed text)).filter (· ≠ [])

def itemClauses (key : Chars) (items : List Chars) (negated : Bool) : List Chars :=
  items.map fun item => like key (containing (trimMatches '\'' (trimMatches '"' item))) negated

def inParens (s : Chars) : Chars := "(".toList ++ s ++ ")".toList

/-- The search term, without a configuration in front. -/
def searchTerm (rhs : Chars) : Chars :=
  match splitOnce ')' rhs with
  | some (_, term) => escapeQuotes (trimStartMatches '.' term)
  | none => escapeQuotes rhs

/-- What follows the key of an `is` filter. -/
def isWords (rhs : Chars) (negated : Bool) : String :=
  if equalsIgnoringCase rhs "null" then if negated then " IS NOT NULL" else " IS NULL"
  else if equalsIgnoringCase rhs "not_null" || equalsIgnoringCase rhs "not.null" then
    if negated then " IS NULL" else " IS NOT NULL"
  else if equalsIgnoringCase rhs "true" then if negated then " = FALSE" else " = TRUE"
  else if equalsIgnoringCase rhs "false" then if negated then " = TRUE" else " = FALSE"
  else " IS NULL"

inductive Comparison where
  | eq
  | ne
  | gt
  | ge
  | lt
  | le

def Comparison.symbol : Comparison → String
  | .eq => " = "
  | .ne => " != "
  | .gt => " > "
  | .ge => " >= "
  | .lt => " < "
  | .le => " <= "

def Comparison.negate : Comparison → Comparison
  | .eq => .ne
  | .ne => .eq
  | .gt => .le
  | .ge => .lt
  | .lt => .ge
  | .le => .gt

inductive Operator where
  | compare (c : Comparison)
  | like
  | search
  | is
  | contains
  | contained
  | overlaps
  | oneOf
  | unknown

def operatorOf : String → Operator
  | "eq" => .compare .eq
  | "neq" => .compare .ne
  | "gt" => .compare .gt
  | "gte" => .compare .ge
  | "lt" => .compare .lt
  | "lte" => .compare .le
  | "like" | "ilike" => .like
  | "fts" | "wfts" | "plfts" | "phfts" | "match" => .search
  | "is" => .is
  | "cs" => .contains
  | "cd" => .contained
  | "ov" => .overlaps
  | "in" => .oneOf
  | _ => .unknown

def compare (key : Chars) (c : Comparison) (rhs : Chars) : Chars :=
  key ++ c.symbol.toList ++ formatSqlVal text rhs

/-- The filter `op.rhs` on a key that is formatted already; `whole` is the text of both. -/
def operatorClause (key : Chars) (op : Operator) (rhs whole : Chars) (negated : Bool) : Chars :=
  match op with
  | .compare c => compare text key (if negated then c.negate else c) rhs
  | .like => like key (escapeQuotes rhs) negated
  | .search =>
      (if negated then "NOT FTS_MATCH(" else "FTS_MATCH(").toList ++ key ++ ", ".toList ++
        inQuotes (searchTerm rhs) ++ ")".toList
  | .is => key ++ (isWords rhs negated).toList
  | .contains =>
      match listItems text rhs with
      | [] => like key (containing rhs) negated
      | items => inParens (Text.join (if negated then " OR " else " AND ").toList
          (itemClauses key items negated))
  | .contained => like key (containing rhs) negated
  | .overlaps =>
      match listItems text rhs with
      | [] => like key (containing rhs) negated
      | items => (if negated then "NOT " else "").toList ++
          inParens (Text.join " OR ".toList (itemClauses key items false))
  | .oneOf =>
      let cleaned := trimEndMatches ')' (trimStartMatches '(' rhs)
      let elements := (Text.splitOn ',' cleaned).map fun item =>
        formatSqlVal text (trimmed text item)
      key ++ (if negated then " NOT IN (" else " IN (").toList ++ Text.join ", ".toList elements ++
        ")".toList
  | .unknown => compare text key .eq whole

def parseSingleFilter (key val : Chars) : Chars :=
  let key := formatFilterKey key
  let (negated, rest) := match stripPrefix "not.".toList val with
    | some stripped => (true, stripped)
    | none => (false, val)
  match splitOnce '.' rest with
  | some (op, rhs) => operatorClause text key (operatorOf (String.ofList op)) rhs rest negated
  | none => compare text key .eq rest

/-- The filters of `or=(..)`; a part without a dot is left out. -/
def orParts (val : Chars) : List (Chars × Chars) :=
  (Text.splitOn ',' (trimEndMatches ')' (trimStartMatches '(' val))).filterMap (splitOnce '.')

def notFilters : List String := ["order", "limit", "offset", "select", "apikey"]

def whereClause (param : Chars × Chars) : Option Chars :=
  let (key, val) := param
  if notFilters.any fun k => k.toList = key then none
  else if key = "or".toList then
    match orParts val with
    | [] => none
    | parts => some (inParens (Text.join " OR ".toList
        (parts.map fun (k, v) => parseSingleFilter text k v)))
  else some (parseSingleFilter text key val)

def buildWhereClauses (params : Params) : List Chars := params.filterMap (whereClause text)

/-- `WHERE` and the clauses, if there are any. -/
def whereText (params : Params) : Chars :=
  match buildWhereClauses text params with
  | [] => []
  | clauses => " WHERE ".toList ++ Text.join " AND ".toList clauses

/-! ## Columns and order -/

structure EmbeddedRelation where
  relAlias : Chars
  targetTable : Chars
  columns : Chars

def formatSelectCol (colExpr : Chars) : Chars :=
  match splitOnce ':' colExpr with
  | some (name, col) => formatFilterKey (trimmed text col) ++ " AS ".toList ++ trimmed text name
  | none => formatFilterKey (trimmed text colExpr)

/-- The loop over the characters: the texts between commas; `depth` counts open parentheses. -/
def selectPieces : Chars → Chars → Int → List Chars
  | [], current, _ => [current]
  | '(' :: rest, current, depth => selectPieces rest (current ++ ['(']) (depth + 1)
  | ')' :: rest, current, depth => selectPieces rest (current ++ [')']) (depth - 1)
  | c :: rest, current, depth =>
      if c = ',' ∧ depth = 0 then current :: selectPieces rest [] depth
      else selectPieces rest (current ++ [c]) depth

/-- A piece is blank, a relation with columns in parentheses, or a column. -/
def selectedColumn (piece : Chars) : Option Chars :=
  let piece := trimmed text piece
  if piece = [] ∨ (splitOnce '(' piece).isSome then none else some piece

def embeddedRelation (piece : Chars) : Option EmbeddedRelation :=
  (splitOnce '(' (trimmed text piece)).map fun (rel, inside) =>
    let cols := trimmed text (trimEndMatches ')' inside)
    let (name, target) := match splitOnce ':' rel with
      | some (a, t) => (trimmed text a, trimmed text t)
      | none => (trimmed text rel, trimmed text rel)
    ⟨name, target, if cols = [] ∨ cols = ['*'] then ['*'] else cols⟩

def selectedColumns (select : Chars) : List Chars :=
  (selectPieces select [] 0).filterMap (selectedColumn text)

def parseSelectEmbedding (select : Chars) : List Chars × List EmbeddedRelation :=
  let topCols := (selectedColumns text select).map (formatSelectCol text)
  let embedded := (selectPieces select [] 0).filterMap (embeddedRelation text)
  (if topCols = [] ∧ embedded.isEmpty then [['*']] else topCols, embedded)

/-- The columns of a selection; all of them when only relations are selected. -/
def selectText (select : Chars) : Chars :=
  match (parseSelectEmbedding text select).1 with
  | [] => ['*']
  | cols => Text.join ", ".toList cols

/-- The direction and the place of nulls after a token. -/
def orderWord (words : String × String) (token : Chars) : String × String :=
  if equalsIgnoringCase token "desc" then ("DESC", words.2)
  else if equalsIgnoringCase token "asc" then ("ASC", words.2)
  else if equalsIgnoringCase token "nullsfirst" then (words.1, " NULLS FIRST")
  else if equalsIgnoringCase token "nullslast" then (words.1, " NULLS LAST")
  else words

def orderWords (tokens : List Chars) : String × String := tokens.foldl orderWord ("ASC", "")

/-- The column and the words of each part that is not blank. -/
def orderParts (order : Chars) : List (Chars × List Chars) :=
  (Text.splitOn ',' order).filterMap fun part =>
    if trimmed text part = [] then none
    else match Text.splitOn '.' (trimmed text part) with
      | [] => none
      | col :: tokens => some (col, tokens)

def orderClause (col : Chars) (tokens : List Chars) : Chars :=
  formatFilterKey col ++ (" " ++ (orderWords tokens).1 ++ (orderWords tokens).2).toList

def parsePostgrestOrder (order : Chars) : Chars :=
  match orderParts text order with
  | [] => []
  | parts => " ORDER BY ".toList ++
      Text.join ", ".toList (parts.map fun (col, tokens) => orderClause col tokens)

end Texts

/-! ## Statements -/

section Statements

variable (text : TextLibrary) (lib : Library)

def param (params : Params) (key : String) : Option Chars := params.lookup key.toList

/-- The statement of `GET` and `HEAD`. -/
def getSql (table : Chars) (params : Params) : Chars :=
  "SELECT ".toList ++ selectText text ((param params "select").getD ['*']) ++ " FROM ".toList ++
    table ++ whereText text params ++
    match param params "order" with
    | some order => parsePostgrestOrder text order
    | none => []

def jsonToSqlLiteral : Json → Chars
  | .null => "NULL".toList
  | .bool b => (if b then "TRUE" else "FALSE").toList
  | .number n => n.text.toList
  | .string s => inQuotes (escapeQuotes s.toList)
  | .array items => inQuotes (escapeQuotes ((lib.jsonText (.array items)).getD "").toList)
  | .object members => inQuotes (escapeQuotes ((lib.jsonText (.object members)).getD "").toList)

abbrev Members := List (String × Json)

/-- The columns of the table that the object has; without any, the first one is set to null. -/
def insertColumns (schema : TableSchema) (obj : Members) : List (String × Json) :=
  let present := schema.columns.filterMap fun col =>
    (obj.lookup col.name).map fun val => (col.name, val)
  match present, schema.columns with
  | [], col :: _ => [(col.name, .null)]
  | present, _ => present

/-- The statement of `POST` and `PUT` for one object; none for a table without columns. -/
def insertSql (table : Chars) (schema : TableSchema) (obj : Members) : Option Chars :=
  match insertColumns schema obj with
  | [] => none
  | columns => some ("INSERT INTO ".toList ++ table ++ " (".toList ++
      Text.join ", ".toList (columns.map fun c => c.1.toList) ++ ") VALUES (".toList ++
      Text.join ", ".toList (columns.map fun c => jsonToSqlLiteral lib c.2) ++
      ") RETURNING *".toList)

def assignment (name : Chars) (val : Json) : Chars :=
  name ++ " = ".toList ++ jsonToSqlLiteral lib val

/-- The columns of the table that an upsert sets. -/
def upsertMembers (schema : TableSchema) (col : Chars) (obj : Members) : Members :=
  obj.filter fun (k, _) => k.toList ≠ col ∧ schema.columns.any fun c => c.name = k

/-- The statement that an upsert tries when the insertion has failed. -/
def upsertSql (table : Chars) (schema : TableSchema) (params : Params) (obj : Members) :
    Option Chars := do
  let pk := schema.columns.find? (·.isPrimaryKey)
  let col ← (param params "on_conflict").or (pk.map fun c => c.name.toList)
  let colVal ← obj.lookup (String.ofList col)
  match upsertMembers schema col obj with
  | [] => none
  | members => some ("UPDATE ".toList ++ table ++ " SET ".toList ++
      Text.join ", ".toList (members.map fun (k, v) => assignment lib k.toList v) ++
      " WHERE ".toList ++ assignment lib col colVal ++ " RETURNING *".toList)

/-- The statement of `PATCH`; none for an empty object. -/
def patchSql (table : Chars) (params : Params) (obj : Members) : Option Chars :=
  match obj with
  | [] => none
  | obj => some ("UPDATE ".toList ++ table ++ " SET ".toList ++
      Text.join ", ".toList (obj.map fun (k, v) => assignment lib k.toList v) ++
      whereText text params ++ " RETURNING *".toList)

def deleteSql (table : Chars) (params : Params) : Chars :=
  "DELETE FROM ".toList ++ table ++ whereText text params ++ " RETURNING *".toList

inductive Method where
  | get
  | post
  | patch
  | delete

/-- The objects of a body: those of an array, or the object itself. -/
def bodyObjects : Json → List Members
  | .array items => items.filterMap fun
      | .object members => some members
      | _ => none
  | .object members => [members]
  | _ => []

/--
The statements that a request may have executed; an insertion that fails may be
followed by an upsert.
-/
def requestSql (method : Method) (table : Chars) (schema : TableSchema) (params : Params)
    (body : Json) : List Chars :=
  match method with
  | .get => [getSql text table params]
  | .post => (bodyObjects body).flatMap fun obj =>
      (insertSql lib table schema obj).toList ++ (upsertSql lib table schema params obj).toList
  | .patch =>
      match body with
      | .object members => (patchSql text lib table params members).toList
      | _ => []
  | .delete => [deleteSql text table params]

end Statements

end ChocoBase.Server.Rest
