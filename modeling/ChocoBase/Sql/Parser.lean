import ChocoBase.Foundation.Grammar
import ChocoBase.Sql.Ast
import ChocoBase.Sql.Lexer

/-!
# The parser

Recursive descent, with one token of lookahead.  The parser keeps the token it
looks at and those that follow; it never moves past the last one.
-/

namespace ChocoBase.Sql

open ChocoBase.Foundation ChocoBase.Types

structure Parser where
  current : SpannedToken
  following : List SpannedToken

abbrev Parse (α : Type) : Type := Exec Parser ParseError α

namespace Parser

/-- Looking at the first of no tokens panics. -/
def new : List SpannedToken → Option Parser
  | [] => none
  | token :: rest => some ⟨token, rest⟩

/-- The tokens from the current one on. -/
def left (p : Parser) : List Token := p.current.token :: p.following.map SpannedToken.token

def peek : Parse Token := fun p => (.ok p.current.token, p)

def peekOffset : Parse Nat := fun p => (.ok p.current.offset, p)

def advance : Parse Token := fun p =>
  (.ok p.current.token,
    match p.following with
    | [] => p
    | next :: rest => ⟨next, rest⟩)

/-- An error at the current token. -/
def fail {α : Type} (message : Token → String) : Parse α := fun p =>
  (.error ⟨p.current.offset, message p.current.token⟩, p)

/-! ## Steps -/

section Steps

variable {α β : Type}

def only (t : Token) : Token → Option Unit := fun t' => if t' = t then some () else none

def nextIs (f : Token → Option α) : Parse Bool := fun p => (.ok (Form.can f p.current.token), p)

/-- Advance over a token that the pattern matches. -/
def eat (f : Token → Option α) : Parse (Option α) := fun p =>
  match f p.current.token with
  | some a => (.ok (some a), (advance p).2)
  | none => (.ok none, p)

/-- Advance over a token and go on, or go on without. -/
def alt (f : Token → Option α) (q : α → Parse β) (p : Parse β) : Parse β := do
  match ← eat f with
  | some a => q a
  | none => p

def skip (f : Token → Option α) : Parse Unit := alt f (fun _ => return ()) (return ())

def whenNext (f : Token → Option α) (p q : Parse β) : Parse β := do
  if ← nextIs f then p else q

/-- Take one token, or fail at it. -/
def take (f : Token → Option α) (message : Token → String) : Parse α :=
  alt f (fun a => return a) (fail message)

/-- `while matches!(self.peek(), ..)`, where every round starts with `advance`. -/
def whileEat (f : Token → Option α) (body : α → Parse β) : Parse (List β) := fun p =>
  whileSome (eat f) body (p.following.length + 1) p

def commaList (item : Parse α) : Parse (List α) := do
  let first ← item
  let rest ← whileEat (only .comma) fun _ => item
  return first :: rest

def endList (message : String) (dbg : Token → String) : Parse Unit :=
  whenNext (only .rParen)
    (take (only .rParen) fun found => "expected " ++ dbg .rParen ++ ", found " ++ dbg found)
    (fail fun _ => message)

end Steps

variable (dbg : Token → String)

def expect (expected : Token) : Parse Unit :=
  take (only expected) fun found => "expected " ++ dbg expected ++ ", found " ++ dbg found

/-! ## Names and types -/

/-- The keywords that may be names. -/
def nameOf : Token → Option String
  | .identifier s => some s
  | .role => some "role"
  | .user => some "user"
  | .password => some "password"
  | .policy => some "policy"
  | .enable => some "enable"
  | .disable => some "disable"
  | .count => some "count"
  | .sum => some "sum"
  | .avg => some "avg"
  | .min => some "min"
  | .max => some "max"
  | .kwInteger => some "integer"
  | .kwText => some "text"
  | .kwBoolean => some "boolean"
  | .kwJson => some "json"
  | _ => none

def expectIdentifier : Parse String :=
  take nameOf fun other => "expected identifier, found " ++ dbg other

/-- A name, or two with a dot between. -/
def parseTableName : Parse String := do
  let name ← expectIdentifier dbg
  alt (only .dot)
    (fun _ => do
      let sub ← expectIdentifier dbg
      return name ++ "." ++ sub)
    (return name)

def stringOf : Token → Option String
  | .stringLiteral s => some s
  | _ => none

def intOf : Token → Option Int64
  | .intLiteral n => some n
  | _ => none

def scalarType : Token → Option ColumnType
  | .kwInteger => some .integer
  | .kwFloat => some .float
  | .kwText => some .text
  | .kwBoolean => some .boolean
  | .kwJson => some .json
  | _ => none

/-- What stands in the parentheses is skipped if it is not a number. -/
def parseDimension : Parse Nat :=
  alt (only .lParen)
    (fun _ => do
      let token ← advance
      expect dbg .rParen
      return match intOf token with
        | some n => n.toUInt64.toNat
        | none => 1536)
    (return 1536)

/-- `expected` is what the error names. -/
def parseColumnType (expected : String) : Parse ColumnType :=
  alt scalarType (fun ty => return ty)
    (alt (only .kwVector)
      (fun _ => do
        let dim ← parseDimension dbg
        return .vector dim)
      (fail fun other => "expected " ++ expected ++ ", found " ++ dbg other))

inductive ColumnConstraint where
  | notNull
  | primaryKey
  deriving DecidableEq

def constraintOf : Token → Option ColumnConstraint
  | .not => some .notNull
  | .primary => some .primaryKey
  | _ => none

def parseColumnDef (expectedType : String) : Parse ColumnDef := do
  let name ← expectIdentifier dbg
  let ty ← parseColumnType dbg expectedType
  let constraints ← whileEat constraintOf fun
    | .notNull => do
        expect dbg .null
        return ColumnConstraint.notNull
    | .primaryKey => do
        expect dbg .key
        return ColumnConstraint.primaryKey
  return {
    name
    ty
    notNull := decide (ColumnConstraint.notNull ∈ constraints)
    primaryKey := decide (ColumnConstraint.primaryKey ∈ constraints) }

/-! ## Expressions -/

def literalOf : Token → Option Expr
  | .intLiteral n => some (.intLiteral n)
  | .floatLiteral x => some (.floatLiteral x)
  | .stringLiteral s => some (.stringLiteral s)
  | .true => some (.boolLiteral true)
  | .false => some (.boolLiteral false)
  | .null => some .null
  | .role => some (.column "role")
  | .user => some (.column "user")
  | .password => some (.column "password")
  | _ => none

def metricOf : Token → Option VectorMetric
  | .cosineDistance => some .cosine
  | .l2Distance => some .l2
  | .innerProduct => some .innerProduct
  | _ => none

def searchOf : Token → Option (Expr → String → Expr)
  | .ftsMatch => some .ftsMatch
  | .ftsRank => some .ftsRank
  | .ftsSnippet => some .ftsSnippet
  | _ => none

def aggregateOf : Token → Option (Expr → AggregateFunc)
  | .sum => some .sum
  | .avg => some .avg
  | .min => some .min
  | .max => some .max
  | _ => none

/-- `eq_ignore_ascii_case` -/
def eqIgnoreAsciiCase (s s' : String) : Bool := s.toLower = s'.toLower

def identifierOf : Token → Option String
  | .identifier s => some s
  | _ => none

/-- An identifier that is this word, in any case. -/
def wordOf (word : String) (t : Token) : Option String :=
  (identifierOf t).filter fun s => eqIgnoreAsciiCase s word

def arrowOf : Token → Option Bool
  | .arrowText => some true
  | .arrow => some false
  | _ => none

def pathOf : Token → Option String
  | .stringLiteral s => some s
  | .identifier s => some ("$." ++ s)
  | _ => none

def comparisonOf : Token → Option BinOp
  | .eq => some .eq
  | .notEq => some .notEq
  | .lt => some .lt
  | .ltEq => some .ltEq
  | .gt => some .gt
  | .gtEq => some .gtEq
  | _ => none

def emptyCall : Parse Unit :=
  alt (only .lParen) (fun _ => expect dbg .rParen) (return ())

section Expressions

variable (whereExpr : Parse Expr)

def parseItem : Parse SelectItem := do
  let expr ← whereExpr
  alt (only .as)
    (fun _ => do
      let asName ← expectIdentifier dbg
      return .expr expr (some asName))
    (return .expr expr none)

/-- `*`, or a list of expressions. -/
def parseColumns : Parse SelectColumns :=
  alt (only .star) (fun _ => return .all)
    (do
      let items ← commaList (parseItem dbg whereExpr)
      return .items items)

def joinOf : Token → Option Token
  | .join => some .join
  | .inner => some .inner
  | .left => some .left
  | .right => some .right
  | .cross => some .cross
  | _ => none

def parseJoinType : Token → Parse JoinType
  | .inner => do
      expect dbg .join
      return .inner
  | .left => do
      skip (only .join)
      return .left
  | .right => do
      skip (only .join)
      return .right
  | .cross => do
      expect dbg .join
      return .cross
  | _ => return .inner

/-- A table to join, and on what. -/
def parseJoin (token : Token) : Parse (JoinType × TableRef × Option Expr) := do
  let joinType ← parseJoinType dbg token
  let table ← parseTableName dbg
  let asName ← alt (only .as)
    (fun _ => do
      let asName ← expectIdentifier dbg
      return some asName)
    (return none)
  if joinType = .cross then return (joinType, .table table asName, none)
  else
    expect dbg .on
    let condition ← whereExpr
    return (joinType, .table table asName, some condition)

def optionalExpr (keyword : Token) : Parse (Option Expr) :=
  alt (only keyword)
    (fun _ => do
      let e ← whereExpr
      return some e)
    (return none)

def parseGroupBy : Parse (Option (List Expr)) :=
  alt (only .group)
    (fun _ => do
      expect dbg .«by»
      let groups ← commaList whereExpr
      return some groups)
    (return none)

def descOf : Token → Option Bool
  | .desc => some true
  | .asc => some false
  | _ => none

def nullsOf (t : Token) : Option Unit :=
  if t = .null ∨ (wordOf "nulls" t).isSome then some () else none

def firstOrLastOf (t : Token) : Option Unit :=
  if (wordOf "first" t).isSome ∨ (wordOf "last" t).isSome then some () else none

def parseOrderBy : Parse (Option (String × Bool)) :=
  alt (only .order)
    (fun _ => do
      expect dbg .«by»
      let col ← parseTableName dbg
      let desc ← alt descOf (fun desc => return desc) (return false)
      alt nullsOf (fun _ => skip firstOrLastOf) (return ())
      return some (col, desc))
    (return none)

def parseLimit : Parse (Option Int64) :=
  alt (only .limit)
    (fun _ => do
      let n ← take intOf fun other => "expected integer after LIMIT, found " ++ dbg other
      return some n)
    (return none)

def parseSelect : Parse Statement := do
  expect dbg .select
  let columns ← parseColumns dbg whereExpr
  expect dbg .«from»
  let table ← parseTableName dbg
  let joins ← whileEat joinOf (parseJoin dbg whereExpr)
  let whereClause ← optionalExpr whereExpr .«where»
  let groupBy ← parseGroupBy dbg whereExpr
  let having ← optionalExpr whereExpr .having
  let orderBy ← parseOrderBy dbg
  let limit ← parseLimit dbg
  let tableRef := joins.foldl (fun left (joinType, right, condition) =>
    TableRef.join left right joinType condition) (.table table none)
  return .select columns table (some tableRef) whereClause groupBy having orderBy limit

/-- A call with one argument. -/
def parseCall : Parse Expr := do
  expect dbg .lParen
  let e ← whereExpr
  expect dbg .rParen
  return e

/-- A call whose second argument is a string. -/
def parseCallWith (expected : String) : Parse (Expr × String) := do
  expect dbg .lParen
  let e ← whereExpr
  expect dbg .comma
  let s ← take stringOf fun other => "expected " ++ expected ++ ", found " ++ dbg other
  expect dbg .rParen
  return (e, s)

def parseExists (negated : Bool) : Parse Expr := do
  expect dbg .lParen
  let subquery ← parseSelect dbg whereExpr
  expect dbg .rParen
  return .exists subquery negated

def parseDistance (metric : VectorMetric) : Parse Expr := do
  expect dbg .lParen
  let left ← whereExpr
  expect dbg .comma
  let right ← whereExpr
  expect dbg .rParen
  return .vectorDistance metric left right

def parseCount : Parse Expr := do
  expect dbg .lParen
  alt (only .star)
    (fun _ => do
      expect dbg .rParen
      return .aggregate .countStar)
    (do
      let e ← whereExpr
      expect dbg .rParen
      return .aggregate (.count e))

def parseQualified (table : String) : Parse Expr := do
  let column ← expectIdentifier dbg
  return .qualifiedColumn table column

/-- `auth.uid()` is the user; everything else is a column. -/
def parseName : Parse Expr → Parse Expr :=
  fun other =>
    alt (wordOf "auth")
      (fun name =>
        alt (only .dot)
          (fun _ =>
            alt (wordOf "uid")
              (fun _ => do
                emptyCall dbg
                return .authUid)
              (parseQualified dbg name))
          (return .column name))
      (alt identifierOf
        (fun name =>
          alt (only .dot) (fun _ => parseQualified dbg name) (return .column name))
        other)

/-- The expression that starts with the current token. -/
def parseOperand : Parse Expr := do
  let offset ← peekOffset
  alt literalOf (fun e => return e) <|
    alt metricOf (parseDistance dbg whereExpr) <|
    alt searchOf
      (fun search => do
        let call ← parseCallWith dbg whereExpr "string query in text search"
        return search call.1 call.2) <|
    alt (only .exists) (fun _ => parseExists dbg whereExpr false) <|
    alt (only .not)
      (fun _ =>
        alt (only .exists) (fun _ => parseExists dbg whereExpr true)
          (.throw ⟨offset, "unexpected NOT in expression"⟩)) <|
    alt (only .count) (fun _ => parseCount dbg whereExpr) <|
    alt aggregateOf
      (fun aggregate => do
        let e ← parseCall dbg whereExpr
        return .aggregate (aggregate e)) <|
    alt (only .jsonExtract)
      (fun _ => do
        let call ← parseCallWith dbg whereExpr "string literal path in JSON_EXTRACT"
        return .jsonExtract call.1 call.2 true) <|
    alt (only .authUid)
      (fun _ => do
        emptyCall dbg
        return .authUid) <|
    alt (only .lParen)
      (fun _ => do
        let e ← whereExpr
        expect dbg .rParen
        return e) <|
    parseName dbg (fail fun other => "expected an expression, found " ++ dbg other)

def parsePrimaryExpr : Parse Expr := do
  let expr ← parseOperand dbg whereExpr
  let arrows ← whileEat arrowOf fun asText => do
    let path ← take pathOf fun other => "expected JSON path after arrow, found " ++ dbg other
    return (path, asText)
  return arrows.foldl (fun expr (path, asText) => .jsonExtract expr path asText) expr

/-- What follows `IN`. -/
def parseIn (left : Expr) (negated : Bool) : Parse Expr := do
  expect dbg .lParen
  whenNext (only .select)
    (do
      let subquery ← parseSelect dbg whereExpr
      expect dbg .rParen
      return .inSubquery left subquery negated)
    (do
      let list ← commaList whereExpr
      endList "expected ',' or ')' in IN list" dbg
      return .inList left list negated)

/-- What follows `LIKE`. -/
def parseLike (left : Expr) (negated : Bool) : Parse Expr := do
  let pattern ← take stringOf fun other =>
    "expected pattern string after LIKE, found " ++ dbg other
  return .like left pattern negated

def parseComparison : Parse Expr := do
  let left ← parsePrimaryExpr dbg whereExpr
  alt comparisonOf
    (fun op => do
      let right ← parsePrimaryExpr dbg whereExpr
      return .binaryOp op left right) <|
    alt (only .is)
      (fun _ => do
        let negated ← alt (only .not) (fun _ => return true) (return false)
        expect dbg .null
        return .isNull left negated) <|
    alt (only .«in») (fun _ => parseIn dbg whereExpr left false) <|
    alt (only .like) (fun _ => parseLike dbg left false) <|
    alt (only .not)
      (fun _ =>
        alt (only .«in») (fun _ => parseIn dbg whereExpr left true) <|
          alt (only .like) (fun _ => parseLike dbg left true) <|
          fail fun other => "expected IN or LIKE after NOT, found " ++ dbg other) <|
    return left

def parseAnd : Parse Expr := do
  let left ← parseComparison dbg whereExpr
  let rights ← whileEat (only .and) fun _ => parseComparison dbg whereExpr
  return rights.foldl (.binaryOp .and) left

def parseOr : Parse Expr := do
  let left ← parseAnd dbg whereExpr
  let rights ← whileEat (only .or) fun _ => parseAnd dbg whereExpr
  return rights.foldl (.binaryOp .or) left

end Expressions

/-- `fuel` bounds the nesting of expressions. -/
def parseWhereExpr : Nat → Parse Expr
  | 0 => .halt .diverges
  | fuel + 1 => parseOr dbg (parseWhereExpr fuel)

/-! ## Statements -/

def nameOrTextOf : Token → Option String
  | .stringLiteral s => some s
  | .identifier s => some s
  | _ => none

def parseCreateUser : Parse Statement := do
  expect dbg .user
  let username ← alt stringOf (fun s => return s) (expectIdentifier dbg)
  skip (only .with)
  expect dbg .password
  let password ← take stringOf fun other =>
    "expected password string literal, found " ++ dbg other
  let role ← alt (only .role)
    (fun _ => do
      let role ← take nameOrTextOf fun other =>
        "expected role string or identifier, found " ++ dbg other
      return some role)
    (return none)
  return .createUser username password role

def commandOf : Token → Option PolicyCmd
  | .select => some .select
  | .insert => some .insert
  | .update => some .update
  | .delete => some .delete
  | .all => some .all
  | _ => none

def withOrCheckOf : Token → Option Unit
  | .with => some ()
  | .check => some ()
  | _ => none

def parseCreateIndex : Parse Statement := do
  expect dbg .index
  let name ← expectIdentifier dbg
  expect dbg .on
  let table ← expectIdentifier dbg
  expect dbg .lParen
  let column ← expectIdentifier dbg
  expect dbg .rParen
  return .createIndex name table column

def parseCreateTable : Parse Statement := do
  expect dbg .table
  let name ← parseTableName dbg
  expect dbg .lParen
  let columns ← commaList (parseColumnDef dbg "type")
  endList "expected ',' or ')'" dbg
  return .createTable name columns

def parseDrop : Parse Statement := do
  expect dbg .drop
  alt (only .table)
    (fun _ => do
      let name ← parseTableName dbg
      return .dropTable name) <|
    alt (only .index)
      (fun _ => do
        let name ← expectIdentifier dbg
        return .dropIndex name) <|
    alt (only .policy)
      (fun _ => do
        let name ← expectIdentifier dbg
        expect dbg .on
        let table ← expectIdentifier dbg
        return .dropPolicy name table) <|
    fail fun other => "expected TABLE, INDEX, or POLICY after DROP, found " ++ dbg other

/-- `ROW LEVEL SECURITY` -/
def parseRls (table : String) (enabled : Bool) : Parse Statement := do
  expect dbg .row
  expect dbg .level
  expect dbg .security
  return .alterTableRls table enabled

def parseAlter : Parse Statement := do
  expect dbg .alter
  expect dbg .table
  let table ← expectIdentifier dbg
  alt (only .enable) (fun _ => parseRls dbg table true) <|
    alt (only .disable) (fun _ => parseRls dbg table false) <|
    alt (only .add)
      (fun _ => do
        skip (only .column)
        let column ← parseColumnDef dbg "column type"
        return .alterTableAddColumn table column) <|
    alt (only .drop)
      (fun _ => do
        skip (only .column)
        let column ← expectIdentifier dbg
        return .alterTableDropColumn table column) <|
    alt (only .rename)
      (fun _ => do
        expect dbg .to
        let newName ← expectIdentifier dbg
        return .alterTableRename table newName) <|
    -- the error names this token, at the offset of the next one
    (do
      let other ← advance
      fail fun _ =>
        "expected ENABLE, DISABLE, ADD, DROP, or RENAME after ALTER TABLE, found " ++ dbg other)

section Statements

variable (whereExpr : Parse Expr)

def parseParenthesized : Parse (Option Expr) := do
  expect dbg .lParen
  let e ← whereExpr
  expect dbg .rParen
  return some e

def parseCreatePolicy : Parse Statement := do
  expect dbg .policy
  let name ← expectIdentifier dbg
  expect dbg .on
  let table ← expectIdentifier dbg
  expect dbg .for
  let cmd ← take commandOf fun other =>
    "expected SELECT, INSERT, UPDATE, DELETE, or ALL after FOR, found " ++ dbg other
  let usingExpr ← alt (only .using) (fun _ => parseParenthesized dbg whereExpr) (return none)
  let withCheck ← whenNext withOrCheckOf
    (do
      skip (only .with)
      expect dbg .check
      parseParenthesized dbg whereExpr)
    (return none)
  return .createPolicy name table cmd usingExpr withCheck

def parseCreate : Parse Statement := do
  expect dbg .create
  whenNext (only .table) (parseCreateTable dbg) <|
    whenNext (only .index) (parseCreateIndex dbg) <|
    whenNext (only .user) (parseCreateUser dbg) <|
    whenNext (only .policy) (parseCreatePolicy dbg whereExpr) <|
    fail fun _ => "expected TABLE, INDEX, USER, or POLICY after CREATE"

def parseReturningClause : Parse (Option SelectColumns) :=
  alt (only .returning)
    (fun _ => do
      let columns ← parseColumns dbg whereExpr
      return some columns)
    (return none)

/-- The values of one row. -/
def parseValues : Parse (List Expr) := do
  expect dbg .lParen
  let row ← commaList (parsePrimaryExpr dbg whereExpr)
  endList "expected ',' or ')'" dbg
  return row

def parseInsert : Parse Statement := do
  expect dbg .insert
  expect dbg .into
  let table ← parseTableName dbg
  let columns ← alt (only .lParen)
    (fun _ => do
      let columns ← commaList (expectIdentifier dbg)
      endList "expected ',' or ')'" dbg
      return some columns)
    (return none)
  expect dbg .values
  let rows ← commaList (parseValues dbg whereExpr)
  let returning ← parseReturningClause dbg whereExpr
  return .insert table columns rows returning

def parseAssignment : Parse (String × Expr) := do
  let col ← expectIdentifier dbg
  expect dbg .eq
  let value ← parsePrimaryExpr dbg whereExpr
  return (col, value)

def parseUpdate : Parse Statement := do
  expect dbg .update
  let table ← parseTableName dbg
  expect dbg .set
  let assignments ← commaList (parseAssignment dbg whereExpr)
  let whereClause ← optionalExpr whereExpr .where
  let returning ← parseReturningClause dbg whereExpr
  return .update table assignments whereClause returning

def parseDelete : Parse Statement := do
  expect dbg .delete
  expect dbg .from
  let table ← parseTableName dbg
  let whereClause ← optionalExpr whereExpr .where
  let returning ← parseReturningClause dbg whereExpr
  return .delete table whereClause returning

/-- `BEGIN`, `COMMIT` and `ROLLBACK`. -/
def transactionOf : Token → Option Statement
  | .begin => some .begin
  | .commit => some .commit
  | .rollback => some .rollback
  | _ => none

/-- `fuel` bounds the number of `EXPLAIN`s. -/
def parseStatement : Nat → Parse Statement
  | 0 => .halt .diverges
  | fuel + 1 => do
      let stmt ←
        alt (only .explain)
          (fun _ => do
            let inner ← parseStatement fuel
            return .explain inner) <|
        whenNext (only .create) (parseCreate dbg whereExpr) <|
        whenNext (only .drop) (parseDrop dbg) <|
        whenNext (only .alter) (parseAlter dbg) <|
        whenNext (only .insert) (parseInsert dbg whereExpr) <|
        whenNext (only .select) (parseSelect dbg whereExpr) <|
        whenNext (only .update) (parseUpdate dbg whereExpr) <|
        whenNext (only .delete) (parseDelete dbg whereExpr) <|
        alt transactionOf
          (fun stmt => do
            skip (only .transaction)
            return stmt) <|
        fail fun _ => "expected a statement"
      skip (only .semicolon)
      return stmt

end Statements

/-- The parser of a list of tokens, with fuel that they cannot exhaust. -/
def parseTokens (tokens : List SpannedToken) : Outcome ParseError (Statement × Parser) :=
  match new tokens with
  | none => .stop .panic
  | some p =>
      match parseStatement dbg (parseWhereExpr dbg tokens.length) tokens.length p with
      | (.ok stmt, p) => .ok (stmt, p)
      | (.error e, _) => .error e
      | (.stop why, _) => .stop why

end Parser

def parse (text : TextLibrary) (dbg : Token → String) (sql : String) :
    Outcome ParseError Statement := do
  let tokens ← tokenize text sql
  let (stmt, _) ← Parser.parseTokens dbg tokens
  return stmt

end ChocoBase.Sql
