import ChocoBase.Sql.Parser

/-!
# The grammar of statements

What the parser accepts, as a grammar of its own.  A choice is made by the next
token; a clause that may be missing is read whenever its first token is there.
-/

namespace ChocoBase.Sql

open ChocoBase.Foundation

inductive Rule where
  | expr
  | statement

namespace Grammar

open Form ChocoBase.Sql.Parser

abbrev SqlForm : Type := Form Token Rule

section Clauses

variable {α : Type}

def word (t : Token) : SqlForm := one (only t)

/-- The form after a token that may be missing. -/
def optional (f : Token → Option α) (a : SqlForm) : SqlForm := either f (fun _ => a) empty

def maybe (f : Token → Option α) : SqlForm := optional f empty

def list (item : SqlForm) : SqlForm := seq item (repeated (only .comma) fun _ => item)

/-- A choice by the next token, which the form reads itself. -/
def leading (t : Token) (a b : SqlForm) : SqlForm := look (can (only t)) a b

end Clauses

def expr : SqlForm := rule .expr

def name : SqlForm := one nameOf

def tableName : SqlForm := seq name (optional (only .dot) name)

/-! ## Expressions -/

def columns : SqlForm :=
  either (only .star) (fun _ => empty) (list (seq expr (optional (only .as) name)))

def joinType : Token → SqlForm
  | .inner | .cross => word .join
  | .left | .right => maybe (only .join)
  | _ => empty

def joinClause (token : Token) : SqlForm :=
  seqs [joinType token, tableName,
    seq (optional (only .as) name)
      (if token = .cross then empty else seq (word .on) expr)]

def orderBy : SqlForm :=
  optional (only .order) <| seqs [word .«by», tableName, maybe descOf,
    optional nullsOf (maybe firstOrLastOf)]

def select : SqlForm :=
  seqs [word .select, columns, word .«from», tableName, repeated joinOf joinClause,
    optional (only .«where») expr,
    optional (only .group) (seq (word .«by») (list expr)),
    optional (only .having) expr,
    orderBy,
    optional (only .limit) (one intOf)]

def call : SqlForm := seqs [word .lParen, expr, word .rParen]

def callWith : SqlForm := seqs [word .lParen, expr, word .comma, one stringOf, word .rParen]

def exists' : SqlForm := seqs [word .lParen, select, word .rParen]

def distance : SqlForm := seqs [word .lParen, expr, word .comma, expr, word .rParen]

def countCall : SqlForm :=
  seq (word .lParen) <|
    either (only .star) (fun _ => word .rParen) (seq expr (word .rParen))

def emptyCall : SqlForm := optional (only .lParen) (word .rParen)

def column : SqlForm :=
  either (wordOf "auth")
    (fun _ => optional (only .dot) (either (wordOf "uid") (fun _ => emptyCall) name)) <|
  either identifierOf (fun _ => optional (only .dot) name) fail

def operand : SqlForm :=
  either literalOf (fun _ => empty) <|
  either metricOf (fun _ => distance) <|
  either searchOf (fun _ => callWith) <|
  either (only .exists) (fun _ => exists') <|
  either (only .not) (fun _ => either (only .exists) (fun _ => exists') fail) <|
  either (only .count) (fun _ => countCall) <|
  either aggregateOf (fun _ => call) <|
  either (only .jsonExtract) (fun _ => callWith) <|
  either (only .authUid) (fun _ => emptyCall) <|
  either (only .lParen) (fun _ => seq expr (word .rParen)) <|
  column

def primary : SqlForm := seq operand (repeated arrowOf fun _ => one pathOf)

def inClause : SqlForm :=
  seq (word .lParen) <|
    leading .select (seq select (word .rParen)) (seq (list expr) (word .rParen))

def comparison : SqlForm :=
  seq primary <|
    either comparisonOf (fun _ => primary) <|
    either (only .is) (fun _ => seq (maybe (only .not)) (word .null)) <|
    either (only .«in») (fun _ => inClause) <|
    either (only .like) (fun _ => one stringOf) <|
    either (only .not) (fun _ =>
      either (only .«in») (fun _ => inClause) <|
      either (only .like) (fun _ => one stringOf) fail) <|
    empty

def conjunction : SqlForm := seq comparison (repeated (only .and) fun _ => comparison)

def disjunction : SqlForm := seq conjunction (repeated (only .or) fun _ => conjunction)

/-! ## Statements -/

def dimension : SqlForm :=
  optional (only .lParen) (seq (tok fun t => t ≠ .eof) (word .rParen))

def columnType : SqlForm :=
  either scalarType (fun _ => empty) (either (only .kwVector) (fun _ => dimension) fail)

def constraintRest : ColumnConstraint → SqlForm
  | .notNull => word .null
  | .primaryKey => word .key

def columnDef : SqlForm := seqs [name, columnType, repeated constraintOf constraintRest]

def parenthesized : SqlForm := seqs [word .lParen, expr, word .rParen]

def createTable : SqlForm :=
  seqs [word .table, tableName, word .lParen, list columnDef, word .rParen]

def createIndex : SqlForm :=
  seqs [word .index, name, word .on, name, word .lParen, name, word .rParen]

def createUser : SqlForm :=
  seqs [word .user, either stringOf (fun _ => empty) name, maybe (only .«with»), word .password,
    one stringOf, optional (only .role) (one nameOrTextOf)]

def createPolicy : SqlForm :=
  seqs [word .policy, name, word .on, name, word .«for», one commandOf,
    optional (only .using) parenthesized,
    look (can withOrCheckOf) (seqs [maybe (only .«with»), word .check, parenthesized]) empty]

def create : SqlForm :=
  seq (word .create) <|
    leading .table createTable <|
    leading .index createIndex <|
    leading .user createUser <|
    leading .policy createPolicy fail

def drop : SqlForm :=
  seq (word .drop) <|
    either (only .table) (fun _ => tableName) <|
    either (only .index) (fun _ => name) <|
    either (only .policy) (fun _ => seqs [name, word .on, name]) fail

def rls : SqlForm := seqs [word .row, word .level, word .security]

def alter : SqlForm :=
  seqs [word .alter, word .table, name,
    either (only .enable) (fun _ => rls) <|
    either (only .disable) (fun _ => rls) <|
    either (only .add) (fun _ => seq (maybe (only .column)) columnDef) <|
    either (only .drop) (fun _ => seq (maybe (only .column)) name) <|
    either (only .rename) (fun _ => seq (word .to) name) fail]

def returning : SqlForm := optional (only .returning) columns

def insert : SqlForm :=
  seqs [word .insert, word .into, tableName,
    optional (only .lParen) (seq (list name) (word .rParen)),
    word .values, list (seqs [word .lParen, list primary, word .rParen]), returning]

def update : SqlForm :=
  seqs [word .update, tableName, word .set, list (seqs [name, word .eq, primary]),
    optional (only .«where») expr, returning]

def delete : SqlForm :=
  seqs [word .delete, word .«from», tableName, optional (only .«where») expr, returning]

/-- A statement, and a semicolon that may be missing. -/
def statement : SqlForm :=
  seq
    (either (only .explain) (fun _ => rule .statement) <|
      leading .create create <|
      leading .drop drop <|
      leading .alter alter <|
      leading .insert insert <|
      leading .select select <|
      leading .update update <|
      leading .delete delete <|
      either transactionOf (fun _ => maybe (only .transaction)) fail)
    (maybe (only .semicolon))

end Grammar

def sql : Rule → Grammar.SqlForm
  | .expr => Grammar.disjunction
  | .statement => Grammar.statement

end ChocoBase.Sql
