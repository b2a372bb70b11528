import ChocoBase.Types.Value

/-!
# Statements and expressions

The syntax that the parser produces.  Expressions contain statements, as
subqueries, and statements contain expressions.
-/

namespace ChocoBase.Sql

open ChocoBase.Types

inductive BinOp where
  | and
  | or
  | eq
  | notEq
  | lt
  | ltEq
  | gt
  | gtEq
  deriving DecidableEq, Repr

inductive VectorMetric where
  | cosine
  | l2
  | innerProduct
  deriving DecidableEq, Repr

inductive JoinType where
  | inner
  | left
  | right
  | cross
  deriving DecidableEq, Repr

inductive PolicyCmd where
  | select
  | insert
  | update
  | delete
  | all
  deriving DecidableEq, Repr

structure ColumnDef where
  name : String
  ty : ColumnType
  notNull : Bool
  primaryKey : Bool
  deriving DecidableEq

mutual

inductive Expr where
  | column (name : String)
  | qualifiedColumn (table column : String)
  | intLiteral (n : Int64)
  | floatLiteral (x : Float)
  | stringLiteral (s : String)
  | boolLiteral (b : Bool)
  | null
  | binaryOp (op : BinOp) (left right : Expr)
  | isNull (expr : Expr) (negated : Bool)
  | inList (expr : Expr) (list : List Expr) (negated : Bool)
  | inSubquery (expr : Expr) (subquery : Statement) (negated : Bool)
  | exists (subquery : Statement) (negated : Bool)
  | like (expr : Expr) (pattern : String) (negated : Bool)
  | aggregate (func : AggregateFunc)
  | jsonExtract (expr : Expr) (path : String) (asText : Bool)
  | vectorDistance (metric : VectorMetric) (left right : Expr)
  | ftsMatch (expr : Expr) (query : String)
  | ftsRank (expr : Expr) (query : String)
  | ftsSnippet (expr : Expr) (query : String)
  | authUid

inductive AggregateFunc where
  | countStar
  | count (expr : Expr)
  | sum (expr : Expr)
  | avg (expr : Expr)
  | min (expr : Expr)
  | max (expr : Expr)

inductive SelectItem where
  | all
  | expr (expr : Expr) (asName : Option String)

inductive SelectColumns where
  | all
  | list (names : List String)
  | items (items : List SelectItem)

inductive TableRef where
  | table (name : String) (asName : Option String)
  | join (left right : TableRef) (joinType : JoinType) (condition : Option Expr)

inductive Statement where
  | createTable (name : String) (columns : List ColumnDef)
  | dropTable (name : String)
  | createIndex (name table column : String)
  | dropIndex (name : String)
  | insert (table : String) (columns : Option (List String)) (rows : List (List Expr))
      (returning : Option SelectColumns)
  | select (columns : SelectColumns) (table : String) (tableRef : Option TableRef)
      (whereClause : Option Expr) (groupBy : Option (List Expr)) (having : Option Expr)
      (orderBy : Option (String × Bool)) (limit : Option Int64)
  | update (table : String) (assignments : List (String × Expr)) (whereClause : Option Expr)
      (returning : Option SelectColumns)
  | delete (table : String) (whereClause : Option Expr) (returning : Option SelectColumns)
  | begin
  | commit
  | rollback
  | createUser (username password : String) (role : Option String)
  | alterTableRls (table : String) (enabled : Bool)
  | alterTableAddColumn (table : String) (column : ColumnDef)
  | alterTableDropColumn (table column : String)
  | alterTableRename (table newName : String)
  | createPolicy (name table : String) (cmd : PolicyCmd) (usingExpr withCheck : Option Expr)
  | dropPolicy (name table : String)
  | explain (statement : Statement)

end

deriving instance BEq for Expr, AggregateFunc, SelectItem, SelectColumns, TableRef, Statement

end ChocoBase.Sql
