import ChocoBase.Sql.Ast
import ChocoBase.Storage.Page

/-!
# Schemas
-/

namespace ChocoBase.Types

open ChocoBase.Sql ChocoBase.Storage

structure Column where
  name : String
  ty : ColumnType
  notNull : Bool
  isPrimaryKey : Bool
  deriving DecidableEq

structure TableSchema where
  name : String
  columns : List Column
  rootPage : PageNo
  rlsEnabled : Bool
  deriving DecidableEq

structure IndexSchema where
  name : String
  table : String
  column : String
  rootPage : PageNo
  deriving DecidableEq

structure PolicySchema where
  name : String
  table : String
  cmd : PolicyCmd
  usingExpr : Option Expr
  withCheck : Option Expr

namespace TableSchema

/-- A schema without a primary key column panics. -/
def primaryKeyIndex (schema : TableSchema) : Option Nat :=
  schema.columns.findIdx? fun c => c.isPrimaryKey

def columnIndex (schema : TableSchema) (name : String) : Option Nat :=
  schema.columns.findIdx? fun c => c.name = name

end TableSchema

end ChocoBase.Types
