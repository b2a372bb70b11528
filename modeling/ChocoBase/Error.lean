import ChocoBase.Storage.Page

/-!
# Errors

The error enumerations of the storage layers.  Each outer layer wraps the inner
ones, as the `From` conversions of the source do.
-/

namespace ChocoBase

open ChocoBase.Storage

inductive IoErrorKind where
  | unexpectedEof
  | other
  deriving DecidableEq, Repr

inductive StorageError where
  | io (kind : IoErrorKind)
  | notADatabase
  | corruptPage (no : PageNo) (message : String)
  | corruptJournal (message : String)
  deriving DecidableEq, Repr

inductive BTreeError where
  | duplicateKey
  | rowTooLarge (size limit : Nat)
  | storage (inner : StorageError)
  deriving DecidableEq, Repr

inductive PlanError where
  | noSuchTable (name : String)
  | noSuchColumn (name : String)
  | noSuchIndex (name : String)
  | tableAlreadyExists (name : String)
  | indexAlreadyExists (name : String)
  | invalidSchema (message : String)
  | invalidExpression (message : String)
  | columnCountMismatch (expected found : Nat)
  | nestedTransactionNotSupported
  | noTransactionInProgress
  | cannotUpdatePrimaryKey
  deriving DecidableEq, Repr

inductive ExecError where
  | notNullViolation (column : String)
  | duplicatePrimaryKey
  | invalidValue (message : String)
  | btree (inner : BTreeError)
  | storage (inner : StorageError)
  | plan (inner : PlanError)
  deriving DecidableEq, Repr

inductive DbError where
  | storage (inner : StorageError)
  | btree (inner : BTreeError)
  | plan (inner : PlanError)
  | exec (inner : ExecError)
  deriving DecidableEq, Repr

/-! ## Texts -/

/-- The texts of the system's errors come from the system. -/
def StorageError.text (ioText : IoErrorKind → String) : StorageError → String
  | io kind => "I/O error: " ++ ioText kind
  | notADatabase => "not a valid database file"
  | corruptPage no message => "corrupt page " ++ toString no.toNat ++ ": " ++ message
  | corruptJournal message => "journal file is corrupted: " ++ message

def BTreeError.text (ioText : IoErrorKind → String) : BTreeError → String
  | duplicateKey => "duplicate key"
  | rowTooLarge size limit =>
      "row size " ++ toString size ++ " exceeds max allowable page payload " ++ toString limit
  | storage inner => inner.text ioText

def PlanError.text : PlanError → String
  | noSuchTable name => "no such table: " ++ name
  | noSuchColumn name => "no such column: " ++ name
  | noSuchIndex name => "no such index: " ++ name
  | tableAlreadyExists name => "table already exists: " ++ name
  | indexAlreadyExists name => "index already exists: " ++ name
  | invalidSchema message => "invalid schema: " ++ message
  | invalidExpression message => "invalid expression: " ++ message
  | columnCountMismatch expected found =>
      "column count mismatch: expected " ++ toString expected ++ ", found " ++ toString found
  | nestedTransactionNotSupported => "nested transactions are not supported"
  | noTransactionInProgress => "cannot commit or rollback: no transaction is in progress"
  | cannotUpdatePrimaryKey => "cannot update primary key column"

def ExecError.text (ioText : IoErrorKind → String) : ExecError → String
  | notNullViolation column => "NOT NULL constraint failed: " ++ column
  | duplicatePrimaryKey => "duplicate primary key"
  | invalidValue message => "invalid value: " ++ message
  | btree inner => inner.text ioText
  | storage inner => inner.text ioText
  | plan inner => inner.text

def DbError.text (ioText : IoErrorKind → String) : DbError → String
  | storage inner => inner.text ioText
  | btree inner => inner.text ioText
  | plan inner => inner.text
  | exec inner => inner.text ioText

end ChocoBase
