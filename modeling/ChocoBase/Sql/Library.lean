import ChocoBase.Sql.Ast
import ChocoBase.Error

/-!
# What the engine uses of its libraries

The JSON library and the Unicode tables of the standard library, as parameters.
-/

namespace ChocoBase.Sql

/-- A number of a JSON document: its value if it fits `i64`, and its text. -/
structure JsonNumber where
  asI64 : Option Int64
  text : String

inductive Json where
  | null
  | bool (b : Bool)
  | number (n : JsonNumber)
  | string (s : String)
  | array (items : List Json)
  | object (members : List (String × Json))

structure Library where
  /-- `serde_json::from_str::<Value>`; an error is its text -/
  parseJson : String → Except String Json
  /-- `serde_json::to_string` of a value -/
  jsonText : Json → Option String
  /-- `serde_json::from_str::<Vec<f32>>` -/
  parseVector : String → Except String (List Float32)
  /-- `serde_json::to_string` of a vector -/
  vectorText : List Float32 → Option String
  /-- `serde_json::to_string` of an optional expression -/
  exprText : Option Expr → Option String
  /-- `serde_json::from_str` of an optional expression -/
  parseExpr : String → Option (Option Expr)
  isAlphanumeric : Char → Bool
  isWhitespace : Char → Bool
  toLowercase : String → String
  /-- the text of an error of the system -/
  ioText : IoErrorKind → String
  /-- the derived `Debug` texts -/
  debugExpr : Expr → String
  debugValue : Types.Value → String
  debugTableRef : Option TableRef → String
  debugWhere : Option Expr → String
  debugStatement : Statement → String

/-- Enough of the libraries for statements without JSON, vectors and fractions. -/
def plainLibrary : Library where
  parseJson _ := .error "expected value"
  jsonText _ := none
  parseVector _ := .error "expected value"
  vectorText _ := none
  exprText _ := none
  parseExpr _ := none
  isAlphanumeric := Char.isAlphanum
  isWhitespace c := c = ' ' || (9 ≤ c.toNat && c.toNat ≤ 13)
  toLowercase := String.toLower
  ioText _ := "error"
  debugExpr _ := ""
  debugValue _ := ""
  debugTableRef _ := ""
  debugWhere _ := ""
  debugStatement _ := ""

end ChocoBase.Sql
