import ChocoBase.Foundation.FloatBits

/-!
# Tokens
-/

namespace ChocoBase.Sql

inductive Token where
  | create
  | table
  | drop
  | index
  | on
  | insert
  | into
  | values
  | select
  | «from»
  | «where»
  | update
  | set
  | delete
  | order
  | «by»
  | asc
  | desc
  | limit
  | not
  | null
  | primary
  | key
  | and
  | or
  | is
  | begin
  | commit
  | rollback
  | transaction
  | join
  | inner
  | left
  | right
  | cross
  | group
  | having
  | as
  | count
  | sum
  | avg
  | min
  | max
  | jsonExtract
  | user
  | password
  | policy
  | enable
  | disable
  | row
  | level
  | security
  | using
  | check
  | role
  | authUid
  | alter
  | add
  | rename
  | to
  | column
  | «for»
  | «with»
  | all
  | kwInteger
  | kwFloat
  | kwText
  | kwBoolean
  | kwJson
  | kwVector
  | cosineDistance
  | l2Distance
  | innerProduct
  | ftsMatch
  | ftsRank
  | ftsSnippet
  | explain
  | «in»
  | exists
  | like
  | returning
  | identifier (s : String)
  | intLiteral (n : Int64)
  | floatLiteral (x : Float)
  | stringLiteral (s : String)
  | true
  | false
  | eq
  | notEq
  | lt
  | ltEq
  | gt
  | gtEq
  | arrow
  | arrowText
  | lParen
  | rParen
  | comma
  | star
  | dot
  | semicolon
  | eof
  deriving DecidableEq, Repr

structure SpannedToken where
  token : Token
  offset : Nat
  deriving DecidableEq, Repr

end ChocoBase.Sql
