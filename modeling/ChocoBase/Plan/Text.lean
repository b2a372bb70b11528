import ChocoBase.Sql.Library

/-!
# Text functions of the evaluator

Patterns of `LIKE`, full-text search, paths into JSON documents and distances of
vectors.
-/

namespace ChocoBase.Plan

open ChocoBase.Sql ChocoBase.Types

/-! ## LIKE -/

def likeMatchChars : List Char → List Char → Bool
  | text, [] => text.isEmpty
  | text, p :: pat =>
      if p = '%' then
        pat.isEmpty || text.tails.any fun rest => likeMatchChars rest pat
      else match text with
        | [] => false
        | t :: text => (p = '_' || p = t) && likeMatchChars text pat
  termination_by structural _ pat => pat

/-! ## Full-text search -/

/-- `trim_end_matches` with a nonempty suffix. -/
def trimEndMatches (suffix : List Char) (s : List Char) : List Char :=
  let rec trim : Nat → List Char → List Char
    | 0, rev => rev
    | fuel + 1, rev =>
        if suffix.reverse.isPrefixOf rev then trim fuel (rev.drop suffix.length) else rev
  (trim s.length s.reverse).reverse

def trimMatches (p : Char → Bool) (s : List Char) : List Char :=
  ((s.dropWhile p).reverse.dropWhile p).reverse

/-- The words between the characters that `p` accepts. -/
def splitWords (p : Char → Bool) (s : List Char) : List (List Char) := s.splitOnP p

section Fts

variable (lib : Library)

def lower (s : List Char) : List Char := (lib.toLowercase (String.ofList s)).toList

def tokenizeWords (s : String) : List (List Char) :=
  let words := splitWords (fun c => !lib.isAlphanumeric c && c ≠ '*' && c ≠ ':') s.toList
  (words.map fun w => lower lib (trimMatches lib.isWhitespace w)).filter fun w => !w.isEmpty

def cleanQuery (q : List Char) : List Char := trimEndMatches ['*'] (trimEndMatches [':', '*'] q)

/-- Whether the query word `q` is found in the word `d` of the document. -/
def queryMatches (q d : List Char) : Bool :=
  if [':', '*'].isSuffixOf q || ['*'].isSuffixOf q then (cleanQuery q).isPrefixOf d
  else d = cleanQuery q

def ftsMatches (doc query : String) : Bool :=
  let docTokens := tokenizeWords lib doc
  let queryTokens := tokenizeWords lib query
  !queryTokens.isEmpty &&
    queryTokens.all fun q => (cleanQuery q).isEmpty || docTokens.any (queryMatches q)

/-- `n as f64` -/
def floatOfNat (n : Nat) : Float := (UInt64.ofNat n).toFloat

def ftsRank (doc query : String) : Float :=
  let docTokens := tokenizeWords lib doc
  let queryTokens := tokenizeWords lib query
  if docTokens.isEmpty || queryTokens.isEmpty then 0.0
  else
    let score := queryTokens.foldl (fun score q =>
      let count := if (cleanQuery q).isEmpty then 0 else (docTokens.filter (queryMatches q)).length
      if count > 0 then score + floatOfNat count / (floatOfNat count + 1.2) else score) 0.0
    let lengthNorm := 1.0 / ((floatOfNat docTokens.length).sqrt + 1.0)
    score * (1.0 + lengthNorm)

def containsText (s part : List Char) : Bool := s.tails.any fun rest => part.isPrefixOf rest

def ftsSnippet (doc query : String) : String :=
  let queryTokens := ((tokenizeWords lib query).map cleanQuery).filter fun q => !q.isEmpty
  let words := (splitWords lib.isWhitespace doc.toList).filter fun w => !w.isEmpty
  if queryTokens.isEmpty || doc.isEmpty || words.isEmpty then doc
  else
    let hit (w : List Char) : Bool :=
      let clean := lower lib (trimMatches (fun c => !lib.isAlphanumeric c) w)
      queryTokens.any fun q =>
        clean = q || ((utf8 (String.ofList clean)).length ≥ 3 && containsText clean q)
    let matchIdx := (words.findIdx? hit).getD 0
    let startIdx := matchIdx - 4
    let endIdx := min (matchIdx + 5) words.length
    let shown := (words.take endIdx).drop startIdx
    let marked := shown.map fun w =>
      if hit w then "<b>" ++ String.ofList w ++ "</b>" else String.ofList w
    let parts := (if startIdx > 0 then ["..."] else []) ++ marked ++
      (if endIdx < words.length then ["..."] else [])
    " ".intercalate parts

end Fts

/-! ## JSON paths -/

/-- `parse::<usize>` -/
def parseUsize (s : List Char) : Option Nat :=
  let digits := if s.head? = some '+' then s.tail else s
  if !digits.isEmpty && digits.all Char.isDigit then
    let n := digits.foldl (fun n c => 10 * n + (c.toNat - '0'.toNat)) 0
    if n < 2 ^ 64 then some n else none
  else none

def normalizedPath (path : String) : List Char :=
  match path.toList with
  | '$' :: '.' :: rest => rest
  | '$' :: rest => rest
  | other => other

def jsonStep (segment : List Char) : Json → Option Json
  | .object members => members.lookup (String.ofList segment)
  | .array items => (parseUsize segment).bind fun i => items[i]?
  | _ => none

def jsonFollow (path : String) (document : Json) : Option Json :=
  let normalized := normalizedPath path
  if normalized.isEmpty then some document
  else (normalized.splitOn '.').foldlM (fun current segment => jsonStep segment current) document

def jsonToValue (lib : Library) (asText : Bool) : Json → Value
  | .null => .null
  | .bool b => .boolean b
  | .number n =>
      match n.asI64 with
      | some i => .integer i
      | none => if asText then .text n.text else .json n.text
  | .string s => .text s
  | other =>
      let serialized := (lib.jsonText other).getD ""
      if asText then .text serialized else .json serialized

/-! ## Vectors -/

def cosineDistance (a b : List Float32) : Float :=
  if a.length ≠ b.length || a.isEmpty then 1.0
  else
    let (dot, normA, normB) := (a.zip b).foldl (fun (dot, normA, normB) (x, y) =>
      (dot + x.toFloat * y.toFloat, normA + x.toFloat * x.toFloat, normB + y.toFloat * y.toFloat))
      ((0.0, 0.0, 0.0) : Float × Float × Float)
    if normA == 0.0 || normB == 0.0 then 1.0 else 1.0 - dot / (normA.sqrt * normB.sqrt)

/-- `f64::MAX` -/
def floatMax : Float := Float.ofBits 0x7FEFFFFFFFFFFFFF

def l2Distance (a b : List Float32) : Float :=
  if a.length ≠ b.length then floatMax
  else ((a.zip b).foldl (fun sum (x, y) =>
    sum + (x.toFloat - y.toFloat) * (x.toFloat - y.toFloat)) (0.0 : Float)).sqrt

def innerProduct (a b : List Float32) : Float :=
  if a.length ≠ b.length then 0.0
  else (a.zip b).foldl (fun dot (x, y) => dot + x.toFloat * y.toFloat) (0.0 : Float)

def vectorDistance : VectorMetric → List Float32 → List Float32 → Float
  | .cosine => cosineDistance
  | .l2 => l2Distance
  | .innerProduct => innerProduct

def parseVector (lib : Library) : Value → Option (List Float32)
  | .vector xs => some xs
  | .text s | .json s => (lib.parseVector s).toOption
  | _ => none

end ChocoBase.Plan
