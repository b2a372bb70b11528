import ChocoBase.Engine.StoredRows
import ChocoBase.Server.RestSql
import ChocoBase.Sql.Spacing

/-!
# Templates of REST statements

A template is the list of tokens that a statement has to have: the words of the
handler, one literal for a value, one identifier for a name, and an arrow and one
string for a segment of a path.  Values are escaped; names are not, so that the text
has the tokens of the template when the names are plain.
-/

namespace ChocoBase.Server.Rest

open ChocoBase.Foundation ChocoBase.Sql ChocoBase.Types ChocoBase.Engine
open Text (Chars)

/-! ## Paths -/

/-- The string that a path segment is between its quotes. -/
def segmentOf (s : Chars) : Option String :=
  match readQuoted '\'' (s ++ ['\'']) with
  | some (segment, []) => some (String.ofList segment)
  | _ => none

/-- The arrows of a path, each with the segment after it. -/
def pathSegments : Nat → Chars → List (Token × Chars)
  | 0, _ => []
  | _, [] => []
  | fuel + 1, c :: cs =>
      match stripPrefix "->>".toList (c :: cs) with
      | some after => (.arrowText, pathSegment after) :: pathSegments fuel (upToArrow after).2
      | none =>
          match stripPrefix "->".toList (c :: cs) with
          | some after => (.arrow, pathSegment after) :: pathSegments fuel (upToArrow after).2
          | none => []

def keyPath (key : Chars) : List (Token × Chars) :=
  let rest := (upToArrow key).2
  pathSegments rest.length rest

def pathTemplate (path : List (Token × Chars)) : List Token :=
  path.flatMap fun (sign, s) => [sign, .stringLiteral ((segmentOf s).getD "")]

section Templates

variable (text : TextLibrary)

def nameToken (s : Chars) : Token := .identifier ((identifierText text s).getD "")

def keyTemplate (key : Chars) : List Token :=
  nameToken text (upToArrow key).1 :: pathTemplate (keyPath key)

/-- The column is a name, and every segment of the path is one string. -/
def PlainKey (key : Chars) : Prop :=
  (identifierText text (upToArrow key).1).isSome ∧ ∀ p ∈ keyPath key, (segmentOf p.2).isSome

/-! ## Values -/

def valueToken (s : Chars) : Token :=
  match parseI64 s with
  | some n => .intLiteral n
  | none =>
      if equalsIgnoringCase s "true" then .true
      else if equalsIgnoringCase s "false" then .false
      else .stringLiteral (String.ofList s)

def isNumber : Token → Bool
  | .intLiteral _ | .floatLiteral _ => true
  | _ => false

/-- The number that a text is. -/
def numberOf (s : Chars) : Option Token :=
  match s with
  | [] => none
  | c :: cs =>
      match lexeme text c cs with
      | .ok (some t, []) => if isNumber t then some t else none
      | _ => none

def PlainJson : Json → Prop
  | .number n => (numberOf text n.text.toList).isSome
  | _ => True

/-! ## Filters -/

def likeTemplate (key : List Token) (pattern : Chars) (negated : Bool) : List Token :=
  key ++ ownTokens (if negated then " NOT LIKE " else " LIKE ") ++
    [.stringLiteral (String.ofList pattern)]

def around (s : Chars) : Chars := "%".toList ++ s ++ "%".toList

def itemTemplates (key : List Token) (items : List Chars) (negated : Bool) : List (List Token) :=
  items.map fun item =>
    likeTemplate key (around (trimMatches '\'' (trimMatches '"' item))) negated

def parensTemplate (ts : List Token) : List Token := ownTokens "(" ++ ts ++ ownTokens ")"

def searched (rhs : Chars) : Chars :=
  match splitOnce ')' rhs with
  | some (_, term) => trimStartMatches '.' term
  | none => rhs

def compareTemplate (key : List Token) (c : Comparison) (rhs : Chars) : List Token :=
  key ++ ownTokens c.symbol ++ [valueToken rhs]

def operatorTemplate (key : List Token) (op : Operator) (rhs whole : Chars) (negated : Bool) :
    List Token :=
  match op with
  | .compare c => compareTemplate key (if negated then c.negate else c) rhs
  | .like => likeTemplate key rhs negated
  | .search =>
      ownTokens (if negated then "NOT FTS_MATCH(" else "FTS_MATCH(") ++ key ++ ownTokens ", " ++
        [.stringLiteral (String.ofList (searched rhs))] ++ ownTokens ")"
  | .is => key ++ ownTokens (isWords rhs negated)
  | .contains =>
      match listItems text rhs with
      | [] => likeTemplate key (around rhs) negated
      | items => parensTemplate ((ownTokens (if negated then " OR " else " AND ")).intercalate
          (itemTemplates key items negated))
  | .contained => likeTemplate key (around rhs) negated
  | .overlaps =>
      match listItems text rhs with
      | [] => likeTemplate key (around rhs) negated
      | items => ownTokens (if negated then "NOT " else "") ++
          parensTemplate ((ownTokens " OR ").intercalate (itemTemplates key items false))
  | .oneOf =>
      let cleaned := trimEndMatches ')' (trimStartMatches '(' rhs)
      let elements := (Text.splitOn ',' cleaned).map fun item => [valueToken (trimmed text item)]
      key ++ ownTokens (if negated then " NOT IN (" else " IN (") ++
        (ownTokens ", ").intercalate elements ++ ownTokens ")"
  | .unknown => compareTemplate key .eq whole

def filterTemplate (key val : Chars) : List Token :=
  let key := keyTemplate text key
  let (negated, rest) := match stripPrefix "not.".toList val with
    | some stripped => (true, stripped)
    | none => (false, val)
  match splitOnce '.' rest with
  | some (op, rhs) => operatorTemplate text key (operatorOf (String.ofList op)) rhs rest negated
  | none => compareTemplate key .eq rest

/-- The keys of the filters that a parameter gives. -/
def filterKeys (param : Chars × Chars) : List Chars :=
  let (key, val) := param
  if notFilters.any fun k => k.toList = key then []
  else if key = "or".toList then (orParts val).map Prod.fst
  else [key]

def whereClauseTemplate (param : Chars × Chars) : Option (List Token) :=
  let (key, val) := param
  if notFilters.any fun k => k.toList = key then none
  else if key = "or".toList then
    match orParts val with
    | [] => none
    | parts => some (parensTemplate ((ownTokens " OR ").intercalate
        (parts.map fun (k, v) => filterTemplate text k v)))
  else some (filterTemplate text key val)

def whereTemplate (params : Params) : List Token :=
  match params.filterMap (whereClauseTemplate text) with
  | [] => []
  | clauses => ownTokens " WHERE " ++ (ownTokens " AND ").intercalate clauses

def PlainFilters (params : Params) : Prop :=
  ∀ param ∈ params, ∀ key ∈ filterKeys param, PlainKey text key

instance (params : Params) : Decidable (PlainFilters text params) := by
  unfold PlainFilters PlainKey
  infer_instance

/-! ## Columns and order -/

def columnTemplate (colExpr : Chars) : List Token :=
  match splitOnce ':' colExpr with
  | some (name, col) =>
      keyTemplate text (trimmed text col) ++ ownTokens " AS " ++ [nameToken text (trimmed text name)]
  | none => if colExpr = ['*'] then ownTokens "*" else keyTemplate text (trimmed text colExpr)

def PlainColumn (colExpr : Chars) : Prop :=
  match splitOnce ':' colExpr with
  | some (name, col) => PlainKey text (trimmed text col) ∧ (identifierText text (trimmed text name)).isSome
  | none => colExpr ≠ ['*'] → PlainKey text (trimmed text colExpr)

def selectTemplate (select : Chars) : List Token :=
  match selectedColumns text select with
  | [] => ownTokens "*"
  | cols => (ownTokens ", ").intercalate (cols.map (columnTemplate text))

def orderTemplate (order : Chars) : List Token :=
  match orderParts text order with
  | [] => []
  | parts => ownTokens " ORDER BY " ++ (ownTokens ", ").intercalate (parts.map fun (col, tokens) =>
      keyTemplate text col ++ ownTokens (" " ++ (orderWords tokens).1 ++ (orderWords tokens).2))

/-! ## Statements -/

def getTemplate (table : Chars) (params : Params) : List Token :=
  ownTokens "SELECT " ++ selectTemplate text ((param params "select").getD ['*']) ++
    ownTokens " FROM " ++ [nameToken text table] ++ whereTemplate text params ++
    match param params "order" with
    | some order => orderTemplate text order
    | none => []

def deleteTemplate (table : Chars) (params : Params) : List Token :=
  ownTokens "DELETE FROM " ++ [nameToken text table] ++ whereTemplate text params ++
    ownTokens " RETURNING *"

variable (lib : Library)

def jsonToken : Json → Token
  | .null => .null
  | .bool b => if b then .true else .false
  | .number n => (numberOf text n.text.toList).getD .null
  | .string s => .stringLiteral s
  | .array items => .stringLiteral ((lib.jsonText (.array items)).getD "")
  | .object members => .stringLiteral ((lib.jsonText (.object members)).getD "")

def insertTemplate (table : Chars) (schema : TableSchema) (obj : Members) : Option (List Token) :=
  match insertColumns schema obj with
  | [] => none
  | columns => some (ownTokens "INSERT INTO " ++ [nameToken text table] ++ ownTokens " (" ++
      (ownTokens ", ").intercalate (columns.map fun c => [nameToken text c.1.toList]) ++
      ownTokens ") VALUES (" ++
      (ownTokens ", ").intercalate (columns.map fun c => [jsonToken text lib c.2]) ++
      ownTokens ") RETURNING *")

def assignmentTemplate (name : Chars) (val : Json) : List Token :=
  [nameToken text name] ++ ownTokens " = " ++ [jsonToken text lib val]

def upsertTemplate (table : Chars) (schema : TableSchema) (params : Params) (obj : Members) :
    Option (List Token) := do
  let pk := schema.columns.find? (·.isPrimaryKey)
  let col ← (param params "on_conflict").or (pk.map fun c => c.name.toList)
  let colVal ← obj.lookup (String.ofList col)
  match upsertMembers schema col obj with
  | [] => none
  | members => some (ownTokens "UPDATE " ++ [nameToken text table] ++ ownTokens " SET " ++
      (ownTokens ", ").intercalate
        (members.map fun (k, v) => assignmentTemplate text lib k.toList v) ++
      ownTokens " WHERE " ++ assignmentTemplate text lib col colVal ++ ownTokens " RETURNING *")

def patchTemplate (table : Chars) (params : Params) (obj : Members) : Option (List Token) :=
  match obj with
  | [] => none
  | obj => some (ownTokens "UPDATE " ++ [nameToken text table] ++ ownTokens " SET " ++
      (ownTokens ", ").intercalate (obj.map fun (k, v) => assignmentTemplate text lib k.toList v) ++
      whereTemplate text params ++ ownTokens " RETURNING *")

/-- The templates of the statements of a request. -/
def requestTemplates (method : Method) (table : Chars) (schema : TableSchema) (params : Params)
    (body : Json) : List (List Token) :=
  match method with
  | .get => [getTemplate text table params]
  | .post => (bodyObjects body).flatMap fun obj =>
      (insertTemplate text lib table schema obj).toList ++
        (upsertTemplate text lib table schema params obj).toList
  | .patch =>
      match body with
      | .object members => (patchTemplate text lib table params members).toList
      | _ => []
  | .delete => [deleteTemplate text table params]

/-- The names that the request brings are plain, and so are the numbers of its body. -/
def PlainRequest (method : Method) (params : Params) (body : Json) : Prop :=
  match method with
  | .get =>
      PlainFilters text params ∧
        (∀ col ∈ selectedColumns text ((param params "select").getD ['*']), PlainColumn text col) ∧
          ∀ order ∈ param params "order", ∀ p ∈ orderParts text order, PlainKey text p.1
  | .post =>
      (∀ col ∈ param params "on_conflict", (identifierText text col).isSome) ∧
        ∀ obj ∈ bodyObjects body, ∀ m ∈ obj, PlainJson text m.2
  | .patch =>
      PlainFilters text params ∧ ∀ obj, body = .object obj →
        ∀ m ∈ obj, (identifierText text m.1.toList).isSome ∧ PlainJson text m.2
  | .delete => PlainFilters text params

end Templates

/-! ## The words of the handler -/

/-- Words in front of a name or a value. -/
def openings : List String :=
  ["SELECT ", "INSERT INTO ", "UPDATE ", "DELETE FROM ", " WHERE ", " ORDER BY ", "(", "NOT ",
    "FTS_MATCH(", "NOT FTS_MATCH("]

/-- Words between names and values. -/
def separators : List String :=
  [", ", " AND ", " OR ", " AS ", " FROM ", " SET ", " (", ") VALUES (", " IN (", " NOT IN (",
    " LIKE ", " NOT LIKE ", " = ", " != ", " > ", " >= ", " < ", " <= ", " WHERE "]

/-- Words after a name or a value. -/
def closings : List String :=
  [")", ") RETURNING *", " RETURNING *", " IS NULL", " IS NOT NULL", " = TRUE", " = FALSE", " ASC",
    " ASC NULLS FIRST", " ASC NULLS LAST", " DESC", " DESC NULLS FIRST", " DESC NULLS LAST"]

theorem openings_own : ∀ s ∈ openings, isOwn s ∧ closes s.toList := by decide

theorem separators_own : ∀ s ∈ separators, isSeparator s := by decide

theorem closings_own : ∀ s ∈ closings, isOwn s ∧ opens s.toList := by decide

section Words

variable {text : TextLibrary} (hascii : text.LikeAscii) {a b : Chars} {ta tb : List Token}
include hascii

theorem opening {s : String} (hs : s ∈ openings) (hb : Reads text b tb) :
    Reads text (s.toList ++ b) (ownTokens s ++ tb) :=
  hb.own_before hascii (openings_own s hs).1 (openings_own s hs).2

theorem separated {s : String} (hs : s ∈ separators) (ha : Reads text a ta)
    (hb : Reads text b tb) : Reads text (a ++ s.toList ++ b) (ta ++ ownTokens s ++ tb) :=
  ha.between hascii (separators_own s hs) hb

theorem closing {s : String} (hs : s ∈ closings) (ha : Reads text a ta) :
    Reads text (a ++ s.toList) (ta ++ ownTokens s) :=
  ha.own_after hascii (closings_own s hs).1 (closings_own s hs).2

theorem joined {s : String} (hs : s ∈ separators) {parts : List Chars}
    {tokens : List (List Token)} (h : List.Forall₂ (Reads text) parts tokens) :
    Reads text (Text.join s.toList parts) ((ownTokens s).intercalate tokens) :=
  reads_joinOwn hascii (separators_own s hs) h

end Words

/-! ## Keys -/

section Keys

variable {text : TextLibrary} (hascii : text.LikeAscii)
include hascii

theorem reads_nameToken {s : Chars} (h : (identifierText text s).isSome) :
    Reads text s [nameToken text s] := by
  obtain ⟨name, hname⟩ := Option.isSome_iff_exists.mp h
  rw [nameToken, hname]
  exact reads_name hascii hname

theorem readsAs_segment {s : Chars} (h : (segmentOf s).isSome) :
    ReadsAs text (inQuotes s) (some (.stringLiteral ((segmentOf s).getD ""))) := by
  unfold segmentOf at h ⊢
  split at h
  · next segment hread =>
      refine ⟨'\'', _, rfl, ?_⟩
      unfold lexeme
      rw [hascii.isWhitespace _ (by decide), if_neg (by decide)]
      simp only [hread, Option.getD_some]
  · cases h

end Keys

theorem stripPrefix_eq_some {start s r : Chars} (h : stripPrefix start s = some r) :
    s = start ++ r := by
  unfold stripPrefix at h
  split at h
  · next hprefix =>
      cases h
      obtain ⟨r, rfl⟩ := List.isPrefixOf_iff_prefix.mp hprefix
      rw [List.drop_left]
  · cases h

theorem upToArrow_rest (s : Chars) : (upToArrow s).2 = [] ∨ "->".toList <+: (upToArrow s).2 := by
  unfold upToArrow
  split
  · next first hbefore => exact .inr (Text.before_prefix hbefore)
  · exact .inl rfl

theorem upToArrow_length (s : Chars) : (upToArrow s).2.length ≤ s.length := by
  unfold upToArrow
  split
  · rw [List.length_drop]
    exact Nat.sub_le _ _
  · exact Nat.zero_le _

section Keys

variable {text : TextLibrary} (hascii : text.LikeAscii)
include hascii

theorem solid_arrowText : Solid text "->>".toList [.arrowText] := by
  intro r ts' hrest
  have hread : lexeme text '-' ('>' :: '>' :: r) = .ok (some .arrowText, r) := by
    unfold lexeme
    rw [hascii.isWhitespace _ (by decide), if_neg (by decide)]
    rfl
  exact Lexes.step hread hrest

theorem reads_arrow {s b : Chars} {tb : List Token} (hb : Reads text (inQuotes s ++ b) tb) :
    Reads text ("->".toList ++ (inQuotes s ++ b)) (.arrow :: tb) := by
  intro r ts' hr hrest
  have hread : lexeme text '-' ('>' :: (inQuotes s ++ b ++ r)) =
      .ok (some .arrow, inQuotes s ++ b ++ r) := by
    unfold lexeme
    rw [hascii.isWhitespace _ (by decide), if_neg (by decide)]
    rfl
  exact Lexes.step hread (hb _ _ hr hrest)

/-- What is left of a path is empty or starts with an arrow. -/
theorem reads_path {fuel : Nat} {remainder : Chars} (hfuel : remainder.length ≤ fuel)
    (harrow : remainder = [] ∨ "->".toList <+: remainder)
    (hplain : ∀ p ∈ pathSegments fuel remainder, (segmentOf p.2).isSome) :
    Reads text (formatPath fuel remainder) (pathTemplate (pathSegments fuel remainder)) ∧
      opens (formatPath fuel remainder) := by
  induction fuel generalizing remainder with
  | zero =>
      obtain rfl := List.eq_nil_of_length_eq_zero (Nat.le_zero.mp hfuel)
      exact ⟨.nil, rfl⟩
  | succ fuel ih =>
      rcases harrow with rfl | harrow
      · exact ⟨.nil, rfl⟩
      obtain ⟨r, rfl⟩ := harrow
      have hnext : ∀ after : Chars, after.length < ("->".toList ++ r).length →
          (∀ p ∈ pathSegments fuel (upToArrow after).2, (segmentOf p.2).isSome) →
            Reads text (formatPath fuel (upToArrow after).2)
              (pathTemplate (pathSegments fuel (upToArrow after).2)) ∧
                opens (formatPath fuel (upToArrow after).2) := fun after hlt hsegments =>
        ih (by have := upToArrow_length after; omega) (upToArrow_rest after) hsegments
      have hunfold : "->".toList ++ r = '-' :: '>' :: r := rfl
      rw [hunfold] at hplain hnext ⊢
      simp only [formatPath, pathSegments] at hplain ⊢
      cases htext : stripPrefix "->>".toList ('-' :: '>' :: r) with
      | some after =>
          rw [htext] at hplain
          have hlength := congrArg List.length (stripPrefix_eq_some htext)
          obtain ⟨htail, hopens⟩ := hnext after (by simp at hlength ⊢; omega)
            fun p hp => hplain p (List.mem_cons_of_mem _ hp)
          have hsegment := reads_token hascii
            (readsAs_segment hascii (hplain _ List.mem_cons_self))
          refine ⟨?_, rfl⟩
          simpa [pathTemplate] using
            (solid_arrowText hascii).append (hsegment.append htail hopens)
      | none =>
          have hstrip : stripPrefix "->".toList ('-' :: '>' :: r) = some r := rfl
          rw [htext, hstrip] at hplain
          obtain ⟨htail, hopens⟩ := hnext r (by rw [List.length_cons, List.length_cons]; omega)
            fun p hp => hplain p (List.mem_cons_of_mem _ hp)
          have hsegment := reads_token hascii
            (readsAs_segment hascii (hplain _ List.mem_cons_self))
          rw [hstrip]
          refine ⟨?_, rfl⟩
          simpa [pathTemplate] using reads_arrow hascii (hsegment.append htail hopens)

theorem reads_key {key : Chars} (h : PlainKey text key) :
    Reads text (formatFilterKey key) (keyTemplate text key) := by
  obtain ⟨htail, hopens⟩ := reads_path hascii le_rfl (upToArrow_rest key) h.2
  exact (reads_nameToken hascii h.1).append htail hopens

end Keys

/-! ## Values -/

theorem toLower_of_le {c : Char} (h : 128 ≤ c.toNat) : c.toLower = c := by
  delta Char.toLower
  split
  · next hupper =>
      have : c.toNat ≤ 'Z'.toNat := UInt32.le_iff_toNat_le.mp hupper.2
      exact absurd (h.trans this) (by decide)
  · rfl

theorem toUpper_toLower (c : Char) : c.toLower.toUpper = c.toUpper := by
  by_cases hlt : c.toNat < 128
  · have hall : ∀ n < 128, (Char.ofNat n).toLower.toUpper = (Char.ofNat n).toUpper := by decide
    simpa using hall _ hlt
  · rw [toLower_of_le (by omega)]

section Values

variable {text : TextLibrary} (hascii : text.LikeAscii)
include hascii

theorem reads_quoted (s : Chars) :
    Reads text (inQuotes (escapeQuotes s)) [.stringLiteral (String.ofList s)] :=
  reads_token hascii (readsAs_quoted hascii s)

theorem reads_int (n : Int64) : Reads text (toString n.toInt).toList [.intLiteral n] := by
  refine reads_token hascii (readsAs_int hascii (parseI64_toString n) ?_)
  rw [Int.toString_eq_repr, Int.repr_eq_if]
  split
  · rw [Nat.toList_repr]
    intro hplus
    have hdigit := Nat.isDigit_of_mem_toDigits (by decide) (by decide) (List.mem_of_head? hplus)
    exact absurd hdigit (by decide)
  · simp [String.toList_append]

theorem toUppercase_of_equals {s : Chars} {word : String} (h : equalsIgnoringCase s word)
    (hword : ∀ c ∈ word.toList, c.toLower.toNat < 128) :
    text.toUppercase (String.ofList s) = word.toUpper := by
  have hlower : s.map Char.toLower = word.toList.map Char.toLower := by
    have : ((String.ofList s).map Char.toLower).toList = (word.map Char.toLower).toList :=
      congrArg String.toList (of_decide_eq_true h)
    simpa using this
  have hs : ∀ c ∈ s, c.toNat < 128 := by
    intro c hc
    by_contra hge
    obtain ⟨d, hd, heq⟩ := List.mem_map.mp (hlower ▸ List.mem_map_of_mem hc)
    have hlt := hword d hd
    rw [heq, toLower_of_le (by omega)] at hlt
    exact hge hlt
  have hupper : s.map Char.toUpper = word.toList.map Char.toUpper := by
    have := congrArg (List.map Char.toUpper) hlower
    simpa [Function.comp_def, toUpper_toLower] using this
  rw [hascii.toUppercase _ (by simpa using hs)]
  refine String.toList_inj.mp ?_
  simpa [asciiLibrary, String.toUpper] using hupper

theorem reads_true : Reads text "TRUE".toList [.true] := by
  have htoken : ownTokens "TRUE" = [.true] := by decide +kernel
  exact htoken ▸ reads_own hascii (by decide)

theorem reads_false : Reads text "FALSE".toList [.false] := by
  have htoken : ownTokens "FALSE" = [.false] := by decide +kernel
  exact htoken ▸ reads_own hascii (by decide)

theorem reads_formatSqlVal (s : Chars) : Reads text (formatSqlVal text s) [valueToken s] := by
  unfold formatSqlVal valueToken
  cases parseI64 s with
  | some n => exact reads_int hascii n
  | none =>
      simp only
      by_cases htrue : equalsIgnoringCase s "true"
      · rw [htrue, Bool.true_or, if_pos rfl, if_pos rfl,
          toUppercase_of_equals hascii htrue (Text.forall_of_all (by decide)),
          show "true".toUpper = "TRUE" by decide +kernel]
        exact reads_true hascii
      · by_cases hfalse : equalsIgnoringCase s "false"
        · rw [hfalse, Bool.or_true, if_pos rfl, if_neg htrue, if_pos rfl,
            toUppercase_of_equals hascii hfalse (Text.forall_of_all (by decide)),
            show "false".toUpper = "FALSE" by decide +kernel]
          exact reads_false hascii
        · rw [if_neg (by simp [htrue, hfalse]), if_neg htrue, if_neg hfalse]
          exact reads_quoted hascii s

omit hascii in
example : formatSqlVal asciiLibrary "it's".toList = "'it''s'".toList := by decide +kernel

theorem reads_number {s : Chars} (h : (numberOf text s).isSome) :
    Reads text s [(numberOf text s).getD .null] := by
  unfold numberOf at h ⊢
  split at h
  · cases h
  · next c cs =>
      split at h
      · next t hlexeme =>
          split at h
          · next hnumber => exact reads_token hascii ⟨c, cs, rfl, by simpa [hnumber] using hlexeme⟩
          · cases h
      · cases h

theorem reads_json (lib : Library) {j : Json} (h : PlainJson text j) :
    Reads text (jsonToSqlLiteral lib j) [jsonToken text lib j] := by
  cases j with
  | null => exact reads_token hascii (readsAs_null hascii)
  | bool b =>
      cases b
      · exact reads_false hascii
      · exact reads_true hascii
  | number n => exact reads_number hascii h
  | string s => simpa [jsonToSqlLiteral, jsonToken] using reads_quoted hascii s.toList
  | array items =>
      simpa [jsonToSqlLiteral, jsonToken] using
        reads_quoted hascii ((lib.jsonText (.array items)).getD "").toList
  | object members =>
      simpa [jsonToSqlLiteral, jsonToken] using
        reads_quoted hascii ((lib.jsonText (.object members)).getD "").toList

end Values

/-! ## Filters -/

section Filters

variable {text : TextLibrary} (hascii : text.LikeAscii) {key : Chars} {ts : List Token}
  (hkey : Reads text key ts)
include hascii hkey

theorem reads_like (pattern : Chars) (negated : Bool) :
    Reads text (like key (escapeQuotes pattern) negated) (likeTemplate ts pattern negated) := by
  have hquoted := reads_quoted hascii pattern
  cases negated
  · exact separated hascii (s := " LIKE ") (by simp [separators]) hkey hquoted
  · exact separated hascii (s := " NOT LIKE ") (by simp [separators]) hkey hquoted

omit hascii hkey in
theorem escapeQuotes_around (s : Chars) : containing s = escapeQuotes (around s) := by
  simp [containing, around, escapeQuotes]

theorem reads_items (items : List Chars) (negated : Bool) :
    List.Forall₂ (Reads text) (itemClauses key items negated) (itemTemplates ts items negated) := by
  refine reads_map fun item _ => ?_
  rw [escapeQuotes_around]
  exact reads_like hascii hkey _ negated

theorem reads_compare (c : Comparison) (rhs : Chars) :
    Reads text (compare text key c rhs) (compareTemplate ts c rhs) := by
  refine separated hascii ?_ hkey (reads_formatSqlVal hascii rhs)
  cases c <;> simp [separators, Comparison.symbol]

theorem reads_is (rhs : Chars) (negated : Bool) :
    Reads text (key ++ (isWords rhs negated).toList) (ts ++ ownTokens (isWords rhs negated)) := by
  refine closing hascii ?_ hkey
  unfold isWords
  split_ifs <;> simp [closings]

omit hkey in
theorem reads_inParens {a : Chars} {ta : List Token} (ha : Reads text a ta) :
    Reads text (inParens a) (parensTemplate ta) :=
  closing hascii (s := ")") (by simp [closings])
    (opening hascii (s := "(") (by simp [openings]) ha)

theorem reads_operator (op : Operator) (rhs whole : Chars) (negated : Bool) :
    Reads text (operatorClause text key op rhs whole negated)
      (operatorTemplate text ts op rhs whole negated) := by
  cases op with
  | compare c => exact reads_compare hascii hkey _ rhs
  | like => exact reads_like hascii hkey rhs negated
  | search =>
      have hterm : searchTerm rhs = escapeQuotes (searched rhs) := by
        unfold searchTerm searched
        cases splitOnce ')' rhs <;> rfl
      have hquoted := reads_quoted hascii (searched rhs)
      rw [← hterm] at hquoted
      have hcall : ∀ s ∈ openings,
          Reads text (s.toList ++ key ++ ", ".toList ++ inQuotes (searchTerm rhs) ++ ")".toList)
            (ownTokens s ++ ts ++ ownTokens ", " ++ [.stringLiteral (String.ofList (searched rhs))] ++
              ownTokens ")") := fun s hs =>
        closing hascii (s := ")") (by simp [closings])
          (separated hascii (s := ", ") (by simp [separators]) (opening hascii hs hkey) hquoted)
      cases negated
      · exact hcall "FTS_MATCH(" (by simp [openings])
      · exact hcall "NOT FTS_MATCH(" (by simp [openings])
  | is => exact reads_is hascii hkey rhs negated
  | contains =>
      simp only [operatorClause, operatorTemplate]
      cases listItems text rhs with
      | nil =>
        rw [escapeQuotes_around]
        exact reads_like hascii hkey _ negated
      | cons item items =>
        refine reads_inParens hascii (joined hascii ?_ (reads_items hascii hkey _ negated))
        cases negated <;> simp [separators]
  | contained =>
      simp only [operatorClause, operatorTemplate, escapeQuotes_around]
      exact reads_like hascii hkey _ negated
  | overlaps =>
      simp only [operatorClause, operatorTemplate]
      cases listItems text rhs with
      | nil =>
        rw [escapeQuotes_around]
        exact reads_like hascii hkey _ negated
      | cons item items =>
        have hitems := reads_inParens hascii (joined hascii (s := " OR ") (by simp [separators])
          (reads_items hascii hkey (item :: items) false))
        cases negated
        · exact hitems
        · exact opening hascii (s := "NOT ") (by simp [openings]) hitems
  | oneOf =>
      simp only [operatorClause, operatorTemplate]
      have helements := joined hascii (s := ", ") (by simp [separators]) (reads_map (l :=
        Text.splitOn ',' (trimEndMatches ')' (trimStartMatches '(' rhs)))
          fun item _ => reads_formatSqlVal hascii (trimmed text item))
      refine closing hascii (s := ")") (by simp [closings]) (separated hascii ?_ hkey helements)
      cases negated <;> simp [separators]
  | unknown => exact reads_compare hascii hkey .eq whole

end Filters

section Wheres

variable {text : TextLibrary} (hascii : text.LikeAscii)
include hascii

theorem reads_filter {key : Chars} (h : PlainKey text key) (val : Chars) :
    Reads text (parseSingleFilter text key val) (filterTemplate text key val) := by
  have hkey := reads_key hascii h
  unfold parseSingleFilter filterTemplate
  cases stripPrefix "not.".toList val with
  | none =>
      simp only
      cases splitOnce '.' val with
      | none => exact reads_compare hascii hkey .eq val
      | some p => exact reads_operator hascii hkey _ p.2 val false
  | some rest =>
      simp only
      cases splitOnce '.' rest with
      | none => exact reads_compare hascii hkey .eq rest
      | some p => exact reads_operator hascii hkey _ p.2 rest true

theorem reads_whereClauses {params : Params} (h : PlainFilters text params) :
    List.Forall₂ (Reads text) (params.filterMap (whereClause text))
      (params.filterMap (whereClauseTemplate text)) := by
  induction params with
  | nil => exact .nil
  | cons param params ih =>
      have ih := ih fun p hp => h p (List.mem_cons_of_mem _ hp)
      have hkeys := h param List.mem_cons_self
      obtain ⟨key, val⟩ := param
      rw [List.filterMap_cons, List.filterMap_cons]
      simp only [whereClause, whereClauseTemplate, filterKeys] at hkeys ⊢
      by_cases hnot : notFilters.any fun k => k.toList = key
      · rw [if_pos hnot, if_pos hnot]
        exact ih
      rw [if_neg hnot] at hkeys
      rw [if_neg hnot, if_neg hnot]
      by_cases hor : key = "or".toList
      · rw [if_pos hor] at hkeys
        rw [if_pos hor, if_pos hor]
        cases hparts : orParts val with
        | nil => exact ih
        | cons part parts =>
            rw [hparts] at hkeys
            refine .cons (reads_inParens hascii (joined hascii (by simp [separators])
              (reads_map fun p hp => ?_))) ih
            exact reads_filter hascii (hkeys _ (List.mem_map_of_mem hp)) p.2
      · rw [if_neg hor] at hkeys
        rw [if_neg hor, if_neg hor]
        exact .cons (reads_filter hascii (hkeys _ (List.mem_singleton.mpr rfl)) val) ih

theorem reads_whereText {params : Params} (h : PlainFilters text params) :
    Reads text (whereText text params) (whereTemplate text params) ∧
      opens (whereText text params) := by
  have hclauses := reads_whereClauses hascii h
  unfold whereText whereTemplate buildWhereClauses
  revert hclauses
  generalize params.filterMap (whereClause text) = clauses
  generalize params.filterMap (whereClauseTemplate text) = templates
  intro hclauses
  cases hclauses with
  | nil => exact ⟨.nil, rfl⟩
  | cons hclause hclauses =>
      exact ⟨opening hascii (s := " WHERE ") (by simp [openings])
        (joined hascii (s := " AND ") (by simp [separators]) (.cons hclause hclauses)), rfl⟩

end Wheres

/-! ## Columns and order -/

section Columns

variable {text : TextLibrary} (hascii : text.LikeAscii)
include hascii

theorem reads_column {colExpr : Chars} (h : PlainColumn text colExpr) :
    Reads text (formatSelectCol text colExpr) (columnTemplate text colExpr) := by
  unfold PlainColumn at h
  unfold formatSelectCol columnTemplate
  cases hsplit : splitOnce ':' colExpr with
  | some p =>
      rw [hsplit] at h
      exact separated hascii (s := " AS ") (by simp [separators]) (reads_key hascii h.1)
        (reads_nameToken hascii h.2)
  | none =>
      rw [hsplit] at h
      simp only
      split
      · next hstar =>
          have htrim : trimmed text ['*'] = ['*'] := by
            have hspace : text.isWhitespace '*' = false := by
              rw [hascii.isWhitespace _ (by decide)]
              decide
            simp [trimmed, Text.trim, Text.trimStart, Text.trimEnd, hspace]
          rw [hstar, htrim]
          exact reads_own hascii (s := "*") (by decide)
      · next hstar => exact reads_key hascii (h hstar)

theorem reads_select {select : Chars}
    (h : ∀ col ∈ selectedColumns text select, PlainColumn text col) :
    Reads text (selectText text select) (selectTemplate text select) := by
  have hstar : Reads text ['*'] (ownTokens "*") := reads_own hascii (s := "*") (by decide)
  have hcolumns := reads_map (f := formatSelectCol text) (g := columnTemplate text)
    fun col hcol => reads_column hascii (h col hcol)
  unfold selectText selectTemplate parseSelectEmbedding
  cases hcols : selectedColumns text select with
  | nil =>
      by_cases hembedded : ((selectPieces select [] 0).filterMap (embeddedRelation text)).isEmpty
      · simpa [hembedded, Text.join] using hstar
      · simpa [hembedded] using hstar
  | cons col cols =>
      rw [hcols] at hcolumns
      simpa using joined hascii (s := ", ") (by simp [separators]) hcolumns

omit hascii in
theorem orderWords_mem (tokens : List Chars) :
    (orderWords tokens).1 ∈ ["ASC", "DESC"] ∧
      (orderWords tokens).2 ∈ ["", " NULLS FIRST", " NULLS LAST"] := by
  have hstep : ∀ (tokens : List Chars) (words : String × String), words.1 ∈ ["ASC", "DESC"] ∧
      words.2 ∈ ["", " NULLS FIRST", " NULLS LAST"] →
        (tokens.foldl orderWord words).1 ∈ ["ASC", "DESC"] ∧
          (tokens.foldl orderWord words).2 ∈ ["", " NULLS FIRST", " NULLS LAST"] := by
    intro tokens
    induction tokens with
    | nil => exact fun _ h => h
    | cons token tokens ih =>
        intro words h
        refine ih _ ?_
        unfold orderWord
        split_ifs
        · exact ⟨by simp, h.2⟩
        · exact ⟨by simp, h.2⟩
        · exact ⟨h.1, by simp⟩
        · exact ⟨h.1, by simp⟩
        · exact h
  exact hstep tokens _ (by simp)

theorem reads_order {order : Chars} (h : ∀ p ∈ orderParts text order, PlainKey text p.1) :
    Reads text (parsePostgrestOrder text order) (orderTemplate text order) ∧
      opens (parsePostgrestOrder text order) := by
  unfold parsePostgrestOrder orderTemplate
  cases hparts : orderParts text order with
  | nil => exact ⟨.nil, rfl⟩
  | cons part parts =>
      rw [hparts] at h
      have hclauses := reads_map (l := part :: parts) (f := fun p => orderClause p.1 p.2)
        (g := fun p => keyTemplate text p.1 ++
          ownTokens (" " ++ (orderWords p.2).1 ++ (orderWords p.2).2)) fun p hp => by
            obtain ⟨hdir, hnulls⟩ := orderWords_mem p.2
            have hwords : ∀ dir ∈ ["ASC", "DESC"], ∀ nulls ∈ ["", " NULLS FIRST", " NULLS LAST"],
                " " ++ dir ++ nulls ∈ closings := by
              decide
            exact closing hascii (hwords _ hdir _ hnulls) (reads_key hascii (h p hp))
      exact ⟨opening hascii (s := " ORDER BY ") (by simp [openings])
        (joined hascii (s := ", ") (by simp [separators]) hclauses), rfl⟩

end Columns

/-! ## Statements -/

section Statements

variable {text : TextLibrary} (hascii : text.LikeAscii) {table : Chars}
  (htable : (identifierText text table).isSome) {params : Params}
include hascii htable

theorem reads_get (hfilters : PlainFilters text params)
    (hselect : ∀ col ∈ selectedColumns text ((param params "select").getD ['*']),
      PlainColumn text col)
    (horder : ∀ order ∈ param params "order", ∀ p ∈ orderParts text order, PlainKey text p.1) :
    Reads text (getSql text table params) (getTemplate text table params) := by
  obtain ⟨hwhere, hopens⟩ := reads_whereText hascii hfilters
  have hselect := opening hascii (s := "SELECT ") (by simp [openings])
    (reads_select hascii hselect)
  have hfrom := (separated hascii (s := " FROM ") (by simp [separators]) hselect
    (reads_nameToken hascii htable)).append hwhere hopens
  unfold getSql getTemplate
  cases horderText : param params "order" with
  | none => exact hfrom.append .nil rfl
  | some order =>
      obtain ⟨horder, hopens⟩ := reads_order hascii (horder order horderText)
      exact hfrom.append horder hopens

theorem reads_delete (hfilters : PlainFilters text params) :
    Reads text (deleteSql text table params) (deleteTemplate text table params) := by
  obtain ⟨hwhere, hopens⟩ := reads_whereText hascii hfilters
  have hfrom := opening hascii (s := "DELETE FROM ") (by simp [openings])
    (reads_nameToken hascii htable)
  exact closing hascii (s := " RETURNING *") (by simp [closings]) (hfrom.append hwhere hopens)

variable {lib : Library}

omit htable in
theorem reads_assignment {name : Chars} {val : Json} (hname : (identifierText text name).isSome)
    (hval : PlainJson text val) :
    Reads text (assignment lib name val) (assignmentTemplate text lib name val) :=
  separated hascii (s := " = ") (by simp [separators]) (reads_nameToken hascii hname)
    (reads_json hascii lib hval)

theorem reads_update {obj : Members}
    (hobj : ∀ m ∈ obj, (identifierText text m.1.toList).isSome ∧ PlainJson text m.2) :
    Reads text ("UPDATE ".toList ++ table ++ " SET ".toList ++
        Text.join ", ".toList (obj.map fun (k, v) => assignment lib k.toList v))
      (ownTokens "UPDATE " ++ [nameToken text table] ++ ownTokens " SET " ++
        (ownTokens ", ").intercalate
          (obj.map fun (k, v) => assignmentTemplate text lib k.toList v)) := by
  have hassignments := joined hascii (s := ", ") (by simp [separators])
    (reads_map (l := obj) (f := fun m => assignment lib m.1.toList m.2)
      (g := fun m => assignmentTemplate text lib m.1.toList m.2) fun m hm =>
        reads_assignment hascii (hobj m hm).1 (hobj m hm).2)
  have hupdate := opening hascii (s := "UPDATE ") (by simp [openings])
    (reads_nameToken hascii htable)
  exact separated hascii (s := " SET ") (by simp [separators]) hupdate hassignments

theorem reads_patch {obj : Members} (hfilters : PlainFilters text params)
    (hobj : ∀ m ∈ obj, (identifierText text m.1.toList).isSome ∧ PlainJson text m.2) :
    Option.Rel (Reads text) (patchSql text lib table params obj)
      (patchTemplate text lib table params obj) := by
  cases obj with
  | nil => exact .none
  | cons m obj =>
      obtain ⟨hwhere, hopens⟩ := reads_whereText hascii hfilters
      exact .some (closing hascii (s := " RETURNING *") (by simp [closings])
        ((reads_update hascii htable hobj).append hwhere hopens))

/-- The columns of the table are names. -/
def PlainColumns (text : TextLibrary) (schema : TableSchema) : Prop :=
  ∀ c ∈ schema.columns, (identifierText text c.name.toList).isSome

omit hascii htable in
theorem mem_of_lookup {obj : Members} {k : String} {v : Json} (h : obj.lookup k = some v) :
    (k, v) ∈ obj := by
  obtain ⟨l₁, l₂, rfl, -⟩ := List.lookup_eq_some_iff.mp h
  exact List.mem_append_right _ List.mem_cons_self

omit hascii htable in
theorem insertColumns_plain {schema : TableSchema} {obj : Members}
    (hschema : PlainColumns text schema) (hobj : ∀ m ∈ obj, PlainJson text m.2) :
    ∀ c ∈ insertColumns schema obj, (identifierText text c.1.toList).isSome ∧ PlainJson text c.2 := by
  have hpresent : ∀ c ∈ schema.columns.filterMap fun col =>
      (obj.lookup col.name).map fun val => (col.name, val),
      (identifierText text c.1.toList).isSome ∧ PlainJson text c.2 := by
    intro c hc
    obtain ⟨col, hcol, hval⟩ := List.mem_filterMap.mp hc
    obtain ⟨val, hlookup, rfl⟩ := Option.map_eq_some_iff.mp hval
    exact ⟨hschema col hcol, hobj _ (mem_of_lookup hlookup)⟩
  unfold insertColumns
  simp only
  split
  · next col cols _ hcolumns =>
      intro c hc
      obtain rfl := List.mem_singleton.mp hc
      exact ⟨hschema col (hcolumns ▸ List.mem_cons_self), trivial⟩
  · exact hpresent

theorem reads_insert {schema : TableSchema} (hschema : PlainColumns text schema) {obj : Members}
    (hobj : ∀ m ∈ obj, PlainJson text m.2) :
    Option.Rel (Reads text) (insertSql lib table schema obj)
      (insertTemplate text lib table schema obj) := by
  have hplain := insertColumns_plain hschema hobj
  unfold insertSql insertTemplate
  cases hcolumns : insertColumns schema obj with
  | nil => exact .none
  | cons c columns =>
      rw [hcolumns] at hplain
      have hnames := joined hascii (s := ", ") (by simp [separators])
        (reads_map (l := c :: columns) fun c hc => reads_nameToken hascii (hplain c hc).1)
      have hvalues := joined hascii (s := ", ") (by simp [separators])
        (reads_map (l := c :: columns) fun c hc => reads_json hascii lib (hplain c hc).2)
      have hinto := opening hascii (s := "INSERT INTO ") (by simp [openings])
        (reads_nameToken hascii htable)
      exact .some (closing hascii (s := ") RETURNING *") (by simp [closings])
        (separated hascii (s := ") VALUES (") (by simp [separators])
          (separated hascii (s := " (") (by simp [separators]) hinto hnames) hvalues))

theorem reads_upsert {schema : TableSchema} (hschema : PlainColumns text schema) {obj : Members}
    (hconflict : ∀ col ∈ param params "on_conflict", (identifierText text col).isSome)
    (hobj : ∀ m ∈ obj, PlainJson text m.2) :
    Option.Rel (Reads text) (upsertSql lib table schema params obj)
      (upsertTemplate text lib table schema params obj) := by
  unfold upsertSql upsertTemplate
  simp only
  cases hcol : (param params "on_conflict").or
      ((schema.columns.find? (·.isPrimaryKey)).map fun c => c.name.toList) with
  | none => exact .none
  | some col =>
      have hname : (identifierText text col).isSome := by
        rcases Option.or_eq_some_iff.mp hcol with hcol | ⟨-, hcol⟩
        · exact hconflict col hcol
        · obtain ⟨c, hfind, rfl⟩ := Option.map_eq_some_iff.mp hcol
          exact hschema c (List.mem_of_find?_eq_some hfind)
      simp only [Option.bind_eq_bind, Option.bind_some]
      cases hval : obj.lookup (String.ofList col) with
      | none => exact .none
      | some colVal =>
          have hcolVal := hobj _ (mem_of_lookup hval)
          have hmembers : ∀ m ∈ upsertMembers schema col obj,
              (identifierText text m.1.toList).isSome ∧ PlainJson text m.2 := by
            intro m hm
            obtain ⟨hin, hkeep⟩ := List.mem_filter.mp hm
            obtain ⟨c, hc, heq⟩ := List.any_eq_true.mp (of_decide_eq_true hkeep).2
            exact ⟨by simpa using of_decide_eq_true heq ▸ hschema c hc, hobj m hin⟩
          simp only [Option.bind_some]
          generalize upsertMembers schema col obj = members at hmembers
          cases members with
          | nil => exact .none
          | cons m members =>
              exact .some (closing hascii (s := " RETURNING *") (by simp [closings])
                (separated hascii (s := " WHERE ") (by simp [separators])
                  (reads_update hascii htable hmembers) (reads_assignment hascii hname hcolVal)))

omit hascii htable in
theorem forall₂_toList {a : Option Chars} {b : Option (List Token)}
    (h : Option.Rel (Reads text) a b) : List.Forall₂ (Reads text) a.toList b.toList := by
  cases h with
  | none => exact .nil
  | some h => exact .cons h .nil

theorem reads_request {schema : TableSchema} (hschema : PlainColumns text schema)
    {method : Method} {body : Json} (h : PlainRequest text method params body) :
    List.Forall₂ (Reads text) (requestSql text lib method table schema params body)
      (requestTemplates text lib method table schema params body) := by
  cases method with
  | get => exact .cons (reads_get hascii htable h.1 h.2.1 h.2.2) .nil
  | post =>
      have hobjects := h.2
      unfold requestSql requestTemplates
      generalize bodyObjects body = objects at hobjects
      induction objects with
      | nil => exact .nil
      | cons obj objects ih =>
          have hobj := hobjects obj List.mem_cons_self
          refine List.rel_append (List.rel_append ?_ ?_) (ih fun o ho =>
            hobjects o (List.mem_cons_of_mem _ ho))
          · exact forall₂_toList (reads_insert hascii htable hschema hobj)
          · exact forall₂_toList (reads_upsert hascii htable hschema h.1 hobj)
  | patch =>
      cases body with
      | object members => exact forall₂_toList (reads_patch hascii htable h.1 (h.2 members rfl))
      | _ => exact .nil
  | delete => exact .cons (reads_delete hascii htable h) .nil

end Statements

/-! ## Requests on a table with two integers -/

def pairsSchema : TableSchema :=
  ⟨"pairs", [⟨"a", .integer, true, true⟩, ⟨"b", .integer, false, false⟩], 0, false⟩

def onePair : Database :=
  Database.runAll plainLibrary plainEnvironment [insertPair (.intLiteral 2)] pairs

/-- The statement that a text is, when it is one. -/
def statementOf (sql : Chars) : Option Statement :=
  match parse asciiLibrary (fun _ => "") (String.ofList sql) with
  | .ok stmt => some stmt
  | _ => none

def injected : Chars :=
  deleteSql asciiLibrary "pairs".toList (parseQueryParams "b>0/**/OR/**/a=eq.5".toList)

end ChocoBase.Server.Rest
