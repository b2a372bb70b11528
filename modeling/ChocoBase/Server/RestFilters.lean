import ChocoBase.Foundation.LastPairs
import ChocoBase.Plan.Expr
import ChocoBase.Server.RestTemplates
import ChocoBase.Sql.Conjunctions
import ChocoBase.Sql.SplitStatements

/-!
# Filters of REST requests

Every filter of a query string states a condition on the rows.  The clauses of the filters
stand side by side behind `WHERE`, and what the parser reads of them is the conjunction of
the conditions.  The query string goes through a hash map, which keeps one value for a key.
-/

namespace ChocoBase.Server.Rest

open ChocoBase.Foundation ChocoBase.Sql ChocoBase.Types ChocoBase.Auth
open Text (Chars)
open ChocoBase.Sql.Parser (parseWhereExpr parseComparison parseAnd parseOr combined endsAt left only
  literalOf optionalExpr tokensOf Printable)

/-! ## The condition of a filter -/

def Comparison.op : Comparison → BinOp
  | .eq => .eq
  | .ne => .notEq
  | .gt => .gt
  | .ge => .gtEq
  | .lt => .lt
  | .le => .ltEq

def valueExpr (s : Chars) : Expr :=
  match parseI64 s with
  | some n => .intLiteral n
  | none =>
      if equalsIgnoringCase s "true" then .boolLiteral true
      else if equalsIgnoringCase s "false" then .boolLiteral false
      else .stringLiteral (String.ofList s)

def isCondition (key : Expr) (rhs : Chars) (negated : Bool) : Expr :=
  if equalsIgnoringCase rhs "null" then .isNull key negated
  else if equalsIgnoringCase rhs "not_null" || equalsIgnoringCase rhs "not.null" then
    .isNull key !negated
  else if equalsIgnoringCase rhs "true" then .binaryOp .eq key (.boolLiteral !negated)
  else if equalsIgnoringCase rhs "false" then .binaryOp .eq key (.boolLiteral negated)
  else .isNull key false

section Conditions

variable (text : TextLibrary)

/-- The column, and the path in it. -/
def keyExpr (key : Chars) : Expr :=
  (keyPath key).foldl
    (fun e p => .jsonExtract e ((segmentOf p.2).getD "") (decide (p.1 = .arrowText)))
    (.column ((identifierText text (upToArrow key).1).getD ""))

def likeCondition (key : Expr) (pattern : Chars) (negated : Bool) : Expr :=
  .like key (String.ofList pattern) negated

def itemConditions (key : Expr) (items : List Chars) (negated : Bool) : List Expr :=
  items.map fun item =>
    likeCondition key (around (trimMatches '\'' (trimMatches '"' item))) negated

/-- What `op.rhs` says of a key; a negation is that of the whole. -/
def operatorCondition (key : Expr) (op : Operator) (rhs whole : Chars) (negated : Bool) : Expr :=
  match op with
  | .compare c => .binaryOp (if negated then c.negate else c).op key (valueExpr rhs)
  | .like => likeCondition key rhs negated
  | .search =>
      let found := Expr.ftsMatch key (String.ofList (searched rhs))
      if negated then .binaryOp .eq found (.boolLiteral false) else found
  | .is => isCondition key rhs negated
  | .contains =>
      (combined (if negated then .or else .and) (itemConditions key (listItems text rhs) negated)).getD
        (likeCondition key (around rhs) negated)
  | .contained => likeCondition key (around rhs) negated
  | .overlaps =>
      (combined (if negated then .and else .or) (itemConditions key (listItems text rhs) negated)).getD
        (likeCondition key (around rhs) negated)
  | .oneOf =>
      let cleaned := trimEndMatches ')' (trimStartMatches '(' rhs)
      .inList key ((Text.splitOn ',' cleaned).map fun item => valueExpr (trimmed text item)) negated
  | .unknown => .binaryOp .eq key (valueExpr whole)

def filterCondition (key val : Chars) : Expr :=
  let key := keyExpr text key
  let (negated, rest) := match stripPrefix "not.".toList val with
    | some stripped => (true, stripped)
    | none => (false, val)
  match splitOnce '.' rest with
  | some (op, rhs) => operatorCondition text key (operatorOf (String.ofList op)) rhs rest negated
  | none => .binaryOp .eq key (valueExpr rest)

/-- The condition of a pair of the query string, if it is a filter. -/
def pairCondition (pair : Chars × Chars) : Option Expr :=
  let (key, val) := pair
  if notFilters.any fun k => k.toList = key then none
  else if key = "or".toList then
    combined .or ((orParts val).map fun (k, v) => filterCondition text k v)
  else some (filterCondition text key val)

/-- `NOT` stands in front of the negation of this operator. -/
def takesNot (op : Operator) (rhs : Chars) : Bool :=
  match op with
  | .search => true
  | .overlaps => !(listItems text rhs).isEmpty
  | _ => false

/-- A full-text search or an overlap with a list that is negated. -/
def negatesCall (val : Chars) : Bool :=
  match stripPrefix "not.".toList val with
  | none => false
  | some rest =>
      match splitOnce '.' rest with
      | none => false
      | some (op, rhs) => takesNot text (operatorOf (String.ofList op)) rhs

/-- A filter, or a part of one, is a negated search or a negated overlap. -/
def pairNegatesCall (pair : Chars × Chars) : Bool :=
  let (key, val) := pair
  if notFilters.any fun k => k.toList = key then false
  else if key = "or".toList then (orParts val).any fun (_, v) => negatesCall text v
  else negatesCall text val

end Conditions

/-! ## Reading a filter -/

theorem literalOf_valueToken (s : Chars) : literalOf (valueToken s) = some (valueExpr s) := by
  unfold valueToken valueExpr
  cases parseI64 s with
  | some n => rfl
  | none =>
      dsimp only
      split
      · rfl
      · split <;> rfl

theorem tokensOf_valueExpr (s : Chars) : tokensOf (valueExpr s) = [valueToken s] := by
  unfold valueToken valueExpr
  cases parseI64 s with
  | some n => rfl
  | none =>
      dsimp only
      split
      · rfl
      · split <;> rfl

theorem printable_valueExpr (s : Chars) : Printable (valueExpr s) := by
  unfold valueExpr
  cases parseI64 s with
  | some n => exact .intLiteral n
  | none =>
      dsimp only
      split
      · exact .boolLiteral true
      · split
        · exact .boolLiteral false
        · exact .stringLiteral _

/-- The tokens of the words that stand between the parts of a condition. -/
structure ConditionWords : Prop where
  symbol : ∀ c : Comparison, ownTokens c.symbol = [Parser.opToken c.op]
  like : ∀ negated : Bool, ownTokens (if negated then " NOT LIKE " else " LIKE ") =
    Parser.notTokens negated ++ [.like]
  isNull : ∀ negated : Bool, ownTokens (if negated then " IS NOT NULL" else " IS NULL") =
    .is :: (Parser.notTokens negated ++ [.null])
  isBool : ∀ b : Bool, ownTokens (if b then " = TRUE" else " = FALSE") =
    Parser.opToken .eq :: [if b then Token.true else Token.false]
  inList : ∀ negated : Bool, ownTokens (if negated then " NOT IN (" else " IN (") =
    Parser.notTokens negated ++ [.«in», .lParen]
  joins : ∀ negated : Bool, ownTokens (if negated then " OR " else " AND ") =
    [Parser.opToken (if negated then .or else .and)]
  lParen : ownTokens "(" = [.lParen]
  rParen : ownTokens ")" = [.rParen]
  comma : ownTokens ", " = [.comma]
  search : ownTokens "FTS_MATCH(" = [.ftsMatch, .lParen]
  notSearch : ownTokens "NOT FTS_MATCH(" = [.not, .ftsMatch, .lParen]
  empty : ownTokens "" = []
  not : ownTokens "NOT " = [.not]
  filter : ownTokens " WHERE " = [.where]

theorem conditionWords : ConditionWords where
  symbol c := by cases c <;> decide +kernel
  like negated := by cases negated <;> decide +kernel
  isNull negated := by cases negated <;> decide +kernel
  isBool b := by cases b <;> decide +kernel
  inList negated := by cases negated <;> decide +kernel
  joins negated := by cases negated <;> decide +kernel
  lParen := by decide +kernel
  rParen := by decide +kernel
  comma := by decide +kernel
  search := by decide +kernel
  notSearch := by decide +kernel
  empty := by decide +kernel
  not := by decide +kernel
  filter := by decide +kernel

theorem opToken_op (c : Comparison) : ownTokens c.symbol = [Parser.opToken c.op] :=
  conditionWords.symbol c

section Reading

variable {text : TextLibrary} {d : Token → String} {w : Parse Expr} {key : Expr}
  {ts : List Token}

theorem sign_of_mem_pathSegments {fuel : Nat} {s : Chars} {p : Token × Chars}
    (h : p ∈ pathSegments fuel s) : p.1 = .arrowText ∨ p.1 = .arrow := by
  induction fuel generalizing s with
  | zero => cases h
  | succ fuel ih =>
      cases s with
      | nil => cases h
      | cons c cs =>
          simp only [pathSegments] at h
          split at h
          · rcases List.mem_cons.mp h with rfl | h
            · exact .inl rfl
            · exact ih h
          · split at h
            · rcases List.mem_cons.mp h with rfl | h
              · exact .inr rfl
              · exact ih h
            · cases h

theorem reads_keyExpr (key : Chars) :
    Parser.Reads d w 3 (keyTemplate text key) (keyExpr text key) := by
  have hpath : ∀ (path : List (Token × Chars)), (∀ p ∈ path, p.1 = .arrowText ∨ p.1 = .arrow) →
      ∀ ts e, Parser.Reads d w 3 ts e → Parser.Reads d w 3 (ts ++ pathTemplate path)
        (path.foldl
          (fun e p => .jsonExtract e ((segmentOf p.2).getD "") (decide (p.1 = .arrowText))) e) := by
    intro path
    induction path with
    | nil => exact fun _ ts e h => by simpa [pathTemplate] using h
    | cons p path ih =>
        intro hsigns ts e h
        have hstep := h.jsonExtract ((segmentOf p.2).getD "") (decide (p.1 = .arrowText))
        have hsign : (if decide (p.1 = .arrowText) = true then Token.arrowText else .arrow) = p.1 := by
          rcases hsigns p List.mem_cons_self with hp | hp <;> simp [hp]
        rw [hsign] at hstep
        have hrest := ih (fun q hq => hsigns q (List.mem_cons_of_mem _ hq)) _ _ hstep
        simpa [pathTemplate, List.append_assoc] using hrest
  exact hpath (keyPath key) (fun p hp => sign_of_mem_pathSegments hp) [nameToken text _] _
    (Parser.Reads.column _)

theorem reads_valueExpr (s : Chars) : Parser.Reads d w 3 [valueToken s] (valueExpr s) :=
  Parser.Reads.literal (literalOf_valueToken s)

theorem reads_compareCondition (h : Parser.Reads d w 3 ts key) (c : Comparison) (rhs : Chars) :
    Parser.Reads d w 2 (compareTemplate ts c rhs) (.binaryOp c.op key (valueExpr rhs)) := by
  rw [compareTemplate, opToken_op, List.append_assoc]
  exact h.comparison (reads_valueExpr rhs) (by cases c <;> rfl)

theorem reads_likeCondition (h : Parser.Reads d w 3 ts key) (pattern : Chars) (negated : Bool) :
    Parser.Reads d w 2 (likeTemplate ts pattern negated) (likeCondition key pattern negated) := by
  have hwords : ownTokens (if negated then " NOT LIKE " else " LIKE ") =
      Parser.notTokens negated ++ [.like] := conditionWords.like negated
  rw [likeTemplate, hwords, List.append_assoc, List.append_assoc]
  exact h.like _ negated

theorem reads_isCondition (h : Parser.Reads d w 3 ts key) (rhs : Chars) (negated : Bool) :
    Parser.Reads d w 2 (ts ++ ownTokens (isWords rhs negated)) (isCondition key rhs negated) := by
  have hnull : ∀ negated : Bool, Parser.Reads d w 2
      (ts ++ ownTokens (if negated then " IS NOT NULL" else " IS NULL")) (.isNull key negated) := by
    intro negated
    have hwords : ownTokens (if negated then " IS NOT NULL" else " IS NULL") =
        .is :: (Parser.notTokens negated ++ [.null]) := conditionWords.isNull negated
    rw [hwords]
    exact h.isNull negated
  have hbool : ∀ b : Bool, Parser.Reads d w 2
      (ts ++ ownTokens (if b then " = TRUE" else " = FALSE")) (.binaryOp .eq key (.boolLiteral b)) := by
    intro b
    have hwords : ownTokens (if b then " = TRUE" else " = FALSE") =
        Parser.opToken .eq :: [if b then Token.true else Token.false] := conditionWords.isBool b
    rw [hwords]
    exact h.comparison (Parser.Reads.literal (by cases b <;> rfl)) rfl
  unfold isWords isCondition
  split
  · exact hnull negated
  split
  · cases negated
    · exact hnull true
    · exact hnull false
  split
  · cases negated
    · exact hbool true
    · exact hbool false
  split
  · cases negated
    · exact hbool false
    · exact hbool true
  · exact hnull false

end Reading

/-! ## Readable filters -/

section Readable

variable {text : TextLibrary} {d : Token → String} {key : Expr} {ts : List Token}

example : operatorTemplate asciiLibrary [.identifier "a"] .is "null".toList [] true =
    [.identifier "a", .is, .not, .null] := by
  decide +kernel

/-- What is read at some level is read by the parser of conditions. -/
theorem takes_of_reads {n k : Nat} {e : Expr} (hk : k ≤ 3)
    (h : Parser.Reads d (parseWhereExpr d n) k ts e) :
    Takes left (parseWhereExpr d (n + 1)) ts e (endsAt 0) :=
  (h.weaken (Nat.zero_le k) hk).parseOr

theorem reads_group {op : BinOp} (hop : op = .and ∨ op = .or) {n : Nat}
    {list : List (Expr × List Token)} (hne : list ≠ [])
    (h : ∀ j ∈ list, Parser.Reads d (parseWhereExpr d n) 2 j.2 j.1) :
    ∃ e, combined op (list.map Prod.fst) = some e ∧
      Parser.Reads d (parseWhereExpr d (n + 1)) 3
        (Parser.inParens ([Parser.opToken op].intercalate (list.map Prod.snd))) e := by
  obtain ⟨e, he, hreads⟩ := Parser.Reads.combined hop hne h
  exact ⟨e, he, Parser.Reads.parens (takes_of_reads (Nat.zero_le 3) hreads)⟩

theorem parensTemplate_eq (ts : List Token) : parensTemplate ts = Parser.inParens ts := by
  rw [parensTemplate, conditionWords.lParen, conditionWords.rParen]
  rfl

theorem itemTemplates_eq (items : List Chars) (negated : Bool) :
    ∃ list : List (Expr × List Token), list.map Prod.fst = itemConditions key items negated ∧
      list.map Prod.snd = itemTemplates ts items negated ∧
      (items ≠ [] → list ≠ []) ∧
      ∀ w, Parser.Reads d w 3 ts key → ∀ j ∈ list, Parser.Reads d w 2 j.2 j.1 := by
  refine ⟨items.map fun item =>
    let pattern := around (trimMatches '\'' (trimMatches '"' item))
    (likeCondition key pattern negated, likeTemplate ts pattern negated), ?_, ?_, ?_, ?_⟩
  · rw [List.map_map]
    rfl
  · rw [List.map_map]
    rfl
  · simp
  · intro w hkey j hj
    obtain ⟨item, -, rfl⟩ := List.mem_map.mp hj
    exact reads_likeCondition hkey _ negated

/-- Items with an operator between them, in parentheses. -/
theorem reads_itemGroup {op : BinOp} (hop : op = .and ∨ op = .or) {n : Nat}
    (hkey : Parser.Reads d (parseWhereExpr d n) 3 ts key) {items : List Chars} (hne : items ≠ [])
    (negated : Bool) (fallback : Expr) :
    Parser.Reads d (parseWhereExpr d (n + 1)) 3
      (parensTemplate ([Parser.opToken op].intercalate (itemTemplates ts items negated)))
      ((combined op (itemConditions key items negated)).getD fallback) := by
  obtain ⟨list, hfst, hsnd, hlist, hreads⟩ :=
    @itemTemplates_eq d key ts items negated
  obtain ⟨e, he, hgroup⟩ := reads_group hop (hlist hne) (hreads _ hkey)
  rw [← hfst, ← hsnd, he, parensTemplate_eq]
  exact hgroup

theorem reads_operatorCondition {n : Nat} (hkey : ∀ w, Parser.Reads d w 3 ts key) (op : Operator)
    (rhs whole : Chars) {negated : Bool} (h : (negated && takesNot text op rhs) = false) :
    Parser.Reads d (parseWhereExpr d (n + 1)) 2 (operatorTemplate text ts op rhs whole negated)
      (operatorCondition text key op rhs whole negated) := by
  cases op with
  | compare c => exact reads_compareCondition (hkey _) _ rhs
  | like => exact reads_likeCondition (hkey _) rhs negated
  | search =>
      obtain rfl : negated = false := by simpa [takesNot] using h
      have hfound := Parser.Reads.ftsMatch (d := d)
        (takes_of_reads (Nat.le_refl 3) (hkey (parseWhereExpr d n))) (String.ofList (searched rhs))
      simpa [operatorTemplate, operatorCondition, conditionWords.search, conditionWords.comma,
        conditionWords.rParen] using hfound.weaken (Nat.le_succ 2) (Nat.le_refl 3)
  | is => exact reads_isCondition (hkey _) rhs negated
  | contains =>
      have hwords : ownTokens (if negated then " OR " else " AND ") =
          [Parser.opToken (if negated then .or else .and)] := conditionWords.joins negated
      simp only [operatorTemplate, operatorCondition, hwords]
      cases hitems : listItems text rhs with
      | nil => exact reads_likeCondition (hkey _) _ negated
      | cons item items =>
          exact (reads_itemGroup (by cases negated <;> simp) (hkey _) (List.cons_ne_nil _ _) negated
            _).weaken (Nat.le_succ 2) (Nat.le_refl 3)
  | contained => exact reads_likeCondition (hkey _) _ negated
  | overlaps =>
      simp only [operatorTemplate, operatorCondition]
      cases hitems : listItems text rhs with
      | nil => exact reads_likeCondition (hkey _) _ negated
      | cons item items =>
          obtain rfl : negated = false := by simpa [takesNot, hitems] using h
          have hwords : ownTokens " OR " = [Parser.opToken .or] := conditionWords.joins true
          simp only [Bool.false_eq_true, if_false, conditionWords.empty, hwords, List.nil_append]
          exact (reads_itemGroup (.inr rfl) (hkey _) (List.cons_ne_nil _ _) false
            _).weaken (Nat.le_succ 2) (Nat.le_refl 3)
  | oneOf =>
      have hopen : ownTokens (if negated then " NOT IN (" else " IN (") =
          Parser.notTokens negated ++ [.«in», .lParen] := conditionWords.inList negated
      generalize hparts : Text.splitOn ',' (trimEndMatches ')' (trimStartMatches '(' rhs)) = parts
      have hne : parts.map (fun item => valueExpr (trimmed text item)) ≠ [] := by
        rw [← hparts]
        exact fun h => Text.splitOn_ne_nil _ _ (List.map_eq_nil_iff.mp h)
      have htokens : Parser.listTokens (parts.map fun item => valueExpr (trimmed text item)) =
          parts.map fun item => [valueToken (trimmed text item)] := by
        rw [Parser.listTokens_eq_map, List.map_map]
        exact List.map_congr_left fun item _ => tokensOf_valueExpr _
      have hlist := (hkey (parseWhereExpr d (n + 1))).inList hne (fun x hx => by
        obtain ⟨item, -, rfl⟩ := List.mem_map.mp hx
        refine ⟨printable_valueExpr _, ?_⟩
        rw [tokensOf_valueExpr]
        exact takes_of_reads (Nat.le_refl 3) (reads_valueExpr _)) negated
      simpa [operatorTemplate, operatorCondition, hopen, conditionWords.comma,
        conditionWords.rParen, hparts, htokens, Parser.inParens] using hlist
  | unknown => exact reads_compareCondition (hkey _) .eq whole

theorem reads_filterCondition (n : Nat) (key : Chars) {val : Chars}
    (h : negatesCall text val = false) :
    Parser.Reads d (parseWhereExpr d (n + 1)) 2 (filterTemplate text key val)
      (filterCondition text key val) := by
  have hkey : ∀ w, Parser.Reads d w 3 (keyTemplate text key) (keyExpr text key) :=
    fun w => reads_keyExpr key
  unfold filterTemplate filterCondition
  unfold negatesCall at h
  cases hnot : stripPrefix "not.".toList val with
  | none =>
      dsimp only
      cases splitOnce '.' val with
      | none => exact reads_compareCondition (hkey _) .eq val
      | some p => exact reads_operatorCondition hkey _ p.2 val (by simp)
  | some rest =>
      rw [hnot] at h
      dsimp only at h ⊢
      cases hsplit : splitOnce '.' rest with
      | none => exact reads_compareCondition (hkey _) .eq rest
      | some p =>
          rw [hsplit] at h
          exact reads_operatorCondition hkey _ p.2 rest (by simpa using h)

example : filterTemplate asciiLibrary "a".toList "not.in.(x,2)".toList =
    [.identifier "a", .not, .«in», .lParen, .stringLiteral "x", .comma, .intLiteral 2, .rParen] := by
  decide +kernel

/-- Where the operator takes `NOT`, the parser expects a subquery behind it. -/
theorem operatorTemplate_refused {op : Operator} {rhs : Chars} (h : takesNot text op rhs = true)
    (whole : Chars) :
    ∃ t us, operatorTemplate text ts op rhs whole true = .not :: t :: us ∧ t ≠ .exists := by
  cases op with
  | search =>
      simp only [operatorTemplate, if_true, conditionWords.notSearch]
      exact ⟨.ftsMatch, _, rfl, by rintro ⟨⟩⟩
  | overlaps =>
      simp only [operatorTemplate, if_true, conditionWords.not, parensTemplate_eq]
      cases hitems : listItems text rhs with
      | nil => simp [takesNot, hitems] at h
      | cons item items => exact ⟨.lParen, _, rfl, by rintro ⟨⟩⟩
  | _ => cases h

theorem filterTemplate_refused (key : Chars) {val : Chars} (h : negatesCall text val = true) :
    ∃ t us, filterTemplate text key val = .not :: t :: us ∧ t ≠ .exists := by
  unfold filterTemplate
  unfold negatesCall at h
  cases hnot : stripPrefix "not.".toList val with
  | none => rw [hnot] at h; cases h
  | some rest =>
      rw [hnot] at h
      dsimp only at h ⊢
      cases hsplit : splitOnce '.' rest with
      | none => rw [hsplit] at h; cases h
      | some p =>
          rw [hsplit] at h
          exact operatorTemplate_refused h rest

theorem refuses_filterTemplate {w : Parse Expr} (key : Chars) {val : Chars}
    (h : negatesCall text val = true) :
    ∃ u us, filterTemplate text key val = u :: us ∧
      Refuses left (parseComparison d w) (u :: us) := by
  obtain ⟨t, us, htokens, ht⟩ := @filterTemplate_refused text key _ h
  exact ⟨.not, t :: us, htokens, (Parser.parseComparison_refuses_not ht).append us⟩

/-! ## Pairs of a query string -/

theorem pairCondition_isSome_iff (pair : Chars × Chars) :
    (pairCondition text pair).isSome = (whereClause text pair).isSome := by
  obtain ⟨key, val⟩ := pair
  simp only [pairCondition, whereClause]
  split
  · rfl
  · split
    · rw [Parser.combined_isSome]
      cases orParts val <;> rfl
    · rfl

theorem whereClauseTemplate_isSome (pair : Chars × Chars) :
    (whereClauseTemplate text pair).isSome = (pairCondition text pair).isSome := by
  obtain ⟨key, val⟩ := pair
  simp only [pairCondition, whereClauseTemplate]
  split
  · rfl
  · split
    · rw [Parser.combined_isSome]
      cases orParts val <;> rfl
    · rfl

theorem orTemplate_eq {parts : List (Chars × Chars)} :
    parts ≠ [] → (match parts with
      | [] => none
      | parts => some (parensTemplate ((ownTokens " OR ").intercalate
          (parts.map fun (k, v) => filterTemplate text k v)))) =
      some (Parser.inParens ([Token.or].intercalate
        (parts.map fun p => filterTemplate text p.1 p.2))) := by
  intro hne
  have hwords : ownTokens " OR " = [.or] := conditionWords.joins true
  cases parts with
  | nil => exact absurd rfl hne
  | cons part parts =>
      dsimp only
      rw [hwords, parensTemplate_eq]

theorem reads_pairCondition (n : Nat) {pair : Chars × Chars} {e : Expr}
    (he : pairCondition text pair = some e) (h : pairNegatesCall text pair = false) :
    ∃ ts, whereClauseTemplate text pair = some ts ∧
      Parser.Reads d (parseWhereExpr d (n + 2)) 2 ts e := by
  obtain ⟨key, val⟩ := pair
  simp only [pairCondition, pairNegatesCall, whereClauseTemplate] at he h ⊢
  by_cases hnot : (notFilters.any fun k => k.toList = key) = true
  · rw [if_pos hnot] at he
    cases he
  rw [if_neg hnot] at he h ⊢
  by_cases hor : key = "or".toList
  · rw [if_pos hor] at he h ⊢
    have hne : orParts val ≠ [] := by
      intro hnil
      rw [hnil] at he
      cases he
    let list := (orParts val).map fun p => (filterCondition text p.1 p.2, filterTemplate text p.1 p.2)
    have hlist : ∀ j ∈ list, Parser.Reads d (parseWhereExpr d (n + 1)) 2 j.2 j.1 := by
      intro j hj
      obtain ⟨p, hp, rfl⟩ := List.mem_map.mp hj
      exact reads_filterCondition n p.1 (by simpa using List.any_eq_false.mp h p hp)
    obtain ⟨e', he', hgroup⟩ := reads_group (.inr rfl) (by simpa [list] using hne) hlist
    have heq : e' = e := by
      rw [List.map_map] at he'
      exact Option.some.inj (he'.symm.trans he)
    have htokens : list.map Prod.snd =
        (orParts val).map fun p => filterTemplate text p.1 p.2 := by
      rw [List.map_map]
      rfl
    rw [htokens] at hgroup
    exact ⟨_, orTemplate_eq hne, heq ▸ hgroup.weaken (Nat.le_succ 2) (Nat.le_refl 3)⟩
  · rw [if_neg hor] at he h ⊢
    obtain rfl := Option.some.inj he
    exact ⟨_, rfl, reads_filterCondition (n + 1) key h⟩

theorem refuses_pair (n : Nat) {pair : Chars × Chars} (h : pairNegatesCall text pair = true) :
    ∃ u us, whereClauseTemplate text pair = some (u :: us) ∧
      Refuses left (parseComparison d (parseWhereExpr d (n + 2))) (u :: us) := by
  obtain ⟨key, val⟩ := pair
  simp only [pairNegatesCall, whereClauseTemplate] at h ⊢
  by_cases hnot : (notFilters.any fun k => k.toList = key) = true
  · rw [if_pos hnot] at h
    cases h
  rw [if_neg hnot] at h ⊢
  by_cases hor : key = "or".toList
  · rw [if_pos hor] at h ⊢
    obtain ⟨bad, hbad⟩ : ∃ bad, (orParts val).find? (fun p => negatesCall text p.2) = some bad := by
      rw [← Option.isSome_iff_exists, List.find?_isSome]
      simpa using h
    obtain ⟨hcall, taken, more, hparts, htaken⟩ := List.find?_eq_some_iff_append.mp hbad
    let list := taken.map fun p => (filterCondition text p.1 p.2, filterTemplate text p.1 p.2)
    have hlist : ∀ j ∈ list, Parser.Reads d (parseWhereExpr d (n + 1)) 2 j.2 j.1 := by
      intro j hj
      obtain ⟨p, hp, rfl⟩ := List.mem_map.mp hj
      exact reads_filterCondition n p.1 (by simpa using htaken p hp)
    obtain ⟨u, us, htokens, hrefuses⟩ :=
      refuses_filterTemplate (d := d) (w := parseWhereExpr d (n + 1)) bad.1 hcall
    have hor := Parser.parseOr_refuses hlist hrefuses
      (more.map fun p => filterTemplate text p.1 p.2)
    obtain ⟨t, ts, hts⟩ := List.exists_cons_of_ne_nil (Parser.intercalate_ne_nil .or
      (list.map Prod.snd) u us (more.map fun p => filterTemplate text p.1 p.2))
    have hmap : (orParts val).map (fun p => filterTemplate text p.1 p.2) =
        list.map Prod.snd ++ (u :: us) :: more.map fun p => filterTemplate text p.1 p.2 := by
      rw [hparts, List.map_append, List.map_cons, htokens, List.map_map]
      rfl
    have htemplate := @orTemplate_eq text _ (show orParts val ≠ [] by rw [hparts]; simp)
    rw [hmap, hts] at htemplate
    rw [hts] at hor
    exact ⟨_, _, htemplate, (Parser.parseComparison_refuses_parens hor).append [.rParen]⟩
  · rw [if_neg hor] at h ⊢
    obtain ⟨u, us, htokens, hrefuses⟩ := refuses_filterTemplate key h
    exact ⟨u, us, congrArg some htokens, hrefuses⟩

end Readable

/-! ## One value for a key -/

/-- The pairs of a query string, in the order in which they are written. -/
def queryPairs (query : Chars) : List (Chars × Chars) :=
  (Text.splitOn '&' query).filterMap (splitOnce '=')

/-- The map of a query string has the last pair for every key. -/
theorem parseQueryParams_perm (query : Chars) :
    (parseQueryParams query).Perm (lastPairs (queryPairs query)) := by
  have hparse : parseQueryParams query =
      (queryPairs query).foldl (fun kept p => p :: kept.filter (·.1 ≠ p.1)) [] := by
    rw [parseQueryParams, queryPairs, List.foldl_filterMap]
    congr 1
    funext params pair
    cases splitOnce '=' pair <;> rfl
  rw [hparse]
  exact foldl_insert_perm _

/-! ## All filters -/

section Rows

variable (lib : Library) (schema : TableSchema) (row : Row) (ctx : ExecutionContext)

/-- The row meets the condition. -/
def Holds (e : Expr) : Prop := Plan.evalWithContext lib schema row ctx e = .ok (.boolean true)

variable {lib schema row ctx}

theorem holds_and {l r : Expr} : Holds lib schema row ctx (.binaryOp .and l r) ↔
    Holds lib schema row ctx l ∧ Holds lib schema row ctx r := by
  unfold Holds
  rw [Plan.evalWithContext]
  cases hl : Plan.evalWithContext lib schema row ctx l with
  | ok v =>
      cases hr : Plan.evalWithContext lib schema row ctx r with
      | ok v' => simp [Outcome.bind, Plan.evalBinop, Plan.isTruthy]
      | error e => simp [Outcome.bind]
      | stop why => simp [Outcome.bind]
  | error e => simp [Outcome.bind]
  | stop why => simp [Outcome.bind]

theorem holds_combined {list : List Expr} :
    (∀ e ∈ combined .and list, Holds lib schema row ctx e) ↔
      ∀ e ∈ list, Holds lib schema row ctx e := by
  cases list with
  | nil => simp [combined]
  | cons first rest =>
      have hfold : ∀ e, Holds lib schema row ctx (rest.foldl (.binaryOp .and) e) ↔
          Holds lib schema row ctx e ∧ ∀ r ∈ rest, Holds lib schema row ctx r := by
        induction rest with
        | nil => simp
        | cons r rest ih =>
            intro e
            rw [List.foldl_cons, ih, holds_and, List.forall_mem_cons, and_assoc]
      simpa [combined] using hfold first

end Rows

/-- What follows the condition of a statement that the handler writes. -/
def afterWhere : List Token := [.order, .returning, .eof]

/-- Every filter of the query string is a clause behind `WHERE`, and a row meets what the parser
reads there exactly if it meets every filter. -/
structure AppliesFilters (text : TextLibrary) (d : Token → String) (query : Chars)
    (params : Params) : Prop where
  clauses : (buildWhereClauses text params).Perm
    ((queryPairs query).filterMap (whereClause text))
  condition : ∃ tokens condition, Reads text (whereText text params) tokens ∧
    (∀ fuel, 3 ≤ fuel → Takes left (optionalExpr (parseWhereExpr d fuel) .where) tokens condition
      (· ∈ afterWhere)) ∧
    ∀ lib schema row ctx, (∀ e ∈ condition, Holds lib schema row ctx e) ↔
      ∀ pair ∈ queryPairs query, ∀ e ∈ pairCondition text pair, Holds lib schema row ctx e

section Applied

variable {text : TextLibrary} {d : Token → String} {query : Chars} {params : Params}

/-- The conditions of the pairs, each with the tokens of its clause. -/
def clausesOf (text : TextLibrary) (params : Params) : List (Expr × List Token) :=
  params.filterMap fun pair =>
    (pairCondition text pair).map fun e => (e, (whereClauseTemplate text pair).getD [])

theorem clausesOf_fst (params : Params) :
    (clausesOf text params).map Prod.fst = params.filterMap (pairCondition text) := by
  rw [clausesOf, List.map_filterMap]
  congr 1
  funext pair
  cases pairCondition text pair <;> rfl

theorem clausesOf_snd (params : Params) :
    (clausesOf text params).map Prod.snd = params.filterMap (whereClauseTemplate text) := by
  rw [clausesOf, List.map_filterMap]
  congr 1
  funext pair
  have hsome := @whereClauseTemplate_isSome text pair
  cases hcondition : pairCondition text pair <;> cases htemplate : whereClauseTemplate text pair <;>
    simp [hcondition, htemplate] at hsome ⊢

theorem reads_clausesOf {params : Params} (n : Nat)
    (h : ∀ pair ∈ params, pairNegatesCall text pair = false) :
    ∀ j ∈ clausesOf text params, Parser.Reads d (parseWhereExpr d (n + 2)) 2 j.2 j.1 := by
  intro j hj
  obtain ⟨pair, hpair, hsome⟩ := List.mem_filterMap.mp hj
  obtain ⟨e, he, rfl⟩ := Option.map_eq_some_iff.mp hsome
  obtain ⟨ts, hts, hreads⟩ := reads_pairCondition (d := d) n he (h pair hpair)
  rw [hts]
  exact hreads

theorem whereTemplate_eq {params : Params}
    (hne : params.filterMap (whereClauseTemplate text) ≠ []) :
    whereTemplate text params =
      .where :: [Token.and].intercalate (params.filterMap (whereClauseTemplate text)) := by
  have hand : ownTokens " AND " = [.and] := conditionWords.joins false
  rw [whereTemplate]
  split
  · rename_i hnil
    exact absurd hnil hne
  · rw [conditionWords.filter, hand]
    rfl

theorem reads_where {params : Params}
    (h : ∀ pair ∈ params, pairNegatesCall text pair = false) {fuel : Nat} (hfuel : 3 ≤ fuel) :
    Takes left (optionalExpr (parseWhereExpr d fuel) .where) (whereTemplate text params)
      (combined .and (params.filterMap (pairCondition text))) (· ∈ afterWhere) := by
  obtain ⟨n, rfl⟩ := Nat.exists_eq_add_of_le' hfuel
  have hreads := reads_clausesOf (d := d) n h
  by_cases hnil : clausesOf text params = []
  · have hconditions := @clausesOf_fst text params
    have htemplates := @clausesOf_snd text params
    rw [hnil] at hconditions htemplates
    rw [whereTemplate, ← hconditions, ← htemplates]
    exact Parser.alt_miss (by decide) (Takes.pure none)
  · obtain ⟨e, he, hwhere⟩ := Parser.Reads.combined (.inl rfl) hnil hreads
    rw [clausesOf_fst] at he
    rw [clausesOf_snd] at hwhere
    have hne : params.filterMap (whereClauseTemplate text) ≠ [] := by
      rw [← clausesOf_snd]
      simpa using hnil
    rw [whereTemplate_eq hne, he]
    have htakes := (takes_of_reads (Nat.zero_le 3) hwhere).map some
    exact Parser.alt_hit rfl (htakes.mono (by decide))

/-- The first filter that takes `NOT` stops the parser. -/
theorem refuses_where {params : Params}
    (h : ∃ pair ∈ params, pairNegatesCall text pair = true) {fuel : Nat} (hfuel : 3 ≤ fuel) :
    Refuses left (optionalExpr (parseWhereExpr d fuel) .where) (whereTemplate text params) := by
  obtain ⟨n, rfl⟩ := Nat.exists_eq_add_of_le' hfuel
  obtain ⟨bad, hbad⟩ : ∃ bad, params.find? (fun p => pairNegatesCall text p) = some bad := by
    rw [← Option.isSome_iff_exists, List.find?_isSome]
    exact h
  obtain ⟨hcall, taken, more, hparams, htaken⟩ := List.find?_eq_some_iff_append.mp hbad
  have hlist := @reads_clausesOf text d _ n
    (fun pair hpair => by simpa using htaken pair hpair)
  obtain ⟨u, us, htokens, hrefuses⟩ := @refuses_pair text d n _ hcall
  have hor := (Parser.parseAnd_refuses hlist hrefuses
    (more.filterMap (whereClauseTemplate text))).bind (f := fun left => do
      let rights ← Parser.whileEat (only .or) fun _ => parseAnd d (parseWhereExpr d (n + 2))
      return rights.foldl (.binaryOp .or) left)
  have htemplates : params.filterMap (whereClauseTemplate text) =
      (clausesOf text taken).map Prod.snd ++ (u :: us) ::
        more.filterMap (whereClauseTemplate text) := by
    rw [hparams, List.filterMap_append, List.filterMap_cons_some htokens, clausesOf_snd]
  rw [← htemplates] at hor
  have hne : params.filterMap (whereClauseTemplate text) ≠ [] := by
    rw [htemplates]
    simp
  obtain ⟨t, ts, hts⟩ := List.exists_cons_of_ne_nil (Parser.intercalate_ne_nil .and
    ((clausesOf text taken).map Prod.snd) u us (more.filterMap (whereClauseTemplate text)))
  rw [← htemplates] at hts
  rw [whereTemplate_eq hne, hts]
  rw [hts] at hor
  exact Refuses.hit (Parser.takesNext (only .where)) rfl hor.bind

theorem pairCondition_eq_none_iff (pair : Chars × Chars) :
    pairCondition text pair = none ↔ whereClause text pair = none := by
  have hsome := @pairCondition_isSome_iff text pair
  cases hcondition : pairCondition text pair <;> cases hclause : whereClause text pair <;>
    simp [hcondition, hclause] at hsome ⊢

theorem noneLost_condition_iff (ps : List (Chars × Chars)) :
    NoneLost (pairCondition text) ps ↔ NoneLost (whereClause text) ps := by
  simp only [NoneLost, pairCondition_eq_none_iff]

theorem parser_exists (ts : List Token) : ∃ p : Parser, left p = ts ++ [.eof] := by
  cases ts with
  | nil => exact ⟨⟨⟨.eof, 0⟩, []⟩, rfl⟩
  | cons t ts =>
      refine ⟨⟨⟨t, 0⟩, (ts ++ [Token.eof]).map fun t => ⟨t, 0⟩⟩, ?_⟩
      rw [left, List.map_map]
      exact congrArg (t :: ·) (List.map_id _)

end Applied

end ChocoBase.Server.Rest
