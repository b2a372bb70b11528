import ChocoBase.Foundation.Yields
import ChocoBase.Sql.NumberTexts
import ChocoBase.Sql.PrintedExprs

/-!
# The text of an INSERT

An `INSERT` of one row, put together from names and from the texts of values.  It is
parsed as it is meant if every value is a literal, and otherwise never as an `INSERT`
of literals.
-/

namespace ChocoBase.Sql

open ChocoBase.Foundation ChocoBase.Sql.Parser
open Text (Chars)

def insertText (table : Chars) (columns values : List Chars) : Chars :=
  "INSERT INTO ".toList ++ table ++ " (".toList ++ Text.join ", ".toList columns ++
    ") VALUES (".toList ++ Text.join ", ".toList values ++ ")".toList

section Names

variable (text : TextLibrary) (d : Token → String)

/-- In a statement the text is this name of a table. -/
def NamesTable (s : Chars) (name : String) : Prop :=
  ∃ ts, Exact text s ts ∧ Takes left (parseTableName d) ts name (· = .lParen)

/-- In a statement the text is this name of a column. -/
def NamesColumn (s : Chars) (name : String) : Prop :=
  ∃ t, Exact text s [t] ∧ nameOf t = some name

variable {text d} {s : Chars} {name : String}

/-- A word that is no keyword, or one that may be a name, is a name. -/
theorem namesColumn_own (hascii : text.LikeAscii) {t : Token} (h : isOwn name)
    (htokens : ownTokens name = [t]) (ht : nameOf t = some name) :
    NamesColumn text name.toList name :=
  ⟨t, htokens ▸ exact_own hascii h, ht⟩

theorem NamesColumn.table (h : NamesColumn text s name) : NamesTable text d s name := by
  obtain ⟨t, hexact, ht⟩ := h
  have hrest : Takes left (alt (only .dot) (fun _ => do
      let sub ← expectIdentifier d
      return name ++ "." ++ sub) (return name)) [] name (· = .lParen) :=
    alt_miss (fun u hu => by rw [hu]; rfl) (Takes.pure name)
  have hname : Takes left (expectIdentifier d) [t] name fun _ => True := take_takes ht
  exact ⟨[t], hexact, hname.bind hrest fun _ _ => trivial⟩

end Names

variable {d : Token → String} {w : Parse Expr} {text : TextLibrary} {table : Chars}
  {name : String} {columns values : List Chars} {names : List String}

/-! ## Parsing -/

/-- The tokens of a value that the parser takes, and the expression that they are. -/
inductive TakenValue : List Token → Expr → Prop
  | literal {t : Token} {e : Expr} (ht : literalOf t = some e) : TakenValue [t] e
  | name (name : String) : TakenValue [.identifier name] (.column name)

/-- What may follow a value; a literal may be in front of a dot. -/
def afterValue (i : Expr × List Token) (t : Token) : Prop :=
  arrowOf t = none ∧ (t = .dot → ∃ u ∈ i.2, (literalOf u).isSome)

theorem literal_takes {t : Token} {e : Expr} (ht : literalOf t = some e) :
    Takes left (parsePrimaryExpr d w) [t] e fun t => arrowOf t = none := by
  have hoperand : Takes left (parseOperand d w) [t] e fun _ => True :=
    offset_takes fun _ => alt_hit ht (Takes.pure e)
  have hnone {q : Bool → Parse (String × Bool)} :
      Takes left (whileEat arrowOf q) [] [] fun t => arrowOf t = none :=
    fun s t r hview h => Takes.miss (takesNext arrowOf) (fun _ h => h) (Takes.pure []) s t r hview h
  exact hoperand.bind (hnone.map _) fun _ _ => trivial

theorem TakenValue.takes {ts : List Token} {e : Expr} (h : TakenValue ts e) :
    Takes left (parsePrimaryExpr d w) ts e (afterValue (e, ts)) := by
  cases h with
  | literal ht => exact (literal_takes ht).mono fun t h => h.1
  | name name =>
      refine (Reads.column name).parsePrimaryExpr.mono fun t h => ?_
      have hdot : t ≠ .dot := by
        rintro rfl
        obtain ⟨u, hu, hliteral⟩ := h.2 rfl
        obtain rfl := List.mem_singleton.mp hu
        cases hliteral
      exact ⟨hdot, .inr h.1, .inl (by decide), .inl (by decide), .inl (by decide)⟩

/-- A list of values, in front of a parenthesis or, behind a literal, of a dot. -/
theorem values_takes {list : List (Expr × List Token)} (hne : list ≠ [])
    (h : ∀ i ∈ list, TakenValue i.2 i.1) {R : Token → Prop}
    (hstop : ∀ t, R t → t ≠ .comma ∧ ∀ i ∈ list.getLast?, afterValue i t) :
    Takes left (commaList (parsePrimaryExpr d w)) ([Token.comma].intercalate (list.map Prod.snd))
      (list.map Prod.fst) R :=
  commaList_takes hne (fun i hi => (h i hi).takes) (fun _ _ => ⟨rfl, nofun⟩) hstop

theorem parseValues_takes {list : List (Expr × List Token)} (hne : list ≠ [])
    (h : ∀ i ∈ list, TakenValue i.2 i.1) {R : Token → Prop} :
    Takes left (parseValues d w) (inParens ([Token.comma].intercalate (list.map Prod.snd)))
      (list.map Prod.fst) R := by
  have hstop : ∀ t : Token, t = .rParen → t ≠ .comma ∧ ∀ i ∈ list.getLast?, afterValue i t := by
    rintro _ rfl
    exact ⟨by decide, fun _ _ => ⟨rfl, nofun⟩⟩
  exact (expect_takes (Q := fun _ => True) d .lParen).bind
    ((values_takes hne h hstop).bind ((endList_takes _ d).map fun _ => list.map Prod.fst)
      fun _ _ => rfl) fun _ _ => trivial

/-- What neither ends a list of values nor goes on with it, behind a literal. -/
def Breaks (t : Token) : Prop := t ≠ .comma ∧ t ≠ .rParen ∧ arrowOf t = none

/-- Behind a literal, the values neither end nor go on. -/
theorem parseValues_fails {list : List (Expr × List Token)} (h : ∀ i ∈ list, TakenValue i.2 i.1)
    {t u : Token} {e : Expr} (ht : literalOf t = some e) (hu : Breaks u) {more : List Token}
    {p : Parser} (hp : left p = .lParen ::
      ([Token.comma].intercalate (list.map Prod.snd ++ [[t]]) ++ u :: more)) :
    ∃ e p', parseValues d w p = (.error e, p') := by
  have hlist : ∀ i ∈ list ++ [(e, [t])], TakenValue i.2 i.1 := by
    intro i hi
    rcases List.mem_append.mp hi with hi | hi
    · exact h i hi
    · rw [List.mem_singleton.mp hi]
      exact .literal ht
  have hstop : ∀ u', u' = u → u' ≠ .comma ∧ ∀ i ∈ (list ++ [(e, [t])]).getLast?, afterValue i u' := by
    rintro _ rfl
    refine ⟨hu.1, fun i hi => ?_⟩
    rw [List.getLast?_concat] at hi
    obtain rfl := Option.some.inj hi
    exact ⟨hu.2.2, fun _ => ⟨t, List.mem_cons_self, Option.isSome_of_mem ht⟩⟩
  let front : Parse (List Expr) := do
    expect d .lParen
    commaList (parsePrimaryExpr d w)
  have hfront : Takes left front (.lParen ::
      [Token.comma].intercalate ((list ++ [(e, [t])]).map Prod.snd))
      ((list ++ [(e, [t])]).map Prod.fst) (· = u) :=
    (expect_takes (Q := fun _ => True) d .lParen).bind
      (values_takes (List.append_ne_nil_of_right_ne_nil _ (List.cons_ne_nil _ _)) hlist hstop)
      fun _ _ => trivial
  obtain ⟨⟨current, following⟩, hp', hview⟩ := hfront p u more (by simpa using hp) rfl
  obtain ⟨hcurrent, -⟩ := List.cons.inj hview
  have hend : endList "expected ',' or ')'" d ⟨current, following⟩ =
      (.error ⟨current.offset, "expected ',' or ')'"⟩, ⟨current, following⟩) := by
    have hnot : current.token ≠ .rParen := by
      rw [show current.token = u from hcurrent]
      exact hu.2.1
    simp [endList, whenNext, nextIs, Form.can, only, Exec.bind_apply, hnot]
    rfl
  have hparse : parseValues d w = front >>= fun row => do
      endList "expected ',' or ')'" d
      return row := by
    simp only [parseValues, front, bind_assoc]
  rw [hparse, Exec.bind_ok hp', Exec.bind_error hend]
  exact ⟨_, _, rfl⟩

/-! ## The statement -/

section Statement

/-- What stands before the values. -/
def parseInto (d : Token → String) : Parse (String × Option (List String)) := do
  expect d .insert
  expect d .into
  let table ← parseTableName d
  let columns ← alt (only .lParen)
    (fun _ => do
      let columns ← commaList (expectIdentifier d)
      endList "expected ',' or ')'" d
      return some columns)
    (return none)
  expect d .values
  return (table, columns)

theorem parseInsert_eq : parseInsert d w = (parseInto d >>= fun target => do
    let rows ← commaList (parseValues d w)
    let returning ← parseReturningClause d w
    return .insert target.1 target.2 rows returning) := by
  simp only [parseInsert, parseInto, bind_assoc, pure_bind]

theorem parseInto_takes {ts : List Token}
    (htable : Takes left (parseTableName d) ts name (· = .lParen))
    {list : List (String × List Token)} (hne : list ≠ [])
    (hlist : ∀ i ∈ list, ∃ t, i.2 = [t] ∧ nameOf t = some i.1) {R : Token → Prop} :
    Takes left (parseInto d) (.insert :: .into :: (ts ++ .lParen ::
      ([Token.comma].intercalate (list.map Prod.snd) ++ [.rParen, .values])))
      (name, some (list.map Prod.fst)) R := by
  have hitem : ∀ i ∈ list, Takes left (expectIdentifier d) i.2 i.1 fun _ => True := by
    intro i hi
    obtain ⟨t, ht, hname⟩ := hlist i hi
    rw [ht]
    exact take_takes hname
  have hcolumns : Takes left (commaList (expectIdentifier d))
      ([Token.comma].intercalate (list.map Prod.snd)) (list.map Prod.fst) (· = .rParen) :=
    commaList_takes hne hitem (fun _ _ => trivial) fun t ht =>
      ⟨by rw [ht]; decide, fun _ _ => trivial⟩
  have hclosed : Takes left (do
      let columns ← commaList (expectIdentifier d)
      endList "expected ',' or ')'" d
      return some columns)
      ([Token.comma].intercalate (list.map Prod.snd) ++ [.rParen]) (some (list.map Prod.fst))
      fun _ => True :=
    hcolumns.bind ((endList_takes _ d).map fun _ => some (list.map Prod.fst)) fun _ _ => rfl
  have hvalues : Takes left (do
      expect d .values
      return (name, some (list.map Prod.fst))) [.values] (name, some (list.map Prod.fst)) R :=
    (expect_takes d .values).map fun _ => (name, some (list.map Prod.fst))
  have hoption : Takes left (alt (only .lParen)
      (fun _ => do
        let columns ← commaList (expectIdentifier d)
        endList "expected ',' or ')'" d
        return some columns)
      (return none))
      (.lParen :: ([Token.comma].intercalate (list.map Prod.snd) ++ [.rParen]))
      (some (list.map Prod.fst)) fun _ => True :=
    alt_hit rfl hclosed
  have htokens : .insert :: .into :: (ts ++ .lParen ::
      ([Token.comma].intercalate (list.map Prod.snd) ++ [.rParen, .values])) =
      [.insert] ++ ([.into] ++ (ts ++ (.lParen ::
        ([Token.comma].intercalate (list.map Prod.snd) ++ [.rParen]) ++ [.values]))) := by simp
  rw [htokens]
  exact (expect_takes (Q := fun _ => True) d .insert).bind
    ((expect_takes (Q := fun _ => True) d .into).bind
      (htable.bind (hoption.bind hvalues fun _ _ => trivial) fun _ _ => rfl)
      fun _ _ => trivial) fun _ _ => trivial

/-- The statement as it is meant, with what stands behind its row. -/
theorem parseInsert_takes {ts tt : List Token} {returning : Option SelectColumns}
    (htable : Takes left (parseTableName d) ts name (· = .lParen))
    {list : List (String × List Token)} (hne : list ≠ [])
    (hlist : ∀ i ∈ list, ∃ t, i.2 = [t] ∧ nameOf t = some i.1)
    {row : List (Expr × List Token)} (hne' : row ≠ []) (hrow : ∀ i ∈ row, TakenValue i.2 i.1)
    (hreturning : Takes left (parseReturningClause d w) tt returning (· = .eof))
    (hcomma : tt.headD .eof ≠ .comma) :
    Takes left (parseInsert d w) (.insert :: .into :: (ts ++ .lParen ::
      ([Token.comma].intercalate (list.map Prod.snd) ++ [.rParen, .values])) ++
        (inParens ([Token.comma].intercalate (row.map Prod.snd)) ++ tt))
      (.insert name (some (list.map Prod.fst)) [row.map Prod.fst] returning) (· = .eof) := by
  have hrows : Takes left (commaList (parseValues d w))
      (inParens ([Token.comma].intercalate (row.map Prod.snd))) [row.map Prod.fst]
      (· ≠ .comma) := by
    let i : List Expr × List Token :=
      (row.map Prod.fst, inParens ([Token.comma].intercalate (row.map Prod.snd)))
    have hitem : ∀ j ∈ [i], Takes left (parseValues d w) j.2 j.1 fun _ => True := by
      intro j hj
      rw [List.mem_singleton.mp hj]
      exact parseValues_takes hne' hrow
    have hone : Takes left (commaList (parseValues d w))
        ([Token.comma].intercalate ([i].map Prod.snd)) ([i].map Prod.fst) (· ≠ .comma) :=
      commaList_takes (List.cons_ne_nil _ _) hitem (fun _ _ => trivial) fun t ht =>
        ⟨ht, fun _ _ => trivial⟩
    simpa using hone
  rw [parseInsert_eq]
  exact (parseInto_takes (R := fun _ => True) htable hne hlist).bind
    (hrows.bind (hreturning.map fun returning => Statement.insert name (some (list.map Prod.fst))
      [row.map Prod.fst] returning) fun t ht => by rwa [ht]) fun _ _ => trivial

/-- With a value that is broken off it is none. -/
theorem parseInsert_fails {ts : List Token}
    (htable : Takes left (parseTableName d) ts name (· = .lParen))
    {list : List (String × List Token)} (hne : list ≠ [])
    (hlist : ∀ i ∈ list, ∃ t, i.2 = [t] ∧ nameOf t = some i.1)
    {row : List (Expr × List Token)} (hrow : ∀ i ∈ row, TakenValue i.2 i.1) {t u : Token}
    {value : Expr} (ht : literalOf t = some value) (hu : Breaks u) {more : List Token} {p : Parser}
    (hp : left p = .insert :: .into :: (ts ++ .lParen ::
      ([Token.comma].intercalate (list.map Prod.snd) ++ [.rParen, .values])) ++ .lParen ::
        ([Token.comma].intercalate (row.map Prod.snd ++ [[t]]) ++ u :: more)) :
    ∃ e p', parseInsert d w p = (.error e, p') := by
  obtain ⟨p₁, hp₁, hview⟩ := parseInto_takes (R := fun _ => True) htable hne hlist p _ _ hp trivial
  obtain ⟨e, p₂, hp₂⟩ := parseValues_fails (d := d) (w := w) hrow ht hu hview
  refine ⟨e, p₂, ?_⟩
  rw [parseInsert_eq, Exec.bind_ok hp₁]
  have hrows : commaList (parseValues d w) p₁ = (.error e, p₂) := Exec.bind_error hp₂
  exact Exec.bind_error hrows

end Statement

/-! ## Texts -/

section Texts

variable {s : Chars} {tail : List Token} {stmt : Statement}

/-- The statement that a first token starts, and what the parser does behind it. -/
def Starts (d : Token → String) (t : Token) (x : Parse Expr → Parse Statement) : Prop :=
  ∀ w fuel offset rest, parseStatement d w (fuel + 1) ⟨⟨t, offset⟩, rest⟩ =
    (x w >>= fun stmt => do
      skip (only .semicolon)
      return stmt) ⟨⟨t, offset⟩, rest⟩

theorem starts_insert : Starts d .insert (parseInsert d) := fun _ _ _ _ => rfl

/-- A text is parsed as the statement that its first token starts. -/
theorem parse_start {t : Token} {x : Parse Expr → Parse Statement} (hstart : Starts d t x)
    (hlexes : Lexes text s (t :: tail)) :
    ∃ (w : Parse Expr) (p : Parser), left p = t :: (tail ++ [.eof]) ∧
      parse text d (String.ofList s) = ((x w >>= fun stmt => do
        skip (only .semicolon)
        return stmt) p).1 := by
  obtain ⟨tokens, htokens, hmap⟩ := tokenize_eq_ok_iff.mpr
    (show Lexes text (String.ofList s).toList (t :: tail) by rwa [String.toList_ofList])
  obtain _ | ⟨⟨u, offset⟩, rest⟩ := tokens
  · cases hmap
  · obtain ⟨hu, hrest⟩ := List.cons.inj hmap
    obtain rfl : u = t := hu
    refine ⟨parseWhereExpr d (rest.length + 1), ⟨⟨u, offset⟩, rest⟩,
      congrArg (u :: ·) hrest, ?_⟩
    rw [parse, htokens]
    change (parseTokens d (⟨u, offset⟩ :: rest) >>= fun r => pure r.1) = _
    rcases hrun : (x (parseWhereExpr d (rest.length + 1)) >>= fun stmt => do
      skip (only .semicolon)
      return stmt) ⟨⟨u, offset⟩, rest⟩ with ⟨stmt | e | why, p⟩
    all_goals
      rw [← hstart _ rest.length offset rest] at hrun
      rw [parseTokens, new, List.length_cons]
      simp only [hrun]
      rfl

def Statement.isInsert : Statement → Bool
  | .insert .. => true
  | _ => false

theorem parseInsert_yields (d : Token → String) (w : Parse Expr) :
    Exec.Yields (fun stmt => Statement.isInsert stmt = true) (parseInsert d w) := by
  rw [parseInsert_eq]
  exact Exec.yields_seq fun _ => Exec.yields_seq fun _ => Exec.yields_seq fun _ =>
    Exec.yields_pure rfl

/-- Whatever stands behind `INSERT INTO`, nothing but an `INSERT` comes of it. -/
theorem isInsert_of_parse (hascii : text.LikeAscii) {rest : Chars}
    (h : parse text d (String.ofList ("INSERT INTO ".toList ++ rest)) = .ok stmt) :
    stmt.isInsert = true := by
  have hfirm : Firm text "INSERT INTO ".toList (ownTokens "INSERT INTO ") :=
    firm_own hascii (by decide +kernel) (by decide)
  have hstart : ownTokens "INSERT INTO " = [.insert, .into] := by decide +kernel
  obtain ⟨tokens, htokens, -⟩ := Outcome.bind_eq_ok.mp h
  obtain ⟨ts, hlexes, -⟩ := tokenizeFrom_ok htokens
  rw [String.toList_ofList] at hlexes
  obtain ⟨tr, rfl, -⟩ := (hfirm _ _).mp hlexes
  rw [hstart] at hlexes
  obtain ⟨w, p, -, hparse⟩ := parse_start (@starts_insert d) hlexes
  rw [hparse] at h
  exact (parseInsert_yields d w).bind (fun a ha => Exec.yields_seq fun _ => Exec.yields_pure ha)
    p stmt _ (Prod.ext h rfl)

theorem parse_eq_of_takes {t : Token} {x : Parse Expr → Parse Statement} (hstart : Starts d t x)
    (hlexes : Lexes text s (t :: tail)) (h : ∀ w, Takes left (x w) (t :: tail) stmt (· = .eof)) :
    parse text d (String.ofList s) = .ok stmt := by
  obtain ⟨w, p, hp, hparse⟩ := parse_start hstart hlexes
  have hskip : Takes left (skip (only .semicolon)) [] () (· = .eof) :=
    alt_miss (fun t ht => by rw [ht]; rfl) (Takes.pure ())
  have hwhole : Takes left (x w >>= fun stmt => do
      skip (only .semicolon)
      return stmt) (t :: tail ++ []) stmt (· = .eof) :=
    (h w).bind (hskip.map fun _ => stmt) fun t ht => ht
  rw [List.append_nil] at hwhole
  obtain ⟨p', hrun, -⟩ := hwhole p .eof [] hp rfl
  rw [hparse]
  exact congrArg Prod.fst hrun

theorem parse_ne_ok_of_insert (hlexes : Lexes text s (.insert :: tail))
    (h : ∀ w p, left p = .insert :: (tail ++ [.eof]) →
      ∃ e p', parseInsert d w p = (.error e, p')) :
    parse text d (String.ofList s) ≠ .ok stmt := by
  obtain ⟨w, p, hp, hparse⟩ := parse_start starts_insert hlexes
  obtain ⟨e, p', he⟩ := h w p hp
  rw [hparse, Exec.bind_error he]
  simp

end Texts

/-! ## The text as a whole -/

theorem namesColumns_tokens (h : List.Forall₂ (NamesColumn text) columns names) :
    ∃ list : List (String × List Token), list.map Prod.fst = names ∧
      List.Forall₂ (Exact text) columns (list.map Prod.snd) ∧
      ∀ i ∈ list, ∃ t, i.2 = [t] ∧ nameOf t = some i.1 := by
  induction h with
  | nil => exact ⟨[], rfl, .nil, nofun⟩
  | @cons _ name _ _ hcolumn _ ih =>
      obtain ⟨t, hexact, hname⟩ := hcolumn
      obtain ⟨list, rfl, hexacts, hlist⟩ := ih
      exact ⟨(name, [t]) :: list, rfl, .cons hexact hexacts,
        List.forall_mem_cons.mpr ⟨⟨t, rfl, hname⟩, hlist⟩⟩

section Values

variable {es : List (Option Expr)}

/-- An expression where a literal, or a name instead of it, is read. -/
def ReadValue (e : Option Expr) (e' : Expr) : Prop :=
  e = some e' ∨ e = none ∧ ∃ name, e' = .column name

/-- The text is read as a literal and something that does not belong to it, if it is read. -/
def Broken (text : TextLibrary) (s : Chars) : Prop :=
  ∀ r ts, opens r → Lexes text (s ++ r) ts →
    ∃ t e u more, literalOf t = some e ∧ Breaks u ∧ ts = t :: u :: more

/-- What a text among others is to the parser: a literal, a name, or the end of the statement. -/
inductive ReadsItem (text : TextLibrary) (s : Chars) : Option Expr → Prop
  | literal {t : Token} {e : Expr} (h : Exact text s [t]) (ht : literalOf t = some e) :
      ReadsItem text s (some e)
  | name {name : String} (h : Exact text s [.identifier name]) : ReadsItem text s none
  | broken (h : Broken text s) : ReadsItem text s none

theorem Unread.broken {s : Chars} (h : Unread text s) : Broken text s :=
  fun r ts hr hlexes => absurd hlexes (h r ts hr)

theorem Exact.broken {s : Chars} {t u : Token} {e : Expr} {more : List Token}
    (h : Exact text s (t :: u :: more)) (ht : literalOf t = some e) (hu : Breaks u) :
    Broken text s := by
  intro r ts hr hlexes
  obtain ⟨tr, rfl, -⟩ := (h r ts hr).mp hlexes
  exact ⟨t, e, u, more ++ tr, ht, hu, rfl⟩

theorem ReadsValue.item {s : Chars} {e : Option Expr} (h : ReadsValue text s e) :
    ReadsItem text s e := by
  cases h with
  | literal h ht => exact .literal h ht
  | name h => exact .name h
  | parts h => exact .broken (h.broken rfl ⟨by decide, by decide, rfl⟩)
  | unread h => exact .broken h.broken

/-- All texts are taken, or those in front of one that is broken off. -/
theorem readsItems_taken (h : List.Forall₂ (ReadsItem text) values es) :
    ∃ row : List (Expr × List Token), (∀ i ∈ row, TakenValue i.2 i.1) ∧
      (List.Forall₂ (Exact text) values (row.map Prod.snd) ∧
          List.Forall₂ ReadValue es (row.map Prod.fst) ∨
        none ∈ es ∧ ∃ before bad behind, values = before ++ bad :: behind ∧
          List.Forall₂ (Exact text) before (row.map Prod.snd) ∧ Broken text bad) := by
  induction h with
  | nil => exact ⟨[], nofun, .inl ⟨.nil, .nil⟩⟩
  | @cons value e values es hvalue _ ih =>
      obtain ⟨row, hrow, hcase⟩ := ih
      have htaken : ∀ {ts : List Token} {e' : Expr}, Exact text value ts → TakenValue ts e' →
          ReadValue e e' → ∃ row : List (Expr × List Token), (∀ i ∈ row, TakenValue i.2 i.1) ∧
            (List.Forall₂ (Exact text) (value :: values) (row.map Prod.snd) ∧
                List.Forall₂ ReadValue (e :: es) (row.map Prod.fst) ∨
              none ∈ e :: es ∧ ∃ before bad behind, value :: values = before ++ bad :: behind ∧
                List.Forall₂ (Exact text) before (row.map Prod.snd) ∧ Broken text bad) := by
        intro ts e' hexact hts he
        refine ⟨(e', ts) :: row, List.forall_mem_cons.mpr ⟨hts, hrow⟩, ?_⟩
        rcases hcase with ⟨hexacts, hes⟩ | ⟨hnone, before, bad, behind, rfl, hexacts, hbad⟩
        · exact .inl ⟨.cons hexact hexacts, .cons he hes⟩
        · exact .inr ⟨List.mem_cons_of_mem _ hnone, value :: before, bad, behind, rfl,
            .cons hexact hexacts, hbad⟩
      cases hvalue with
      | literal h ht => exact htaken h (.literal ht) (.inl rfl)
      | name h => exact htaken h (.name _) (.inr ⟨rfl, _, rfl⟩)
      | broken h => exact ⟨[], nofun, .inr ⟨List.mem_cons_self, [], value, values, rfl, .nil, h⟩⟩

end Values

section Whole

variable (hascii : text.LikeAscii)
include hascii

/-- What stands before the values is read by itself. -/
theorem firm_into {ts : List Token} {us : List (List Token)} (htable : Exact text table ts)
    (hcolumns : List.Forall₂ (Exact text) columns us) :
    Firm text ("INSERT INTO ".toList ++ table ++ " (".toList ++ Text.join ", ".toList columns ++
        ") VALUES (".toList)
      (.insert :: .into :: (ts ++ .lParen :: ([Token.comma].intercalate us ++
        [.rParen, .values])) ++ [.lParen]) := by
  have hinto : Firm text "INSERT INTO ".toList (ownTokens "INSERT INTO ") :=
    firm_own hascii (by decide +kernel) (by decide)
  have hstart : ownTokens "INSERT INTO " = [.insert, .into] := by decide +kernel
  have hopen : ownTokens " (" = [.lParen] := by decide +kernel
  have hcomma : ownTokens ", " = [.comma] := by decide +kernel
  have hvalues : ownTokens ") VALUES (" = [.rParen, .values, .lParen] := by decide +kernel
  have hjoin := exact_join hascii (s := ", ") (by decide +kernel) hcolumns
  have hfirm := (hinto.between hascii (s := " (") (by decide +kernel) htable).between hascii
    (s := ") VALUES (") (by decide +kernel) hjoin
  rw [hstart, hopen, hcomma, hvalues] at hfirm
  simpa only [List.append_assoc, List.cons_append, List.nil_append] using hfirm

/-- Up to a value that is broken off, the texts are read one after another. -/
theorem lexes_values {before behind : List Chars} {parts : List (List Token)} {bad r : Chars}
    {ts : List Token} (hbefore : List.Forall₂ (Exact text) before parts) (hbad : Broken text bad)
    (hr : opens r) (hlexes : Lexes text (Text.join ", ".toList (before ++ bad :: behind) ++ r) ts) :
    ∃ t e u more, literalOf t = some e ∧ Breaks u ∧
      ts = [Token.comma].intercalate (parts ++ [[t]]) ++ u :: more := by
  obtain ⟨hfirm, hopens⟩ := firm_separator hascii (s := ", ") (by decide +kernel)
  have hcomma : ownTokens ", " = [.comma] := by decide +kernel
  rw [hcomma] at hfirm
  have hjoin : ∀ part next rest, Text.join ", ".toList (part :: next :: rest) ++ r =
      part ++ (", ".toList ++ (Text.join ", ".toList (next :: rest) ++ r)) := by
    intro part next rest
    rw [Text.join, List.intercalate_cons_cons, List.append_assoc, List.append_assoc]
    rfl
  induction hbefore generalizing ts with
  | nil =>
      have hsplit : ∃ r', opens r' ∧ Text.join ", ".toList (bad :: behind) ++ r = bad ++ r' := by
        cases behind with
        | nil => exact ⟨r, hr, by simp [Text.join]⟩
        | cons next behind => exact ⟨_, hopens _, hjoin bad next behind⟩
      obtain ⟨r', hr', heq⟩ := hsplit
      rw [List.nil_append, heq] at hlexes
      obtain ⟨t, e, u, more, ht, hu, rfl⟩ := hbad r' ts hr' hlexes
      exact ⟨t, e, u, more, ht, hu, by simp [List.intercalate]⟩
  | @cons value part before parts hvalue _ ih =>
      obtain ⟨next, rest, hnext⟩ := List.exists_cons_of_ne_nil
        (List.append_ne_nil_of_right_ne_nil before (List.cons_ne_nil bad behind))
      rw [List.cons_append, hnext, hjoin, ← hnext] at hlexes
      obtain ⟨_, rfl, hsep⟩ := (hvalue _ _ (hopens _)).mp hlexes
      obtain ⟨_, rfl, hrest⟩ := (hfirm _ _).mp hsep
      obtain ⟨t, e, u, more, ht, hu, rfl⟩ := ih hrest
      obtain ⟨first, parts', hparts⟩ := List.exists_cons_of_ne_nil
        (List.append_ne_nil_of_right_ne_nil parts (List.cons_ne_nil [t] []))
      refine ⟨t, e, u, more, ht, hu, ?_⟩
      have hrow : part :: parts ++ [[t]] = part :: (parts ++ [[t]]) := rfl
      rw [hrow, hparts, List.intercalate_cons_cons]
      simp only [List.append_assoc]

/-- The statement that is meant, a statement with a name for a value, or none. -/
theorem parse_insertWith (htable : NamesTable text d table name) (hne : columns ≠ [])
    (hcolumns : List.Forall₂ (NamesColumn text) columns names) (hne' : values ≠ [])
    {es : List (Option Expr)} (hvalues : List.Forall₂ (ReadsItem text) values es) {tail : Chars}
    {tt : List Token} {returning : Option SelectColumns} (htail : Exact text tail tt)
    (hopens : opens tail) (hcomma : tt.headD .eof ≠ .comma)
    (hreturning : ∀ w, Takes left (parseReturningClause d w) tt returning (· = .eof)) :
    (∃ row, List.Forall₂ ReadValue es row ∧
      parse text d (String.ofList (insertText table columns values ++ tail)) =
        .ok (.insert name (some names) [row] returning)) ∨
    none ∈ es ∧ ∀ stmt,
      parse text d (String.ofList (insertText table columns values ++ tail)) ≠ .ok stmt := by
  obtain ⟨ts, hts, htakes⟩ := htable
  obtain ⟨list, rfl, hexact, hlist⟩ := namesColumns_tokens hcolumns
  have hlist_ne : list ≠ [] := by
    rintro rfl
    cases hexact
    exact hne rfl
  have hfirm := firm_into hascii hts hexact
  have hsplit : ∀ a b c r : Chars, a ++ b ++ c ++ r = a ++ (b ++ (c ++ r)) := fun a b c r => by
    rw [List.append_assoc, List.append_assoc]
  have hwhole : insertText table columns values ++ tail =
      "INSERT INTO ".toList ++ table ++ " (".toList ++ Text.join ", ".toList columns ++
        ") VALUES (".toList ++ (Text.join ", ".toList values ++ (")".toList ++ tail)) :=
    hsplit _ _ _ _
  have hsep : ownTokens ", " = [.comma] := by decide +kernel
  have hclose : ownTokens ")" = [.rParen] := by decide +kernel
  have hend : Exact text (")".toList ++ tail) (ownTokens ")" ++ tt) :=
    (exact_own hascii (by decide +kernel)).append htail hopens
  have hopens' : opens (")".toList ++ tail) := opens_append (by decide) hopens
  obtain ⟨row, hrow, ⟨hexacts, hes⟩ | ⟨hnone, before, bad, behind, rfl, hexacts, hbad⟩⟩ :=
    readsItems_taken hvalues
  · have hjoin := (exact_join hascii (s := ", ") (by decide +kernel) hexacts).append hend hopens'
    rw [hsep, hclose] at hjoin
    have hlexes : Lexes text (insertText table columns values ++ tail) (.insert :: (.into :: (ts ++
        .lParen :: ([Token.comma].intercalate (list.map Prod.snd) ++ [.rParen, .values])) ++
          (inParens ([Token.comma].intercalate (row.map Prod.snd)) ++ tt))) := by
      rw [hwhole]
      exact (hfirm.append hjoin).lexes_iff.mpr (by simp [inParens])
    refine .inl ⟨_, hes, parse_eq_of_takes starts_insert hlexes fun w => ?_⟩
    have hrow_ne : row ≠ [] := by
      rintro rfl
      cases hexacts
      exact hne' rfl
    exact parseInsert_takes htakes hlist_ne hlist hrow_ne hrow (hreturning w) hcomma
  · refine .inr ⟨hnone, fun stmt hparse => ?_⟩
    obtain ⟨tokens, htokens, -⟩ := Outcome.bind_eq_ok.mp hparse
    obtain ⟨ts', hlexes, -⟩ := tokenizeFrom_ok htokens
    rw [String.toList_ofList] at hlexes
    have hlexes' := hlexes
    rw [hwhole, hfirm] at hlexes'
    obtain ⟨tr, rfl, hrest⟩ := hlexes'
    obtain ⟨t, e, u, more, ht, hu, rfl⟩ := lexes_values hascii hexacts hbad hopens' hrest
    refine parse_ne_ok_of_insert hlexes (fun w p hp => ?_) hparse
    refine @parseInsert_fails _ _ _ _ htakes _ hlist_ne hlist _ hrow _ _ _ ht hu (more ++ [.eof]) _ ?_
    rw [hp]
    simp

/-- A statement that ends behind its row. -/
theorem parse_insertText (htable : NamesTable text d table name) (hne : columns ≠ [])
    (hcolumns : List.Forall₂ (NamesColumn text) columns names) (hne' : values ≠ [])
    {es : List (Option Expr)} (hvalues : List.Forall₂ (ReadsValue text) values es) :
    (∃ row, List.Forall₂ ReadValue es row ∧
      parse text d (String.ofList (insertText table columns values)) =
        .ok (.insert name (some names) [row] none)) ∨
    none ∈ es ∧ ∀ stmt, parse text d (String.ofList (insertText table columns values)) ≠ .ok stmt := by
  have hnil : Exact text [] [] := fun r ts' _ => ⟨fun h => ⟨ts', rfl, h⟩, fun ⟨_, heq, h⟩ => heq ▸ h⟩
  have hreturning : ∀ w, Takes left (parseReturningClause d w) [] none (· = .eof) := fun w =>
    alt_miss (fun t ht => by rw [ht]; rfl) (Takes.pure none)
  have hparse := parse_insertWith hascii htable hne hcolumns hne'
    (hvalues.imp fun _ _ h => h.item) hnil rfl (by decide) hreturning
  rwa [List.append_nil] at hparse

end Whole

end ChocoBase.Sql
