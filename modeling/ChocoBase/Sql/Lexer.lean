import ChocoBase.Foundation.Exec
import ChocoBase.Sql.Token
import Mathlib.Algebra.Group.Int.Defs
import Mathlib.Algebra.GroupWithZero.Nat

/-!
# The lexer

A step reads one lexeme: a token, or blanks or a comment, which give none.
Offsets are bytes of the source text.
-/

namespace ChocoBase.Sql

open ChocoBase.Foundation

/-- What the lexer uses of the standard library. -/
structure TextLibrary where
  isWhitespace : Char → Bool
  isAlphabetic : Char → Bool
  isAlphanumeric : Char → Bool
  toUppercase : String → String
  /-- `str::parse::<f64>` -/
  parseF64 : String → Option Float

/-- The library on ASCII texts without fractions. -/
def asciiLibrary : TextLibrary where
  isWhitespace c := c = ' ' || (9 ≤ c.toNat && c.toNat ≤ 13)
  isAlphabetic := Char.isAlpha
  isAlphanumeric := Char.isAlphanum
  toUppercase := String.toUpper
  parseF64 _ := none

structure ParseError where
  offset : Nat
  message : String
  deriving DecidableEq, Repr

def keywords : List (String × Token) :=
  [("CREATE", .create), ("TABLE", .table), ("DROP", .drop), ("INDEX", .index), ("ON", .on),
    ("INSERT", .insert), ("INTO", .into), ("VALUES", .values), ("SELECT", .select),
    ("FROM", .«from»), ("WHERE", .«where»), ("UPDATE", .update), ("SET", .set),
    ("DELETE", .delete), ("ORDER", .order), ("BY", .«by»), ("ASC", .asc), ("DESC", .desc),
    ("LIMIT", .limit), ("NOT", .not), ("NULL", .null), ("PRIMARY", .primary), ("KEY", .key),
    ("AND", .and), ("OR", .or), ("IS", .is), ("BEGIN", .begin), ("COMMIT", .commit),
    ("ROLLBACK", .rollback), ("TRANSACTION", .transaction), ("JOIN", .join), ("INNER", .inner),
    ("LEFT", .left), ("RIGHT", .right), ("CROSS", .cross), ("GROUP", .group),
    ("HAVING", .having), ("AS", .as), ("COUNT", .count), ("SUM", .sum), ("AVG", .avg),
    ("MIN", .min), ("MAX", .max), ("INTEGER", .kwInteger), ("FLOAT", .kwFloat),
    ("REAL", .kwFloat), ("DOUBLE", .kwFloat), ("VECTOR", .kwVector),
    ("COSINE_DISTANCE", .cosineDistance), ("L2_DISTANCE", .l2Distance),
    ("INNER_PRODUCT", .innerProduct), ("FTS_MATCH", .ftsMatch), ("MATCHES", .ftsMatch),
    ("FTS_RANK", .ftsRank), ("FTS_SNIPPET", .ftsSnippet), ("TS_HEADLINE", .ftsSnippet),
    ("TEXT", .kwText), ("BOOLEAN", .kwBoolean), ("JSON", .kwJson),
    ("JSON_EXTRACT", .jsonExtract), ("USER", .user), ("PASSWORD", .password),
    ("POLICY", .policy), ("ENABLE", .enable), ("DISABLE", .disable), ("ROW", .row),
    ("LEVEL", .level), ("SECURITY", .security), ("USING", .using), ("CHECK", .check),
    ("ROLE", .role), ("AUTH_UID", .authUid), ("ALTER", .alter), ("ADD", .add),
    ("RENAME", .rename), ("TO", .to), ("COLUMN", .column), ("FOR", .«for»), ("WITH", .«with»),
    ("ALL", .all), ("EXPLAIN", .explain), ("IN", .«in»), ("EXISTS", .exists), ("LIKE", .like),
    ("RETURNING", .returning), ("TRUE", .true), ("FALSE", .false)]

def digitsValue (digits : List Char) : Nat :=
  digits.foldl (fun n c => 10 * n + (c.toNat - 48)) 0

/-- `str::parse::<i64>` -/
def parseI64 (text : List Char) : Option Int64 :=
  let (negative, digits) :=
    match text with
    | '-' :: rest => (true, rest)
    | '+' :: rest => (false, rest)
    | _ => (false, text)
  if digits = [] ∨ digits.any (fun c => !c.isDigit) then none
  else
    let value : Int := if negative then -digitsValue digits else digitsValue digits
    if -2 ^ 63 ≤ value ∧ value < 2 ^ 63 then some (Int64.ofInt value) else none

def skipLineComment (chars : List Char) : List Char :=
  (chars.dropWhile fun ch => ch ≠ '\n').drop 1

/-- What follows the end of a block comment, if it has one. -/
def skipBlockComment : List Char → Option (List Char)
  | [] => none
  | '*' :: '/' :: rest => some rest
  | _ :: rest => skipBlockComment rest

/-- The text up to the closing quote, in which a doubled quote is a quote, and the rest. -/
def readQuoted (quote : Char) : List Char → Option (List Char × List Char)
  | [] => none
  | [c] => if c = quote then some ([], []) else none
  | c :: c' :: rest =>
      if c = quote then
        if c' = quote then (readQuoted quote rest).map fun (s, rest) => (quote :: s, rest)
        else some ([], c' :: rest)
      else (readQuoted quote (c' :: rest)).map fun (s, rest) => (c :: s, rest)

/-- The digits of a number, with at most one dot that a digit follows. -/
def readNumber (hasDot : Bool) : List Char → List Char × Bool × List Char
  | [] => ([], hasDot, [])
  | c :: rest =>
      if c.isDigit then
        let (text, hasDot', rest') := readNumber hasDot rest
        (c :: text, hasDot', rest')
      else if c = '.' ∧ hasDot = false ∧ rest.head?.any Char.isDigit then
        let (text, hasDot', rest') := readNumber true rest
        (c :: text, hasDot', rest')
      else ([], hasDot, c :: rest)

section Lexer

variable (text : TextLibrary)

def keywordOrIdentifier (word : String) : Token :=
  match keywords.lookup (text.toUppercase word) with
  | some token => token
  | none => .identifier word

def lexMinus (rest : List Char) : Except String (Option Token × List Char) :=
  match rest with
  | '-' :: rest => .ok (none, skipLineComment rest)
  | '>' :: '>' :: rest => .ok (some .arrowText, rest)
  | '>' :: rest => .ok (some .arrow, rest)
  | _ =>
      let digits := rest.takeWhile Char.isDigit
      if digits = [] then .error "unexpected '-'"
      else
        match parseI64 ('-' :: digits) with
        | some n => .ok (some (.intLiteral n), rest.dropWhile Char.isDigit)
        | none => .error "integer literal overflow"

def lexSlash (rest : List Char) : Except String (Option Token × List Char) :=
  match rest with
  | '*' :: rest =>
      match skipBlockComment rest with
      | some rest => .ok (none, rest)
      | none => .error "unterminated block comment"
  | _ => .error "unexpected '/'"

def lexNumber (c : Char) (rest : List Char) : Except String (Option Token × List Char) :=
  let (tail, hasDot, rest) := readNumber false rest
  if hasDot then
    match text.parseF64 (String.ofList (c :: tail)) with
    | some x => .ok (some (.floatLiteral x), rest)
    | none => .error "invalid float literal"
  else
    match parseI64 (c :: tail) with
    | some n => .ok (some (.intLiteral n), rest)
    | none => .error "invalid integer literal"

def lexWord (c : Char) (rest : List Char) : Option Token × List Char :=
  let inWord := fun c => text.isAlphanumeric c || c = '_'
  (some (keywordOrIdentifier text (String.ofList (c :: rest.takeWhile inWord))),
    rest.dropWhile inWord)

/-- The lexeme that starts with `c`. -/
def lexeme (c : Char) (rest : List Char) : Except String (Option Token × List Char) :=
  if text.isWhitespace c then .ok (none, rest)
  else
    match c with
    | '(' => .ok (some .lParen, rest)
    | ')' => .ok (some .rParen, rest)
    | ',' => .ok (some .comma, rest)
    | '*' => .ok (some .star, rest)
    | '.' => .ok (some .dot, rest)
    | ';' => .ok (some .semicolon, rest)
    | '=' => .ok (some .eq, rest)
    | '<' =>
        match rest with
        | '=' :: rest => .ok (some .ltEq, rest)
        | '>' :: rest => .ok (some .notEq, rest)
        | _ => .ok (some .lt, rest)
    | '>' =>
        match rest with
        | '=' :: rest => .ok (some .gtEq, rest)
        | _ => .ok (some .gt, rest)
    | '-' => lexMinus rest
    | '/' => lexSlash rest
    | '!' =>
        match rest with
        | '=' :: rest => .ok (some .notEq, rest)
        | _ => .error "unexpected '!'"
    | '\'' =>
        match readQuoted '\'' rest with
        | some (s, rest) => .ok (some (.stringLiteral (String.ofList s)), rest)
        | none => .error "unterminated string literal"
    | '"' =>
        match readQuoted '"' rest with
        | some (s, rest) => .ok (some (.identifier (String.ofList s)), rest)
        | none => .error "unterminated quoted identifier"
    | _ =>
        if c.isDigit then lexNumber text c rest
        else if text.isAlphabetic c ∨ c = '_' then .ok (lexWord text c rest)
        else .error ("unexpected character '" ++ c.toString ++ "'")

def utf8Length (chars : List Char) : Nat := (chars.map Char.utf8Size).sum

/-- `total` is the length of the source text. -/
def tokenizeFrom (total : Nat) : Nat → List Char → Outcome ParseError (List SpannedToken)
  | _, [] => .ok [⟨.eof, total⟩]
  | 0, _ :: _ => .stop .diverges
  | fuel + 1, c :: rest =>
      let start := total - utf8Length (c :: rest)
      match lexeme text c rest with
      | .error message => .error ⟨start, message⟩
      | .ok (token, rest) => do
          let tokens ← tokenizeFrom total fuel rest
          return (token.map fun token => ⟨token, start⟩).toList ++ tokens

def tokenize (src : String) : Outcome ParseError (List SpannedToken) :=
  let chars := src.toList
  tokenizeFrom text (utf8Length chars) chars.length chars

end Lexer

/-! ## Every step reads something -/

theorem skipBlockComment_length {chars rest : List Char} (h : skipBlockComment chars = some rest) :
    rest.length < chars.length := by
  induction chars using skipBlockComment.induct with
  | case1 => simp [skipBlockComment] at h
  | case2 rest' =>
      obtain rfl : rest' = rest := by simpa [skipBlockComment] using h
      rw [List.length_cons, List.length_cons]
      omega
  | case3 c rest' hne ih =>
      rw [skipBlockComment.eq_3 _ _ hne] at h
      simpa using Nat.lt_succ_of_lt (ih h)

theorem readQuoted_length {quote : Char} {chars s rest : List Char}
    (h : readQuoted quote chars = some (s, rest)) : rest.length < chars.length := by
  induction chars using readQuoted.induct quote generalizing s rest with
  | case1 => simp [readQuoted] at h
  | case2 => simp [readQuoted] at h; simp [h]
  | case3 c hne => simp [readQuoted, hne] at h
  | case4 rest' ih =>
      simp only [readQuoted, if_pos, Option.map_eq_some_iff] at h
      obtain ⟨⟨s', r⟩, hr, heq⟩ := h
      cases heq
      have := ih hr
      simp only [List.length_cons]
      omega
  | case5 c' rest' hne => simp [readQuoted, hne] at h; simp [← h]
  | case6 c c' rest' hne ih =>
      simp only [readQuoted, if_neg hne, Option.map_eq_some_iff] at h
      obtain ⟨⟨s', r⟩, hr, heq⟩ := h
      cases heq
      have := ih hr
      simp only [List.length_cons] at this ⊢
      omega

theorem readNumber_append (hasDot : Bool) (chars : List Char) :
    (readNumber hasDot chars).1 ++ (readNumber hasDot chars).2.2 = chars := by
  induction hasDot, chars using readNumber.induct with
  | case1 hasDot => rfl
  | case2 hasDot c rest hdigit text hasDot' rest' heq ih => simpa [readNumber, hdigit] using ih
  | case3 hasDot c rest hdigit hdot text hasDot' rest' heq ih =>
      simpa [readNumber, hdigit, hdot] using ih
  | case4 hasDot c rest hdigit hdot => simp [readNumber, hdigit, hdot]

variable {text : TextLibrary} {c : Char} {rest rest' : List Char} {t : Option Token}

theorem lexMinus_length (h : lexMinus rest = .ok (t, rest')) : rest'.length ≤ rest.length := by
  unfold lexMinus at h
  split at h
  · next r =>
      cases h
      have := (List.dropWhile_sublist (fun ch => decide (ch ≠ '\n')) (l := r)).length_le
      simp only [skipLineComment, List.length_drop, List.length_cons]
      omega
  · cases h; simp; omega
  · cases h; simp
  · simp only at h
    split at h
    · cases h
    · split at h
      · cases h; exact (List.dropWhile_sublist _).length_le
      · cases h

theorem lexSlash_length (h : lexSlash rest = .ok (t, rest')) : rest'.length ≤ rest.length := by
  unfold lexSlash at h
  split at h
  · split at h
    · next hskip =>
        cases h
        have := skipBlockComment_length hskip
        simp only [List.length_cons]
        omega
    · cases h
  · cases h

theorem lexNumber_length (h : lexNumber text c rest = .ok (t, rest')) :
    rest'.length ≤ rest.length := by
  have happend := congrArg List.length (readNumber_append false rest)
  rw [List.length_append] at happend
  unfold lexNumber at h
  generalize readNumber false rest = number at h happend
  obtain ⟨tail, hasDot, r⟩ := number
  simp only at h happend
  split at h <;> split at h <;> cases h <;> omega

theorem lexeme_length (h : lexeme text c rest = .ok (t, rest')) : rest'.length ≤ rest.length := by
  unfold lexeme at h
  split at h
  · cases h; exact le_rfl
  · split at h
    case h_8 => split at h <;> cases h <;> simp
    case h_9 => split at h <;> cases h <;> simp
    case h_10 => exact lexMinus_length h
    case h_11 => exact lexSlash_length h
    case h_12 => split at h <;> cases h; simp
    case h_13 =>
      split at h
      · next hread => cases h; exact (readQuoted_length hread).le
      · cases h
    case h_14 =>
      split at h
      · next hread => cases h; exact (readQuoted_length hread).le
      · cases h
    case h_15 =>
      split at h
      · exact lexNumber_length h
      · split at h
        · cases h; exact (List.dropWhile_sublist _).length_le
        · cases h
    all_goals cases h; exact le_rfl

/-! ## Runs of the lexer -/

variable (text) in
/-- The tokens of a text, without the last one. -/
inductive Lexes : List Char → List Token → Prop
  | nil : Lexes [] []
  | step {c rest t rest' ts} (hlexeme : lexeme text c rest = .ok (t, rest'))
      (hrest : Lexes rest' ts) : Lexes (c :: rest) (t.toList ++ ts)

theorem keywordOrIdentifier_ne_eof (word : String) : keywordOrIdentifier text word ≠ .eof := by
  have hall : ∀ entry ∈ keywords, entry.2 ≠ .eof := by decide
  unfold keywordOrIdentifier
  split
  · next token hlookup =>
      obtain ⟨l, l', heq, -⟩ := List.lookup_eq_some_iff.mp hlookup
      exact hall (text.toUppercase word, token) (by simp [heq])
  · simp

theorem lexeme_ne_eof (h : lexeme text c rest = .ok (t, rest')) : t ≠ some .eof := by
  unfold lexeme at h
  split at h
  · cases h; simp
  · split at h
    case h_8 => split at h <;> cases h <;> simp
    case h_9 => split at h <;> cases h <;> simp
    case h_10 =>
      unfold lexMinus at h
      split at h
      case h_4 => simp only at h; split at h <;> [cases h; (split at h <;> cases h; simp)]
      all_goals cases h; simp
    case h_11 =>
      unfold lexSlash at h
      split at h
      · split at h <;> cases h; simp
      · cases h
    case h_12 => split at h <;> cases h; simp
    case h_13 => split at h <;> cases h; simp
    case h_14 => split at h <;> cases h; simp
    case h_15 =>
      split at h
      · unfold lexNumber at h
        simp only at h
        split at h <;> split at h <;> cases h <;> simp
      · split at h
        · cases h
          simpa using keywordOrIdentifier_ne_eof _
        · cases h
    all_goals cases h; simp

theorem Lexes.eof_notMem {chars : List Char} {ts : List Token} (h : Lexes text chars ts) :
    .eof ∉ ts := by
  induction h with
  | nil => simp
  | @step c rest t rest' ts hlexeme _ ih =>
      cases t with
      | none => simpa using ih
      | some token =>
          have hne := lexeme_ne_eof hlexeme
          simp only [Option.toList_some, List.singleton_append, List.mem_cons, not_or]
          exact ⟨fun heq => hne (heq ▸ rfl), ih⟩

theorem tokenizeFrom_ok {total fuel : Nat} {chars : List Char} {tokens : List SpannedToken}
    (h : tokenizeFrom text total fuel chars = .ok tokens) :
    ∃ ts, Lexes text chars ts ∧ tokens.map SpannedToken.token = ts ++ [.eof] := by
  induction fuel generalizing chars tokens with
  | zero =>
      cases chars with
      | nil => cases h; exact ⟨[], .nil, rfl⟩
      | cons c rest => cases h
  | succ fuel ih =>
      cases chars with
      | nil => cases h; exact ⟨[], .nil, rfl⟩
      | cons c rest =>
          simp only [tokenizeFrom] at h
          split at h
          · cases h
          · next t rest' hlexeme =>
              obtain ⟨tokens', htokens', heq⟩ := Outcome.bind_eq_ok.mp h
              obtain ⟨ts, hts, hmap⟩ := ih htokens'
              cases heq
              refine ⟨t.toList ++ ts, .step hlexeme hts, ?_⟩
              cases t <;> simp [hmap]

/-- Every text is read to its end. -/
theorem tokenizeFrom_complete {total fuel : Nat} {chars : List Char} {ts : List Token}
    (h : Lexes text chars ts) (hfuel : chars.length ≤ fuel) :
    ∃ tokens, tokenizeFrom text total fuel chars = .ok tokens ∧
      tokens.map SpannedToken.token = ts ++ [.eof] := by
  induction h generalizing fuel with
  | nil => cases fuel <;> exact ⟨_, rfl, rfl⟩
  | @step c rest t rest' ts hlexeme _ ih =>
      cases fuel with
      | zero => simp at hfuel
      | succ fuel =>
          have hlength := lexeme_length hlexeme
          obtain ⟨tokens, htokens, hmap⟩ : ∃ tokens,
              tokenizeFrom text total fuel rest' = .ok tokens ∧
                tokens.map SpannedToken.token = ts ++ [.eof] :=
            ih (by simp at hfuel; omega)
          refine ⟨_, by simp only [tokenizeFrom, hlexeme, htokens]; rfl, ?_⟩
          cases t <;> simp [hmap]

theorem tokenize_eq_ok_iff {src : String} {ts : List Token} :
    (∃ tokens, tokenize text src = .ok tokens ∧
      tokens.map SpannedToken.token = ts ++ [.eof]) ↔ Lexes text src.toList ts := by
  constructor
  · rintro ⟨tokens, htokens, hmap⟩
    obtain ⟨ts', hts', hmap'⟩ := tokenizeFrom_ok htokens
    rwa [List.append_cancel_right (hmap.symm.trans hmap')]
  · exact fun h => tokenizeFrom_complete h le_rfl

theorem tokenizeFrom_ne_stop {total fuel : Nat} {chars : List Char} (hfuel : chars.length ≤ fuel)
    (why : Stop) : tokenizeFrom text total fuel chars ≠ .stop why := by
  induction fuel generalizing chars with
  | zero =>
      obtain rfl := List.length_eq_zero_iff.mp (Nat.le_zero.mp hfuel)
      simp [tokenizeFrom]
  | succ fuel ih =>
      cases chars with
      | nil => simp [tokenizeFrom]
      | cons c rest =>
          simp only [tokenizeFrom]
          split
          · simp
          · next t rest' hlexeme =>
              have hlength := lexeme_length hlexeme
              have hrest : tokenizeFrom text total fuel rest' ≠ .stop why :=
                ih (by simp at hfuel; omega)
              intro hstop
              cases hok : tokenizeFrom text total fuel rest' with
              | ok tokens => rw [hok] at hstop; cases hstop
              | error e => rw [hok] at hstop; cases hstop
              | stop why' => rw [hok] at hstop; cases hstop; exact hrest hok

theorem tokenize_ne_stop (src : String) (why : Stop) : tokenize text src ≠ .stop why :=
  tokenizeFrom_ne_stop le_rfl why

end ChocoBase.Sql
