import ChocoBase.Sql.Parts

/-!
# Literals with doubled quotes

A text in quotes, with its own quotes doubled, is one literal wherever a statement is put
together from it: what stands behind the literal is read as if it stood alone.
-/

namespace ChocoBase.Sql

open ChocoBase.Foundation

/-- `s.replace('\'', "''")` -/
def escapeSqlString (s : String) : String :=
  String.ofList (s.toList.flatMap fun c => if c = '\'' then ['\'', '\''] else [c])

def inQuotes (s : String) : String := "'" ++ escapeSqlString s ++ "'"

/-- A token at the start of a text, and what is read behind it. -/
def withFirst (token : Token) (tokens : Outcome ParseError (List SpannedToken)) :
    Outcome ParseError (List SpannedToken) := do
  let tokens ← tokens
  return ⟨token, 0⟩ :: tokens

variable {text : TextLibrary}

theorem inQuotes_toList (s : String) : (inQuotes s).toList =
    '\'' :: ((s.toList.flatMap fun c => if c = '\'' then ['\'', '\''] else [c]) ++ ['\'']) := by
  simp [inQuotes, escapeSqlString]

theorem lexeme_inQuotes (hascii : text.LikeAscii) (s : String) {rest : List Char}
    (hrest : rest.head? ≠ some '\'') :
    lexeme text '\'' ((s.toList.flatMap fun c => if c = '\'' then ['\'', '\''] else [c]) ++
      ['\''] ++ rest) = .ok (some (.stringLiteral s), rest) := by
  obtain ⟨c, cs, hcons, hread⟩ := readsAs_quoted hascii s.toList
  obtain ⟨rfl, rfl⟩ := List.cons.inj hcons
  rw [String.ofList_toList] at hread
  refine lexeme_append (r := []) (by rwa [List.append_nil]) ?_
  have hblank : text.isWhitespace '\'' = false := hascii.isWhitespace '\'' (by decide)
  simpa [readsOn, hblank] using hrest

/-- No text breaks out of the quotes: the text behind them is read as it is read alone. -/
theorem tokenize_inQuotes (hascii : text.LikeAscii) (s suffix : String)
    (hsuffix : suffix.toList.head? ≠ some '\'') :
    tokenize text (inQuotes s ++ suffix) = withFirst (.stringLiteral s)
      (behind (utf8Length (inQuotes s).toList) (tokenize text suffix)) := by
  have hchars : (inQuotes s ++ suffix).toList = '\'' ::
      ((s.toList.flatMap fun c => if c = '\'' then ['\'', '\''] else [c]) ++ ['\''] ++
        suffix.toList) := by
    rw [String.toList_append, inQuotes_toList, List.cons_append]
  have htotal : utf8Length (inQuotes s ++ suffix).toList =
      utf8Length (inQuotes s).toList + utf8Length suffix.toList := by
    rw [String.toList_append, utf8Length_append]
  have hrest {fuel : Nat} (hfuel : suffix.toList.length ≤ fuel) :
      tokenizeFrom text (utf8Length (inQuotes s).toList + utf8Length suffix.toList) fuel
        suffix.toList = behind (utf8Length (inQuotes s).toList) (tokenize text suffix) :=
    tokenizeFrom_behind le_rfl hfuel le_rfl
  unfold tokenize at hrest ⊢
  dsimp only
  rw [htotal, hchars, List.length_cons]
  simp only [tokenizeFrom, lexeme_inQuotes hascii s hsuffix]
  rw [hrest (by rw [List.length_append]; omega), ← hchars, htotal, Nat.sub_self]
  rfl

theorem tokenize_inQuotes_doubled : tokenize asciiLibrary "'it''s' = 1" =
    .ok [⟨.stringLiteral "it's", 0⟩, ⟨.eq, 8⟩, ⟨.intLiteral 1, 10⟩, ⟨.eof, 11⟩] := by
  have hquoted : "'it''s' = 1" = inQuotes "it's" ++ " = 1" := by decide
  rw [hquoted, tokenize_inQuotes asciiLibrary_likeAscii "it's" " = 1" (by decide)]
  decide

end ChocoBase.Sql
