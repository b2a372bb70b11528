import ChocoBase.Sql.Lexemes

/-!
# A text and its lexemes

The lexer cuts a text into lexemes, one behind the other.  What it reads from the front of a
text does not depend on where the text stands, but for the positions of the tokens.
-/

namespace ChocoBase.Sql

open ChocoBase.Foundation

variable {text : TextLibrary} {c : Char} {cs r r' rest rest' : List Char} {t : Option Token}

theorem lexeme_blank (hc : text.isWhitespace c) : lexeme text c rest = .ok (none, rest) :=
  if_pos hc

/-! ## The rest of a text -/

theorem skipBlockComment_suffix (h : skipBlockComment rest = some rest') : rest' <:+ rest := by
  induction rest using skipBlockComment.induct with
  | case1 => simp [skipBlockComment] at h
  | case2 r =>
      obtain rfl : r = rest' := by simpa [skipBlockComment] using h
      exact ⟨['*', '/'], rfl⟩
  | case3 x r hne ih =>
      rw [skipBlockComment.eq_3 _ _ hne] at h
      exact (ih h).trans (List.suffix_cons x r)

theorem readQuoted_suffix {quote : Char} {s : List Char}
    (h : readQuoted quote rest = some (s, rest')) : rest' <:+ rest := by
  induction rest using readQuoted.induct quote generalizing s rest' with
  | case1 => simp [readQuoted] at h
  | case2 =>
      simp only [readQuoted, if_pos, Option.some.injEq, Prod.mk.injEq] at h
      rw [← h.2]
      exact List.nil_suffix
  | case3 x hne => simp [readQuoted, hne] at h
  | case4 r ih =>
      simp only [readQuoted, if_pos, Option.map_eq_some_iff] at h
      obtain ⟨⟨s', r'⟩, hr, heq⟩ := h
      cases heq
      exact (ih hr).trans (List.suffix_append [quote, quote] r)
  | case5 x r hne =>
      simp only [readQuoted, if_pos, if_neg hne, Option.some.injEq, Prod.mk.injEq] at h
      rw [← h.2]
      exact List.suffix_cons quote _
  | case6 x y r hne ih =>
      simp only [readQuoted, if_neg hne, Option.map_eq_some_iff] at h
      obtain ⟨⟨s', r'⟩, hr, heq⟩ := h
      cases heq
      exact (ih hr).trans (List.suffix_cons x _)

theorem lexMinus_suffix (h : lexMinus rest = .ok (t, rest')) : rest' <:+ rest := by
  unfold lexMinus at h
  split at h
  · next r =>
      cases h
      exact ((List.drop_suffix _ _).trans (List.dropWhile_suffix _)).trans (List.suffix_cons '-' r)
  · next r =>
      cases h
      exact List.suffix_append ['>', '>'] rest'
  · cases h
    exact List.suffix_cons '>' rest'
  · simp only at h
    split at h
    · cases h
    · split at h
      · cases h
        exact List.dropWhile_suffix _
      · cases h

theorem lexSlash_suffix (h : lexSlash rest = .ok (t, rest')) : rest' <:+ rest := by
  unfold lexSlash at h
  split at h
  · split at h
    · next hskip =>
        cases h
        exact (skipBlockComment_suffix hskip).trans (List.suffix_cons '*' _)
    · cases h
  · cases h

theorem lexNumber_suffix (h : lexNumber text c rest = .ok (t, rest')) : rest' <:+ rest := by
  have happend := readNumber_append false rest
  unfold lexNumber at h
  generalize readNumber false rest = number at h happend
  obtain ⟨tail, hasDot, r⟩ := number
  simp only at h happend
  rw [← happend]
  split at h <;> split at h <;> cases h <;> exact List.suffix_append tail _

/-- A lexeme is read from the front of the text. -/
theorem lexeme_suffix (h : lexeme text c rest = .ok (t, rest')) : rest' <:+ rest := by
  unfold lexeme at h
  split at h
  · cases h
    exact List.suffix_rfl
  · split at h
    case h_8 =>
      split at h <;> cases h
      · exact List.suffix_cons '=' rest'
      · exact List.suffix_cons '>' rest'
      · exact List.suffix_rfl
    case h_9 =>
      split at h <;> cases h
      · exact List.suffix_cons '=' rest'
      · exact List.suffix_rfl
    case h_10 => exact lexMinus_suffix h
    case h_11 => exact lexSlash_suffix h
    case h_12 =>
      split at h <;> cases h
      exact List.suffix_cons '=' rest'
    case h_13 =>
      split at h
      · next hread =>
          cases h
          exact readQuoted_suffix hread
      · cases h
    case h_14 =>
      split at h
      · next hread =>
          cases h
          exact readQuoted_suffix hread
      · cases h
    case h_15 =>
      split at h
      · exact lexNumber_suffix h
      · split at h
        · cases h
          exact List.dropWhile_suffix _
        · cases h
    all_goals
      cases h
      exact List.suffix_rfl

/-! ## What stops a lexeme -/

theorem dropWhile_head (p : Char → Bool) (chars : List Char) :
    (chars.dropWhile p).head?.any p = false := by
  induction chars with
  | nil => rfl
  | cons x chars ih =>
      by_cases hx : p x
      · rwa [List.dropWhile_cons_of_pos hx]
      · simpa [List.dropWhile_cons_of_neg hx] using hx

theorem readQuoted_head {quote : Char} {s : List Char}
    (h : readQuoted quote rest = some (s, rest')) : rest'.head? ≠ some quote := by
  induction rest using readQuoted.induct quote generalizing s rest' with
  | case1 => simp [readQuoted] at h
  | case2 =>
      simp only [readQuoted, if_pos, Option.some.injEq, Prod.mk.injEq] at h
      simp [← h.2]
  | case3 x hne => simp [readQuoted, hne] at h
  | case4 r ih =>
      simp only [readQuoted, if_pos, Option.map_eq_some_iff] at h
      obtain ⟨⟨s', r'⟩, hr, heq⟩ := h
      cases heq
      exact ih hr
  | case5 x r hne =>
      simp only [readQuoted, if_pos, if_neg hne, Option.some.injEq, Prod.mk.injEq] at h
      simpa [← h.2] using hne
  | case6 x y r hne ih =>
      simp only [readQuoted, if_neg hne, Option.map_eq_some_iff] at h
      obtain ⟨⟨s', r'⟩, hr, heq⟩ := h
      cases heq
      exact ih hr

theorem readNumber_head (hasDot : Bool) (chars : List Char) :
    (readNumber hasDot chars).2.2.head?.any Char.isDigit = false := by
  induction hasDot, chars using readNumber.induct with
  | case1 hasDot => rfl
  | case2 hasDot x rest hdigit s hasDot' rest' heq ih => simpa [readNumber, hdigit] using ih
  | case3 hasDot x rest hdigit hdot s hasDot' rest' heq ih =>
      simpa [readNumber, hdigit, hdot] using ih
  | case4 hasDot x rest hdigit hdot => simp [readNumber, hdigit, hdot]

/-- A number goes on behind a dot only if it has one already. -/
theorem readNumber_dot (hasDot : Bool) (chars : List Char) :
    hasDot = true ∨ '.' ∈ (readNumber hasDot chars).1 ∨
      (readNumber hasDot chars).2.2.head? ≠ some '.' ∨
        (readNumber hasDot chars).2.2.tail.head?.any Char.isDigit = false := by
  induction hasDot, chars using readNumber.induct with
  | case1 hasDot => simp [readNumber]
  | case2 hasDot x rest hdigit s hasDot' rest' heq ih =>
      rw [heq] at ih
      simp only [readNumber, if_pos hdigit, heq, List.mem_cons]
      rcases ih with ih | ih | ih
      · exact .inl ih
      · exact .inr (.inl (.inr ih))
      · exact .inr (.inr ih)
  | case3 hasDot x rest hdigit hdot s hasDot' rest' heq ih =>
      refine .inr (.inl ?_)
      rw [readNumber, if_neg hdigit, if_pos hdot, heq]
      exact List.mem_cons.mpr (.inl hdot.1.symm)
  | case4 hasDot x rest hdigit hdot =>
      simp only [readNumber, if_neg hdigit, if_neg hdot, List.head?_cons, List.tail_cons]
      by_cases hhas : hasDot = true
      · exact .inl hhas
      · refine .inr (.inr ?_)
        by_cases hx : x = '.'
        · refine .inr ?_
          simpa [hx, hhas] using hdot
        · exact .inl (by simpa using hx)

theorem lexMinus_readsOn (hblank : text.isWhitespace '-' = false)
    (h : lexMinus (cs ++ r) = .ok (t, r)) : readsOn text ('-' :: cs) r = false := by
  rw [readsOn, if_neg (by simp [hblank])]
  unfold lexMinus at h
  split at h
  · next rest heq =>
      obtain ⟨rfl, hrest⟩ := Prod.mk.inj (Except.ok.inj h)
      cases cs with
      | nil =>
          obtain rfl : r = '-' :: rest := heq
          have := skipLineComment_length rest
          rw [hrest, List.length_cons] at this
          omega
      | cons x cs =>
          obtain ⟨rfl, rfl⟩ := List.cons.inj heq
          by_cases hr : r = []
          · simp [hr]
          · have hlast : ('-' :: cs).getLast? = some '\n' := by
              have hlast := skipLineComment_getLast hrest hr
              cases cs with
              | nil => cases hlast
              | cons y cs => rwa [List.getLast?_cons_cons]
            simp [hlast]
  · next rest heq =>
      obtain ⟨rfl, rfl⟩ := Prod.mk.inj (Except.ok.inj h)
      obtain rfl : cs = ['>', '>'] := @List.append_cancel_right _ _ rest _ (by simpa using heq)
      rfl
  · next rest hne heq =>
      obtain ⟨rfl, rfl⟩ := Prod.mk.inj (Except.ok.inj h)
      obtain rfl : cs = ['>'] := @List.append_cancel_right _ _ rest _ (by simpa using heq)
      cases rest with
      | nil => rfl
      | cons y rest =>
          have hy : y ≠ '>' := fun hy => hne rest (by rw [← hy])
          simpa using hy
  · next hcomment harrow harrow' =>
      simp only at h
      split at h
      · cases h
      · next hdigits =>
          split at h
          · obtain ⟨-, hrest⟩ := Prod.mk.inj (Except.ok.inj h)
            have hhead : r.head?.any Char.isDigit = false := by
              rw [← hrest]
              exact dropWhile_head _ _
            cases cs with
            | nil => simpa using hhead
            | cons x cs =>
                have hminus : x ≠ '-' := fun hx => hcomment (cs ++ r) (by rw [hx]; rfl)
                have hgt : x ≠ '>' := fun hx => harrow' (cs ++ r) (by rw [hx]; rfl)
                simpa [hminus, hgt] using hhead
          · cases h

theorem lexNumber_stop (h : lexNumber text c (cs ++ r) = .ok (t, r)) :
    r.head?.any Char.isDigit = false ∧
      ('.' ∈ cs ∨ r.head? ≠ some '.' ∨ r.tail.head?.any Char.isDigit = false) := by
  have hhead := readNumber_head false (cs ++ r)
  have hdot := readNumber_dot false (cs ++ r)
  have happend := readNumber_append false (cs ++ r)
  unfold lexNumber at h
  rcases hnumber : readNumber false (cs ++ r) with ⟨tail, has, rest⟩
  rw [hnumber] at h hhead hdot happend
  have hrest : rest = r := by
    simp only at h
    split at h <;> split at h <;> cases h <;> rfl
  subst hrest
  obtain rfl := List.append_cancel_right happend
  exact ⟨hhead, by simpa using hdot⟩

/-- A lexeme that was read does not read on. -/
theorem readsOn_of_lexeme (hascii : text.LikeAscii)
    (h : lexeme text c (cs ++ r) = .ok (t, r)) : readsOn text (c :: cs) r = false := by
  by_cases hblank : text.isWhitespace c
  · simp [readsOn, hblank]
  have hread : lexeme text c (cs ++ r) = _ := if_neg hblank
  rw [hread] at h
  split at h
  case h_8 =>
    rw [readsOn, if_neg hblank]
    split at h
    · next rest heq =>
        obtain ⟨-, rfl⟩ := Prod.mk.inj (Except.ok.inj h)
        obtain rfl : cs = ['='] := @List.append_cancel_right _ _ rest _ (by simpa using heq)
        rfl
    · next rest heq =>
        obtain ⟨-, rfl⟩ := Prod.mk.inj (Except.ok.inj h)
        obtain rfl : cs = ['>'] := @List.append_cancel_right _ _ rest _ (by simpa using heq)
        rfl
    · next heq hgt =>
        obtain ⟨-, hrest⟩ := Prod.mk.inj (Except.ok.inj h)
        obtain rfl : cs = [] := List.append_left_eq_self.mp hrest
        rcases r with _ | ⟨y, r⟩
        · rfl
        · have hy : y ≠ '=' ∧ y ≠ '>' :=
            ⟨fun hy => heq r (by rw [hy]; rfl), fun hy => hgt r (by rw [hy]; rfl)⟩
          simpa using hy
  case h_9 =>
    rw [readsOn, if_neg hblank]
    split at h
    · next rest heq =>
        obtain ⟨-, rfl⟩ := Prod.mk.inj (Except.ok.inj h)
        obtain rfl : cs = ['='] := @List.append_cancel_right _ _ rest _ (by simpa using heq)
        rfl
    · next heq =>
        obtain ⟨-, hrest⟩ := Prod.mk.inj (Except.ok.inj h)
        obtain rfl : cs = [] := List.append_left_eq_self.mp hrest
        rcases r with _ | ⟨y, r⟩
        · rfl
        · have hy : y ≠ '=' := fun hy => heq r (by rw [hy]; rfl)
          simpa using hy
  case h_10 => exact lexMinus_readsOn (by simpa using hblank) h
  case h_13 =>
    rw [readsOn, if_neg hblank]
    split at h
    · next hquoted =>
        obtain ⟨-, rfl⟩ := Prod.mk.inj (Except.ok.inj h)
        simpa using readQuoted_head hquoted
    · cases h
  case h_14 =>
    rw [readsOn, if_neg hblank]
    split at h
    · next hquoted =>
        obtain ⟨-, rfl⟩ := Prod.mk.inj (Except.ok.inj h)
        simpa using readQuoted_head hquoted
    · cases h
  case h_15 =>
    have hgoal : (if c.isDigit then
        r.head?.any Char.isDigit ||
          !cs.contains '.' && r.head? = some '.' && r.tail.head?.any Char.isDigit
      else if text.isAlphabetic c ∨ c = '_' then r.head?.any (inWord text)
      else false) = false := by
      split at h
      · next hdigit =>
          obtain ⟨hhead, hdot⟩ := lexNumber_stop h
          rw [if_pos hdigit, hhead]
          simpa [or_iff_not_imp_left] using hdot
      · next hdigit =>
          rw [if_neg hdigit]
          split at h
          · next hword =>
              obtain ⟨-, hrest⟩ := Prod.mk.inj (Except.ok.inj h)
              rw [if_pos hword, ← hrest]
              exact dropWhile_head _ _
          · cases h
    simpa only [readsOn, if_neg hblank] using hgoal
  all_goals
    rw [readsOn, if_neg hblank, if_neg (by decide),
      if_neg (by rw [hascii.isAlphabetic _ (by decide)]; decide)]
    all_goals decide

/-- What does not read on into a text does not read on into a part of it. -/
theorem readsOn_before {chars : List Char} (h : readsOn text chars (r ++ r') = false) :
    readsOn text chars r = false := by
  rcases r with _ | ⟨x, r⟩
  · exact readsOn_nil chars
  have htail : r.head?.any Char.isDigit = true → (r ++ r').head?.any Char.isDigit = true := by
    cases r <;> simp
  cases chars with
  | nil => rfl
  | cons c cs =>
      by_cases hblank : text.isWhitespace c
      · simp [readsOn, hblank]
      unfold readsOn at h ⊢
      simp only [if_neg hblank, List.cons_append, List.head?_cons, List.tail_cons] at h ⊢
      split at h
      case h_6 =>
        split at h
        · next hdigit =>
            rw [if_pos hdigit]
            simp only [Bool.or_eq_false_iff, Bool.and_eq_false_iff] at h ⊢
            exact ⟨h.1, h.2.imp_right fun hnext => by
              simpa using mt htail (by simpa using hnext)⟩
        · next hdigit =>
            rw [if_neg hdigit]
            exact h
      all_goals simpa using h

/-! ## Positions -/

theorem utf8Length_cons (c : Char) (cs : List Char) :
    utf8Length (c :: cs) = c.utf8Size + utf8Length cs := by
  simp [utf8Length]

theorem utf8Length_append (cs r : List Char) :
    utf8Length (cs ++ r) = utf8Length cs + utf8Length r := by
  simp [utf8Length]

theorem utf8Length_suffix (h : r <:+ cs) : utf8Length r ≤ utf8Length cs := by
  obtain ⟨front, rfl⟩ := h
  rw [utf8Length_append]
  omega

/-- The positions of a text that stands behind `width` bytes. -/
def behind (width : Nat) :
    Outcome ParseError (List SpannedToken) → Outcome ParseError (List SpannedToken)
  | .ok tokens => .ok (tokens.map fun t => { t with offset := width + t.offset })
  | .error e => .error { e with offset := width + e.offset }
  | .stop why => .stop why

theorem behind_bind (width : Nat) (x : Outcome ParseError (List SpannedToken))
    (front : List SpannedToken) :
    behind width (do let tokens ← x; return front ++ tokens) =
      (do
        let tokens ← behind width x
        return front.map (fun t => { t with offset := width + t.offset }) ++ tokens) := by
  cases x with
  | ok tokens => exact congrArg Outcome.ok (List.map_append ..)
  | error e => rfl
  | stop why => rfl

/-- What is read does not depend on what stands before. -/
theorem tokenizeFrom_behind {width total fuel fuel' : Nat} {chars : List Char}
    (htotal : utf8Length chars ≤ total) (hfuel : chars.length ≤ fuel)
    (hfuel' : chars.length ≤ fuel') :
    tokenizeFrom text (width + total) fuel chars =
      behind width (tokenizeFrom text total fuel' chars) := by
  induction fuel generalizing chars fuel' with
  | zero =>
      obtain rfl := List.length_eq_zero_iff.mp (Nat.le_zero.mp hfuel)
      cases fuel' <;> rfl
  | succ fuel ih =>
      cases chars with
      | nil => cases fuel' <;> rfl
      | cons c rest =>
          obtain _ | fuel' := fuel'
          · simp at hfuel'
          have hstart : width + total - utf8Length (c :: rest) =
              width + (total - utf8Length (c :: rest)) := by omega
          simp only [tokenizeFrom, hstart]
          cases hlexeme : lexeme text c rest with
          | error message => rfl
          | ok read =>
              obtain ⟨t, rest'⟩ := read
              have hlength := lexeme_length hlexeme
              have hwidth := utf8Length_suffix (lexeme_suffix hlexeme)
              rw [utf8Length_cons] at htotal
              simp only [List.length_cons] at hfuel hfuel'
              have hrest : tokenizeFrom text (width + total) fuel rest' =
                  behind width (tokenizeFrom text total fuel' rest') :=
                ih (by omega) (by omega) (by omega)
              dsimp only
              rw [behind_bind, hrest]
              cases t <;> rfl

/-! ## Cutting a text into lexemes -/

section Cutting

variable (text)

/-- A text cut into its lexemes, with the token of each. -/
inductive Parts : List Char → List (List Char × Option Token) → Prop
  | nil : Parts [] []
  | cons {c cs r t parts} (hlexeme : lexeme text c (cs ++ r) = .ok (t, r))
      (hrest : Parts r parts) : Parts (c :: (cs ++ r)) ((c :: cs, t) :: parts)

def textOf (parts : List (List Char × Option Token)) : List Char := parts.flatMap Prod.fst

def tokensOf (parts : List (List Char × Option Token)) : List Token := parts.filterMap Prod.snd

/-- The tokens with their positions, for parts that start at a byte. -/
def spansFrom : Nat → List (List Char × Option Token) → List SpannedToken
  | start, [] => [⟨.eof, start⟩]
  | start, (cs, t) :: parts =>
      (t.map fun token => ⟨token, start⟩).toList ++ spansFrom (start + utf8Length cs) parts

end Cutting

variable {chars : List Char} {parts front back : List (List Char × Option Token)}

theorem textOf_append (front back : List (List Char × Option Token)) :
    textOf (front ++ back) = textOf front ++ textOf back :=
  List.flatMap_append

theorem tokensOf_cons (part : List Char × Option Token) :
    tokensOf (part :: parts) = part.2.toList ++ tokensOf parts := by
  obtain ⟨cs, _ | t⟩ := part <;> rfl

theorem Parts.text_eq (h : Parts text chars parts) : textOf parts = chars := by
  induction h with
  | nil => rfl
  | cons _ _ ih => rw [textOf, List.flatMap_cons, ← textOf, ih, List.cons_append]

theorem Parts.lexes (h : Parts text chars parts) : Lexes text chars (tokensOf parts) := by
  induction h with
  | nil => exact .nil
  | cons hlexeme _ ih =>
      rw [tokensOf_cons]
      exact .step hlexeme ih

theorem exists_parts {ts : List Token} (h : Lexes text chars ts) :
    ∃ parts, Parts text chars parts ∧ tokensOf parts = ts := by
  induction h with
  | nil => exact ⟨[], .nil, rfl⟩
  | @step c rest t rest' ts hlexeme _ ih =>
      obtain ⟨parts, hparts, rfl⟩ := ih
      obtain ⟨cs, rfl⟩ := lexeme_suffix hlexeme
      exact ⟨(c :: cs, t) :: parts, .cons hlexeme hparts, tokensOf_cons _⟩

theorem Parts.unique (h : Parts text chars parts) {parts' : List (List Char × Option Token)}
    (h' : Parts text chars parts') : parts = parts' := by
  induction h generalizing parts' with
  | nil =>
      cases h'
      rfl
  | @cons c cs r t parts hlexeme hrest ih =>
      generalize hchars : c :: (cs ++ r) = chars at h'
      cases h' with
      | nil => cases hchars
      | @cons c' cs' r' t' parts' hlexeme' hrest' =>
          obtain ⟨rfl, hcs⟩ := List.cons.inj hchars
          rw [hcs, hlexeme'] at hlexeme
          obtain ⟨rfl, rfl⟩ := Prod.mk.inj (Except.ok.inj hlexeme)
          obtain rfl := List.append_cancel_right hcs
          rw [ih hrest']

/-- The lexemes up to any of them are lexemes without the rest of the text. -/
theorem Parts.before (hascii : text.LikeAscii) (h : Parts text chars (front ++ back)) :
    Parts text (textOf front) front := by
  induction front generalizing chars with
  | nil => exact .nil
  | cons part front ih =>
      cases h with
      | @cons c cs r t _ hlexeme hrest =>
          have htext : r = textOf front ++ textOf back := by
            rw [← hrest.text_eq]
            exact textOf_append front back
          have hread := readsOn_of_lexeme hascii hlexeme
          rw [htext] at hread
          exact .cons (lexeme_append hlexeme (readsOn_before hread)) (ih hrest)

theorem Parts.after (h : Parts text chars (front ++ back)) : Parts text (textOf back) back := by
  induction front generalizing chars with
  | nil => rwa [← h.text_eq] at h
  | cons part front ih =>
      cases h with
      | cons _ hrest => exact ih hrest

theorem tokenizeFrom_parts {total fuel : Nat} (h : Parts text chars parts)
    (htotal : utf8Length chars ≤ total) (hfuel : chars.length ≤ fuel) :
    tokenizeFrom text total fuel chars = .ok (spansFrom (total - utf8Length chars) parts) := by
  induction h generalizing fuel with
  | nil => cases fuel <;> rfl
  | @cons c cs r t parts hlexeme _ ih =>
      cases fuel with
      | zero => simp at hfuel
      | succ fuel =>
          rw [utf8Length_cons, utf8Length_append] at htotal
          rw [List.length_cons, List.length_append] at hfuel
          have hrest : tokenizeFrom text total fuel r =
              .ok (spansFrom (total - utf8Length r) parts) := ih (by omega) (by omega)
          have hnext : total - utf8Length r =
              total - utf8Length (c :: (cs ++ r)) + utf8Length (c :: cs) := by
            simp only [utf8Length_cons, utf8Length_append]
            omega
          simp only [tokenizeFrom, hlexeme, hrest, spansFrom, ← hnext]
          rfl

theorem tokenize_parts {src : String} (h : Parts text src.toList parts) :
    tokenize text src = .ok (spansFrom 0 parts) := by
  have hread := tokenizeFrom_parts h le_rfl le_rfl
  rwa [Nat.sub_self] at hread

end ChocoBase.Sql
