import ChocoBase.Sql.Parts
import Mathlib.Data.List.Forall2

/-!
# Splitting a script into statements

A script is cut at its semicolons, as the lexer finds them, and the pieces are trimmed.  A
piece without any tokens is dropped only if it is blank: a comment on its own remains.
-/

namespace ChocoBase.Sql

open ChocoBase.Foundation

section Split

variable (text : TextLibrary)

/-- The loop of `splitStatements` from a token on; none where the program panics. -/
def splitLoop (sql : Text.Chars) (lastOffset : Nat) : List SpannedToken → Option (List Text.Chars)
  | [] =>
      if lastOffset < utf8Length sql then do
        let trailing := Text.trim text.isWhitespace
          (← Text.byteSlice lastOffset (utf8Length sql) sql)
        return if trailing = [] then [] else [trailing]
      else some []
  | sp :: tokens =>
      if sp.token = .semicolon then do
        let stmt := Text.trim text.isWhitespace (← Text.byteSlice lastOffset sp.offset sql)
        let stmts ← splitLoop sql (sp.offset + 1) tokens
        return if stmt = [] then stmts else stmt :: stmts
      else splitLoop sql lastOffset tokens

def splitStatements (sql : String) : Option (List String) :=
  match tokenize text sql with
  | .ok tokens => (splitLoop text sql.toList 0 tokens).map (·.map String.ofList)
  | .error _ =>
      let parts := (Text.splitOn ';' sql.toList).map (Text.trim text.isWhitespace)
      some ((parts.filter (· ≠ [])).map String.ofList)
  | .stop _ => none

end Split

/-! ## Blanks around a text -/

variable {text : TextLibrary}

theorem Lexes.trimStart {s : List Char} {ts : List Token} (h : Lexes text s ts) :
    Lexes text (Text.trimStart text.isWhitespace s) ts := by
  induction h with
  | nil => exact .nil
  | @step c rest t rest' ts hlexeme hrest ih =>
      rw [Text.trimStart_cons]
      split
      · next hc =>
          rw [lexeme_blank hc] at hlexeme
          obtain ⟨rfl, rfl⟩ := Prod.mk.inj (Except.ok.inj hlexeme)
          exact ih
      · exact .step hlexeme hrest

/-- A blank at the end of a line comment is no more part of it than one behind it. -/
theorem skipLineComment_concat {cs : List Char} {w : Char}
    (h : skipLineComment (cs ++ [w]) = []) : skipLineComment cs = [] := by
  induction cs with
  | nil => rfl
  | cons x cs ih =>
      by_cases hx : x = '\n'
      · subst hx
        simp [skipLineComment] at h
      · have hstep (cs : List Char) : skipLineComment (x :: cs) = skipLineComment cs := by
          simp [skipLineComment, hx]
        rw [List.cons_append, hstep] at h
        rw [hstep]
        exact ih h

section TrimEnd

variable (hascii : text.LikeAscii)
  (hletters : ∀ c, text.isWhitespace c → text.isAlphanumeric c = false)

include hascii

theorem isWhitespace_number {c : Char} (hc : c.isDigit ∨ c = '.') :
    text.isWhitespace c = false := by
  rcases hc with hc | rfl
  · exact isWhitespace_digit hascii hc
  · exact hascii.isWhitespace _ (by decide)

/-- Of what starts with `-`, only a comment ends with a blank. -/
theorem lexMinus_concat {w : Char} {cs : List Char} {t : Option Token}
    (hw : text.isWhitespace w) (h : lexMinus (cs ++ [w]) = .ok (t, [])) :
    lexMinus cs = .ok (t, []) := by
  have hlast {x : Char} (hx : text.isWhitespace x = false)
      (hend : (cs ++ [w]).getLast? = some x) : False := by
    obtain rfl : w = x := by simpa using hend
    rw [hx] at hw
    cases hw
  unfold lexMinus at h
  split at h
  · next rest heq =>
      obtain ⟨rfl, hrest⟩ := Prod.mk.inj (Except.ok.inj h)
      cases cs with
      | nil =>
          obtain ⟨rfl, -⟩ := List.cons.inj heq
          exact (hlast (hascii.isWhitespace '-' (by decide)) rfl).elim
      | cons x cs =>
          obtain ⟨rfl, rfl⟩ := List.cons.inj heq
          exact congrArg (fun rest => Except.ok (none, rest)) (skipLineComment_concat hrest)
  · next rest heq =>
      obtain ⟨-, rfl⟩ := Prod.mk.inj (Except.ok.inj h)
      exact (hlast (hascii.isWhitespace '>' (by decide)) (by rw [heq]; rfl)).elim
  · next rest hne heq =>
      obtain ⟨-, rfl⟩ := Prod.mk.inj (Except.ok.inj h)
      exact (hlast (hascii.isWhitespace '>' (by decide)) (by rw [heq]; rfl)).elim
  · simp only at h
    split at h
    · cases h
    · split at h
      · obtain ⟨-, hrest⟩ := Prod.mk.inj (Except.ok.inj h)
        have hdigit := List.dropWhile_eq_nil_iff.mp hrest w (by simp)
        exact (hlast (isWhitespace_digit hascii hdigit) (by simp)).elim
      · cases h

theorem lexNumber_concat {c w : Char} {cs : List Char} {t : Option Token}
    (hw : text.isWhitespace w) (h : lexNumber text c (cs ++ [w]) = .ok (t, [])) : False := by
  have happend := readNumber_append false (cs ++ [w])
  unfold lexNumber at h
  rcases hnumber : readNumber false (cs ++ [w]) with ⟨tail, has, rest⟩
  rw [hnumber] at h happend
  have hrest : rest = [] := by
    simp only at h
    split at h <;> split at h <;> cases h <;> rfl
  rw [hrest, List.append_nil] at happend
  have hmem : w ∈ (readNumber false (cs ++ [w])).1 := by
    rw [hnumber]
    simp only at happend
    simp [happend]
  rw [isWhitespace_number hascii (readNumber_mem hmem)] at hw
  cases hw

include hletters

/-- Only a comment ends with a blank. -/
theorem lexeme_concat {c w : Char} {cs : List Char} {t : Option Token}
    (hc : text.isWhitespace c = false) (hw : text.isWhitespace w)
    (h : lexeme text c (cs ++ [w]) = .ok (t, [])) : lexeme text c cs = .ok (t, []) := by
  have hlast {x : Char} (hx : text.isWhitespace x = false)
      (hend : (cs ++ [w]).getLast? = some x) : False := by
    obtain rfl : w = x := by simpa using hend
    rw [hx] at hw
    cases hw
  have hone {x : Char} {rest : List Char} (hx : x.toNat < 128)
      (hblank : asciiLibrary.isWhitespace x = false) (heq : cs ++ [w] = x :: rest)
      (hrest : rest = []) : False := by
    refine hlast ((hascii.isWhitespace x hx).trans hblank) ?_
    rw [heq, hrest]
    rfl
  have hnotNil (hnil : cs ++ [w] = []) : False := by simp at hnil
  unfold lexeme at h ⊢
  rw [if_neg (by simp [hc])] at h ⊢
  split at h
  case h_8 =>
    split at h
    · next heq => exact (hone (by decide) (by decide) heq (Prod.mk.inj (Except.ok.inj h)).2).elim
    · next heq => exact (hone (by decide) (by decide) heq (Prod.mk.inj (Except.ok.inj h)).2).elim
    · exact (hnotNil (Prod.mk.inj (Except.ok.inj h)).2).elim
  case h_9 =>
    split at h
    · next heq => exact (hone (by decide) (by decide) heq (Prod.mk.inj (Except.ok.inj h)).2).elim
    · exact (hnotNil (Prod.mk.inj (Except.ok.inj h)).2).elim
  case h_10 => exact lexMinus_concat hascii hw h
  case h_11 =>
    unfold lexSlash at h
    split at h
    · next rest heq =>
        split at h
        · next hskip =>
            obtain ⟨-, rfl⟩ := Prod.mk.inj (Except.ok.inj h)
            have hend := skipBlockComment_getLast hskip
            refine (hlast (hascii.isWhitespace '/' (by decide)) ?_).elim
            rw [heq]
            cases rest with
            | nil => cases hend
            | cons y rest => rwa [List.getLast?_cons_cons]
        · cases h
    · cases h
  case h_12 =>
    split at h
    · next heq => exact (hone (by decide) (by decide) heq (Prod.mk.inj (Except.ok.inj h)).2).elim
    · cases h
  case h_13 =>
    split at h
    · next hread =>
        obtain ⟨-, rfl⟩ := Prod.mk.inj (Except.ok.inj h)
        exact (hlast (hascii.isWhitespace _ (by decide)) (readQuoted_getLast hread)).elim
    · cases h
  case h_14 =>
    split at h
    · next hread =>
        obtain ⟨-, rfl⟩ := Prod.mk.inj (Except.ok.inj h)
        exact (hlast (hascii.isWhitespace _ (by decide)) (readQuoted_getLast hread)).elim
    · cases h
  case h_15 =>
    split at h
    · exact (lexNumber_concat hascii hw h).elim
    · split at h
      · obtain ⟨-, hrest⟩ := Prod.mk.inj (Except.ok.inj h)
        have hword := List.dropWhile_eq_nil_iff.mp hrest w (by simp)
        have hunderscore : w ≠ '_' := by
          rintro rfl
          exact hlast (hascii.isWhitespace '_' (by decide)) (by simp)
        simp [hletters w hw, hunderscore] at hword
      · cases h
  all_goals exact (hnotNil (Prod.mk.inj (Except.ok.inj h)).2).elim

theorem Lexes.concat {s : List Char} {w : Char} {ts : List Token} (hw : text.isWhitespace w)
    (h : Lexes text (s ++ [w]) ts) : Lexes text s ts := by
  generalize hchars : s ++ [w] = chars at h
  induction h generalizing s with
  | nil => simp at hchars
  | @step c rest t rest' ts hlexeme hrest ih =>
      cases s with
      | nil =>
          obtain ⟨rfl, rfl⟩ := List.cons.inj hchars
          rw [lexeme_blank hw] at hlexeme
          obtain ⟨rfl, rfl⟩ := Prod.mk.inj (Except.ok.inj hlexeme)
          exact hrest
      | cons x s =>
          obtain ⟨rfl, rfl⟩ := List.cons.inj hchars
          by_cases hx : text.isWhitespace x
          · rw [lexeme_blank hx] at hlexeme
            obtain ⟨rfl, rfl⟩ := Prod.mk.inj (Except.ok.inj hlexeme)
            exact .step (lexeme_blank hx) (ih rfl)
          · obtain ⟨front, hfront⟩ := lexeme_suffix hlexeme
            rcases List.eq_nil_or_concat rest' with rfl | ⟨more, w', rfl⟩
            · exact .step (lexeme_concat hascii hletters (by simpa using hx) hw hlexeme) hrest
            · rw [List.concat_eq_append] at hfront hlexeme hrest ih
              rw [← List.append_assoc] at hfront
              obtain ⟨rfl, heq⟩ := List.append_inj' hfront rfl
              obtain rfl := List.singleton_inj.mp heq
              change lexeme text x (front ++ more ++ [w']) = _ at hlexeme
              rw [List.append_assoc] at hlexeme
              have hread := readsOn_before (readsOn_of_lexeme hascii hlexeme)
              exact .step (lexeme_append hlexeme hread) (ih rfl)

theorem Lexes.trim {s : List Char} {ts : List Token} (h : Lexes text s ts) :
    Lexes text (Text.trim text.isWhitespace s) ts := by
  have hend (s : List Char) (hs : Lexes text s ts) :
      Lexes text (Text.trimEnd text.isWhitespace s) ts := by
    induction s using List.reverseRecOn with
    | nil => exact hs
    | append_singleton s w ih =>
        rw [Text.trimEnd_concat]
        split
        · next hw => exact ih (hs.concat hascii hletters hw)
        · exact hs
  exact hend _ h.trimStart

end TrimEnd

/-! ## Groups of lexemes -/

def isSemicolon (part : List Char × Option Token) : Bool := part.2 = some .semicolon

/-- A list is one group, or begins with one and goes on behind a separator. -/
theorem splitOnP_induction {α : Type*} {p : α → Bool} {motive : List α → Prop}
    (single : ∀ xs, (∀ x ∈ xs, p x = false) → motive xs)
    (sep : ∀ xs x ys, (∀ x ∈ xs, p x = false) → p x = true → motive ys →
      motive (xs ++ x :: ys)) (l : List α) : motive l := by
  suffices h : ∀ front, (∀ x ∈ front, p x = false) → motive (front ++ l) from h [] (by simp)
  induction l with
  | nil =>
      intro front hfront
      rw [List.append_nil]
      exact single front hfront
  | cons x l ih =>
      intro front hfront
      by_cases hx : p x = true
      · exact sep front x l hfront hx (ih [] (by simp))
      · have hboth : ∀ y ∈ front ++ [x], p y = false := by
          intro y hy
          rcases List.mem_append.mp hy with hy | hy
          · exact hfront y hy
          · rw [List.mem_singleton.mp hy]
            simpa using hx
        have hnext := ih (front ++ [x]) hboth
        rwa [List.append_assoc] at hnext

variable {chars : List Char} {parts : List (List Char × Option Token)}

/-- The groups of a text's lexemes are read alone as they are there. -/
theorem Parts.group (hascii : text.LikeAscii) (h : Parts text chars parts) :
    ∀ group ∈ parts.splitOnP isSemicolon, Parts text (textOf group) group := by
  induction parts using splitOnP_induction (p := isSemicolon) generalizing chars with
  | single parts hparts =>
      rw [List.splitOnP_eq_singleton hparts]
      simpa [h.text_eq] using h
  | sep front sep back hfront hsep ih =>
      rw [List.splitOnP_append_cons_of_forall_mem hfront sep hsep]
      have hback : Parts text (textOf back) back := by
        rw [← List.singleton_append, ← List.append_assoc] at h
        exact h.after
      simpa using ⟨h.before hascii, ih hback⟩

theorem tokensOf_groups (parts : List (List Char × Option Token)) :
    (tokensOf parts).splitOn .semicolon = (parts.splitOnP isSemicolon).map tokensOf := by
  have hnone (front : List (List Char × Option Token))
      (hfront : ∀ part ∈ front, isSemicolon part = false) :
      ∀ t ∈ tokensOf front, (t == Token.semicolon) = false := by
    intro t ht
    obtain ⟨part, hpart, hsome⟩ := List.mem_filterMap.mp ht
    have hne : part.2 ≠ some .semicolon := by simpa [isSemicolon] using hfront part hpart
    rw [hsome] at hne
    simpa using hne
  rw [List.splitOn_eq_splitOnP]
  induction parts using splitOnP_induction (p := isSemicolon) with
  | single parts hparts =>
      rw [List.splitOnP_eq_singleton hparts, List.splitOnP_eq_singleton (hnone parts hparts)]
      rfl
  | sep front sep back hfront hsep ih =>
      have htoken : sep.2 = some .semicolon := by simpa [isSemicolon] using hsep
      have htokens : tokensOf (front ++ sep :: back) =
          tokensOf front ++ .semicolon :: tokensOf back := by
        rw [tokensOf, List.filterMap_append, List.filterMap_cons_some htoken, tokensOf, tokensOf]
      rw [htokens, List.splitOnP_append_cons_of_forall_mem hfront sep hsep,
        List.splitOnP_append_cons_of_forall_mem (hnone front hfront) _ (by simp), ih, List.map_cons]

/-! ## The loop -/

/-- What the program keeps of the texts between the semicolons. -/
def kept (text : TextLibrary) (groups : List (List (List Char × Option Token))) :
    List (List Char) :=
  (groups.map fun group => Text.trim text.isWhitespace (textOf group)).filter (· ≠ [])

theorem keywordOrIdentifier_ne_semicolon (word : String) :
    keywordOrIdentifier text word ≠ .semicolon := by
  have hall : ∀ entry ∈ keywords, entry.2 ≠ .semicolon := by decide
  unfold keywordOrIdentifier
  split
  · next token hlookup =>
      obtain ⟨l, l', heq, -⟩ := List.lookup_eq_some_iff.mp hlookup
      exact hall (text.toUppercase word, token) (by simp [heq])
  · simp

theorem kept_cons (group : List (List Char × Option Token))
    (groups : List (List (List Char × Option Token))) :
    kept text (group :: groups) =
      if Text.trim text.isWhitespace (textOf group) = [] then kept text groups
      else Text.trim text.isWhitespace (textOf group) :: kept text groups := by
  rw [kept, List.map_cons, List.filter_cons, ← kept]
  split <;> simp_all

theorem lexeme_semicolon {c : Char} {cs r : List Char}
    (h : lexeme text c (cs ++ r) = .ok (some .semicolon, r)) : c = ';' ∧ cs = [] := by
  unfold lexeme at h
  split at h
  · cases (Prod.mk.inj (Except.ok.inj h)).1
  · split at h
    case h_6 => exact ⟨rfl, List.append_left_eq_self.mp (Prod.mk.inj (Except.ok.inj h)).2⟩
    case h_8 => split at h <;> cases (Prod.mk.inj (Except.ok.inj h)).1
    case h_9 => split at h <;> cases (Prod.mk.inj (Except.ok.inj h)).1
    case h_10 =>
      unfold lexMinus at h
      split at h
      case h_4 =>
        simp only at h
        split at h
        · cases h
        · split at h
          · cases (Prod.mk.inj (Except.ok.inj h)).1
          · cases h
      all_goals cases (Prod.mk.inj (Except.ok.inj h)).1
    case h_11 =>
      unfold lexSlash at h
      split at h
      · split at h
        · cases (Prod.mk.inj (Except.ok.inj h)).1
        · cases h
      · cases h
    case h_12 =>
      split at h
      · cases (Prod.mk.inj (Except.ok.inj h)).1
      · cases h
    case h_13 =>
      split at h
      · cases (Prod.mk.inj (Except.ok.inj h)).1
      · cases h
    case h_14 =>
      split at h
      · cases (Prod.mk.inj (Except.ok.inj h)).1
      · cases h
    case h_15 =>
      split at h
      · unfold lexNumber at h
        simp only at h
        split at h
        · split at h
          · cases (Prod.mk.inj (Except.ok.inj h)).1
          · cases h
        · split at h
          · cases (Prod.mk.inj (Except.ok.inj h)).1
          · cases h
      · split at h
        · exact absurd (Option.some.inj (Prod.mk.inj (Except.ok.inj h)).1)
            (keywordOrIdentifier_ne_semicolon _)
        · cases h
    all_goals cases (Prod.mk.inj (Except.ok.inj h)).1

theorem splitLoop_pass {sql : Text.Chars} {last start : Nat}
    {front back : List (List Char × Option Token)}
    (hfront : ∀ part ∈ front, isSemicolon part = false) :
    splitLoop text sql last (spansFrom start (front ++ back)) =
      splitLoop text sql last (spansFrom (start + utf8Length (textOf front)) back) := by
  induction front generalizing start with
  | nil => rfl
  | cons part front ih =>
      obtain ⟨cs, t⟩ := part
      have hne : isSemicolon (cs, t) = false := hfront _ List.mem_cons_self
      have hwidth : start + utf8Length (textOf ((cs, t) :: front)) =
          start + utf8Length cs + utf8Length (textOf front) := by
        rw [textOf, List.flatMap_cons, utf8Length_append, ← Nat.add_assoc, ← textOf]
      rw [hwidth, ← ih fun part hpart => hfront part (List.mem_cons_of_mem _ hpart)]
      cases t with
      | none => rfl
      | some token =>
          have htoken : token ≠ .semicolon := by simpa [isSemicolon] using hne
          exact if_neg htoken

theorem splitAtByte_append (cs r : List Char) :
    Text.splitAtByte (utf8Length cs) (cs ++ r) = some (cs, r) := by
  induction cs with
  | nil => exact Text.splitAtByte.eq_1 r
  | cons c cs ih =>
      have hpos := c.utf8Size_pos
      obtain ⟨n, hn⟩ : ∃ n, utf8Length (c :: cs) = n + 1 :=
        Nat.exists_eq_succ_of_ne_zero (by rw [utf8Length_cons]; omega)
      have hrest : n + 1 - c.utf8Size = utf8Length cs := by
        rw [← hn, utf8Length_cons, Nat.add_sub_cancel_left]
      have hle : c.utf8Size ≤ n + 1 := by
        rw [← hn, utf8Length_cons]
        omega
      rw [hn, List.cons_append, Text.splitAtByte, if_pos hle, hrest, ih]
      rfl

theorem byteSlice_middle (front middle back : List Char) :
    Text.byteSlice (utf8Length front) (utf8Length front + utf8Length middle)
      (front ++ (middle ++ back)) = some middle := by
  have hle : ¬utf8Length front + utf8Length middle < utf8Length front := by omega
  simp only [Text.byteSlice, if_neg hle, splitAtByte_append, Nat.add_sub_cancel_left,
    Option.bind_eq_bind, Option.bind_some, Option.pure_def]

/-- The last piece is what no token follows. -/
theorem splitLoop_end {sql front chars : List Char} (hsql : sql = front ++ chars) :
    splitLoop text sql (utf8Length front) [] = some
      (if Text.trim text.isWhitespace chars = [] then []
      else [Text.trim text.isWhitespace chars]) := by
  have hslice := byteSlice_middle front chars []
  rw [List.append_nil, ← hsql, ← utf8Length_append, ← hsql] at hslice
  rw [splitLoop]
  split
  · rw [hslice]
    rfl
  · next hlast =>
      have hnil : chars = [] := by
        cases chars with
        | nil => rfl
        | cons c cs =>
            have hpos := c.utf8Size_pos
            rw [hsql, utf8Length_append, utf8Length_cons] at hlast
            omega
      rw [hnil]
      rfl

/-- A text without a semicolon is one piece. -/
theorem splitStatements_single {sql : String} {tokens : List SpannedToken}
    (htokens : tokenize text sql = .ok tokens)
    (hno : ∀ sp ∈ tokens, sp.token ≠ .semicolon)
    (hne : Text.trim text.isWhitespace sql.toList ≠ []) :
    splitStatements text sql =
      some [String.ofList (Text.trim text.isWhitespace sql.toList)] := by
  have hloop : splitLoop text sql.toList 0 tokens =
      some [Text.trim text.isWhitespace sql.toList] := by
    clear htokens
    induction tokens with
    | nil => exact (splitLoop_end (List.nil_append _).symm).trans (congrArg some (if_neg hne))
    | cons sp tokens ih =>
        rw [splitLoop, if_neg (hno sp List.mem_cons_self)]
        exact ih fun sp hsp => hno sp (List.mem_cons_of_mem _ hsp)
  rw [splitStatements, htokens]
  simp only [hloop, Option.map_some, List.map_cons, List.map_nil]

/-- The loop keeps the texts of the groups. -/
theorem splitLoop_eq {sql front chars : List Char} (hsql : sql = front ++ chars)
    (h : Parts text chars parts) :
    splitLoop text sql (utf8Length front) (spansFrom (utf8Length front) parts) =
      some (kept text (parts.splitOnP isSemicolon)) := by
  induction parts using splitOnP_induction (p := isSemicolon) generalizing front chars with
  | single parts hparts =>
      rw [List.splitOnP_eq_singleton hparts]
      have hpass := @splitLoop_pass text sql (utf8Length front) (utf8Length front) parts [] hparts
      rw [List.append_nil] at hpass
      rw [hpass, kept_cons, h.text_eq]
      exact splitLoop_end hsql
  | sep group sep back hgroup hsep ih =>
      rw [List.splitOnP_append_cons_of_forall_mem hgroup sep hsep, splitLoop_pass hgroup]
      obtain ⟨cs, t⟩ := sep
      obtain rfl : t = some .semicolon := by simpa [isSemicolon] using hsep
      have hafter := h.after
      obtain ⟨rfl, hback⟩ : cs = [';'] ∧ Parts text (textOf back) back := by
        generalize textOf ((cs, some Token.semicolon) :: back) = chars' at hafter
        cases hafter with
        | cons hlexeme hrest =>
            obtain ⟨rfl, rfl⟩ := lexeme_semicolon hlexeme
            exact ⟨rfl, by rwa [hrest.text_eq]⟩
      have hchars : chars = textOf group ++ ([';'] ++ textOf back) := by
        rw [← h.text_eq, textOf_append]
        rfl
      have hnext := @ih (front ++ textOf group ++ [';']) _ (by rw [hsql, hchars]; simp) hback
      have hslice := byteSlice_middle front (textOf group) ([';'] ++ textOf back)
      rw [← hchars, ← hsql] at hslice
      have hwidth : utf8Length (front ++ textOf group ++ [';']) =
          utf8Length front + utf8Length (textOf group) + 1 := by
        rw [utf8Length_append, utf8Length_append]
        rfl
      rw [hwidth] at hnext
      have hstep : splitLoop text sql (utf8Length front)
          (⟨.semicolon, utf8Length front + utf8Length (textOf group)⟩ ::
            spansFrom (utf8Length front + utf8Length (textOf group) + 1) back) = some
          (if Text.trim text.isWhitespace (textOf group) = [] then
            kept text (back.splitOnP isSemicolon)
          else Text.trim text.isWhitespace (textOf group) ::
            kept text (back.splitOnP isSemicolon)) := by
        rw [splitLoop, if_pos rfl, hslice, hnext]
        rfl
      rw [kept_cons]
      exact hstep

/-! ## The pieces of a script -/

section Claim

variable (text)

/-- The groups of tokens between the semicolons that are not empty. -/
def statementTokens (tokens : List SpannedToken) : List (List Token) :=
  (((tokens.map SpannedToken.token).dropLast).splitOn .semicolon).filter (· ≠ [])

/-- The text is read as these tokens. -/
def IsReadAs (piece : String) (group : List Token) : Prop :=
  ∃ tokens, tokenize text piece = .ok tokens ∧ tokens.map SpannedToken.token = group ++ [.eof]

/-- One piece for each group of tokens, in order, and it is read as this group. -/
def Splits (sql : String) (tokens : List SpannedToken) : Prop :=
  ∃ pieces, splitStatements text sql = some pieces ∧
    List.Forall₂ (IsReadAs text) pieces (statementTokens tokens)

/-- Somewhere between two semicolons stand comments and no tokens. -/
def HasCommentAlone (sql : String) : Prop :=
  ∃ parts, Parts text sql.toList parts ∧ ∃ group ∈ parts.splitOnP isSemicolon,
    tokensOf group = [] ∧ ∃ c ∈ textOf group, text.isWhitespace c = false

end Claim

theorem isReadAs_iff {piece : List Char} {group : List Token} :
    IsReadAs text (String.ofList piece) group ↔ Lexes text piece group := by
  rw [IsReadAs, tokenize_eq_ok_iff, String.toList_ofList]

theorem lexes_nil_iff {ts : List Token} : Lexes text [] ts ↔ ts = [] := by
  constructor
  · intro h
    cases h
    rfl
  · rintro rfl
    exact .nil

theorem Lexes.unique {s : List Char} {ts ts' : List Token} (h : Lexes text s ts)
    (h' : Lexes text s ts') : ts = ts' := by
  obtain ⟨parts, hparts, rfl⟩ := exists_parts h
  obtain ⟨parts', hparts', rfl⟩ := exists_parts h'
  rw [hparts.unique hparts']

theorem map_token_spansFrom (start : Nat) (parts : List (List Char × Option Token)) :
    (spansFrom start parts).map SpannedToken.token = tokensOf parts ++ [.eof] := by
  induction parts generalizing start with
  | nil => rfl
  | cons part parts ih =>
      obtain ⟨cs, t⟩ := part
      rw [spansFrom, List.map_append, ih, tokensOf_cons, List.append_assoc]
      cases t <;> rfl

theorem exists_of_mem_left {α β : Type*} {R : α → β → Prop} {as : List α} {bs : List β}
    (h : List.Forall₂ R as bs) {a : α} (ha : a ∈ as) : ∃ b ∈ bs, R a b := by
  induction h with
  | nil => cases ha
  | cons hr _ ih =>
      rcases List.mem_cons.mp ha with rfl | ha
      · exact ⟨_, List.mem_cons_self, hr⟩
      · obtain ⟨b, hb, hr⟩ := ih ha
        exact ⟨b, List.mem_cons_of_mem _ hb, hr⟩

/-- The pieces are read as the groups unless a comment stands alone. -/
theorem forall₂_kept_iff (hascii : text.LikeAscii)
    (hletters : ∀ c, text.isWhitespace c → text.isAlphanumeric c = false)
    {groups : List (List (List Char × Option Token))}
    (h : ∀ group ∈ groups, Parts text (textOf group) group) :
    List.Forall₂ (Lexes text) (kept text groups) ((groups.map tokensOf).filter (· ≠ [])) ↔
      ∀ group ∈ groups, tokensOf group = [] → ∀ c ∈ textOf group, text.isWhitespace c := by
  constructor
  · intro hpieces group hgroup htokens
    by_contra hblank
    have hne : Text.trim text.isWhitespace (textOf group) ≠ [] :=
      mt Text.trim_eq_nil_iff.mp hblank
    have hmem : Text.trim text.isWhitespace (textOf group) ∈ kept text groups :=
      List.mem_filter.mpr ⟨List.mem_map_of_mem hgroup, by simpa using hne⟩
    obtain ⟨ts, hts, hlexes⟩ := exists_of_mem_left hpieces hmem
    have hread := (h group hgroup).lexes.trim hascii hletters
    rw [htokens] at hread
    obtain rfl := hread.unique hlexes
    simp at hts
  · intro hblank
    induction groups with
    | nil => exact .nil
    | cons group groups ih =>
        have hrest := ih (fun group hgroup => h group (List.mem_cons_of_mem _ hgroup))
          fun group hgroup => hblank group (List.mem_cons_of_mem _ hgroup)
        have hread := (h group List.mem_cons_self).lexes.trim hascii hletters
        rw [kept_cons, List.map_cons]
        by_cases htokens : tokensOf group = []
        · have hnil := Text.trim_eq_nil_iff.mpr (hblank group List.mem_cons_self htokens)
          rw [if_pos hnil, List.filter_cons_of_neg (by simp [htokens])]
          exact hrest
        · have hne : Text.trim text.isWhitespace (textOf group) ≠ [] := by
            intro hnil
            rw [hnil, lexes_nil_iff] at hread
            exact htokens hread
          rw [if_neg hne, List.filter_cons_of_pos (by simpa using htokens)]
          exact .cons hread hrest

theorem splitStatements_eq {sql : String} (h : Parts text sql.toList parts) :
    splitStatements text sql =
      some ((kept text (parts.splitOnP isSemicolon)).map String.ofList) := by
  have hloop := splitLoop_eq (List.nil_append sql.toList).symm h
  rw [splitStatements, tokenize_parts h]
  exact congrArg (Option.map (List.map String.ofList)) hloop

/-- Splitting goes wrong only where comments stand alone. -/
theorem split_statements_iff (hascii : text.LikeAscii)
    (hletters : ∀ c, text.isWhitespace c → text.isAlphanumeric c = false) {sql : String}
    {tokens : List SpannedToken} (h : tokenize text sql = .ok tokens) :
    Splits text sql tokens ↔ ¬HasCommentAlone text sql := by
  obtain ⟨ts, hlexes, -⟩ := tokenizeFrom_ok h
  obtain ⟨parts, hparts, -⟩ := exists_parts hlexes
  have hspans := tokenize_parts hparts
  obtain rfl := Outcome.ok.inj (h.symm.trans hspans)
  have htokens : statementTokens (spansFrom 0 parts) =
      ((parts.splitOnP isSemicolon).map tokensOf).filter (· ≠ []) := by
    rw [statementTokens, map_token_spansFrom, List.dropLast_concat, tokensOf_groups]
  have hiff := forall₂_kept_iff hascii hletters (hparts.group hascii)
  have hsplits : Splits text sql (spansFrom 0 parts) ↔ List.Forall₂ (Lexes text)
      (kept text (parts.splitOnP isSemicolon))
        (((parts.splitOnP isSemicolon).map tokensOf).filter (· ≠ [])) := by
    simp only [Splits, splitStatements_eq hparts, htokens, Option.some.injEq, exists_eq_left',
      List.forall₂_map_left_iff, isReadAs_iff]
  rw [hsplits, hiff]
  constructor
  · rintro hblank ⟨parts', hparts', group, hgroup, htokens', c, hc, hne⟩
    obtain rfl := hparts.unique hparts'
    rw [hblank group hgroup htokens' c hc] at hne
    cases hne
  · intro hnone group hgroup htokens' c hc
    by_contra hne
    exact hnone ⟨parts, hparts, group, hgroup, htokens', c, hc, by simpa using hne⟩

theorem asciiLibrary_letters (c : Char) (hc : asciiLibrary.isWhitespace c) :
    asciiLibrary.isAlphanumeric c = false := by
  have hlow : c.toNat ≤ 32 := by
    simp only [asciiLibrary, Bool.or_eq_true, Bool.and_eq_true, decide_eq_true_eq] at hc
    rcases hc with rfl | ⟨-, hc⟩
    · decide
    · omega
  have halpha : ∀ n ≤ 32, (Char.ofNat n).isAlphanum = false := by decide
  have hchar := halpha c.toNat hlow
  rwa [Char.ofNat_toNat] at hchar

theorem split_statements_two : ¬HasCommentAlone asciiLibrary "1;2" := by
  have hparts : Parts asciiLibrary "1;2".toList
      [(['1'], some (.intLiteral 1)), ([';'], some .semicolon), (['2'], some (.intLiteral 2))] :=
    .cons (show lexeme asciiLibrary '1' ([] ++ [';', '2']) =
        .ok (some (.intLiteral 1), [';', '2']) by decide)
      (.cons (show lexeme asciiLibrary ';' ([] ++ ['2']) = .ok (some .semicolon, ['2']) by decide)
        (.cons (show lexeme asciiLibrary '2' ([] ++ []) = .ok (some (.intLiteral 2), []) by decide)
          .nil))
  refine (split_statements_iff asciiLibrary_likeAscii asciiLibrary_letters
    (tokenize_parts hparts)).mp ⟨_, splitStatements_eq hparts, ?_⟩
  have hone : IsReadAs asciiLibrary "1" [.intLiteral 1] :=
    ⟨[⟨.intLiteral 1, 0⟩, ⟨.eof, 1⟩], by decide, rfl⟩
  have htwo : IsReadAs asciiLibrary "2" [.intLiteral 2] :=
    ⟨[⟨.intLiteral 2, 0⟩, ⟨.eof, 1⟩], by decide, rfl⟩
  exact .cons hone (.cons htwo .nil)

/-- The comment at the end is a piece without a token. -/
theorem split_statements_comment : ¬Splits asciiLibrary "1;--"
    [⟨.intLiteral 1, 0⟩, ⟨.semicolon, 1⟩, ⟨.eof, 4⟩] := by
  have hparts : Parts asciiLibrary "1;--".toList
      [(['1'], some (.intLiteral 1)), ([';'], some .semicolon), (['-', '-'], none)] :=
    .cons (show lexeme asciiLibrary '1' ([] ++ [';', '-', '-']) =
        .ok (some (.intLiteral 1), [';', '-', '-']) by decide)
      (.cons (show lexeme asciiLibrary ';' ([] ++ ['-', '-']) =
          .ok (some .semicolon, ['-', '-']) by decide)
        (.cons (show lexeme asciiLibrary '-' (['-'] ++ []) = .ok (none, []) by decide) .nil))
  rintro ⟨pieces, hsplit, hread⟩
  obtain rfl := Option.some.inj ((splitStatements_eq hparts).symm.trans hsplit)
  exact absurd hread.length_eq (by decide)

end ChocoBase.Sql
