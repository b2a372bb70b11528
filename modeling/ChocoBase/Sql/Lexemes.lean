import ChocoBase.Foundation.Text
import ChocoBase.Sql.Lexer
import Mathlib.Data.List.Induction
import Mathlib.Data.List.ReduceOption
import Mathlib.Data.List.TakeWhile

/-!
# Where lexemes end

A lexeme is read again wherever its text stands, unless it would read on into what
follows.  Texts that are put together from lexemes are read as these lexemes.
-/

namespace ChocoBase.Sql

open ChocoBase.Foundation

/-- A library that agrees with the ASCII one on ASCII texts. -/
structure TextLibrary.LikeAscii (text : TextLibrary) : Prop where
  isWhitespace : ∀ c : Char, c.toNat < 128 → text.isWhitespace c = asciiLibrary.isWhitespace c
  isAlphabetic : ∀ c : Char, c.toNat < 128 → text.isAlphabetic c = asciiLibrary.isAlphabetic c
  isAlphanumeric : ∀ c : Char, c.toNat < 128 →
    text.isAlphanumeric c = asciiLibrary.isAlphanumeric c
  toUppercase : ∀ word : String, (∀ c ∈ word.toList, c.toNat < 128) →
    text.toUppercase word = asciiLibrary.toUppercase word

theorem asciiLibrary_likeAscii : asciiLibrary.LikeAscii :=
  ⟨fun _ _ => rfl, fun _ _ => rfl, fun _ _ => rfl, fun _ _ => rfl⟩

section ReadsOn

variable (text : TextLibrary)

def inWord (c : Char) : Bool := text.isAlphanumeric c || c = '_'

/-- Whether a lexeme with this text would read on into what follows. -/
def readsOn (chars rest : List Char) : Bool :=
  match chars with
  | [] => false
  | c :: cs =>
      if text.isWhitespace c then false
      else
        match c with
        | '<' => cs = [] && (rest.head? = some '=' || rest.head? = some '>')
        | '>' => cs = [] && rest.head? = some '='
        | '-' =>
            if cs.head? = some '-' then cs.getLast? ≠ some '\n' && rest ≠ []
            else if cs.head? = some '>' then cs = ['>'] && rest.head? = some '>'
            else rest.head?.any Char.isDigit
        | '\'' => rest.head? = some '\''
        | '"' => rest.head? = some '"'
        | _ =>
            if c.isDigit then
              rest.head?.any Char.isDigit ||
                !cs.contains '.' && rest.head? = some '.' && rest.tail.head?.any Char.isDigit
            else if text.isAlphabetic c ∨ c = '_' then rest.head?.any (inWord text)
            else false

end ReadsOn

variable {text : TextLibrary} {c : Char} {cs r r' : List Char} {t : Option Token}

theorem takeWhile_of_dropWhile_append {p : Char → Bool} (h : (cs ++ r).dropWhile p = r) :
    (cs ++ r).takeWhile p = cs := by
  have happend := List.takeWhile_append_dropWhile (p := p) (l := cs ++ r)
  rw [h] at happend
  exact List.append_cancel_right happend

theorem mem_of_dropWhile_append {p : Char → Bool} (h : (cs ++ r).dropWhile p = r) (hc : c ∈ cs) :
    p c = true := by
  rw [← takeWhile_of_dropWhile_append h] at hc
  exact List.mem_takeWhile_imp hc

theorem takeWhile_append_stop {p : Char → Bool} (h : (cs ++ r).dropWhile p = r)
    (hstop : r'.head?.any p = false) :
    (cs ++ r').takeWhile p = (cs ++ r).takeWhile p ∧ (cs ++ r').dropWhile p = r' := by
  have hall : ∀ x ∈ cs, p x = true := fun _ => mem_of_dropWhile_append h
  rw [takeWhile_of_dropWhile_append h, List.takeWhile_append_of_pos hall,
    List.dropWhile_append_of_pos hall]
  cases r' with
  | nil => simp
  | cons x r' =>
      have hx : p x = false := by simpa using hstop
      simp [hx]

theorem skipLineComment_length (chars : List Char) :
    (skipLineComment chars).length ≤ chars.length := by
  have := (List.dropWhile_sublist (fun ch => decide (ch ≠ '\n')) (l := chars)).length_le
  simp only [skipLineComment, List.length_drop]
  omega

/-- A comment ends with its line or with the text. -/
theorem skipLineComment_append (h : skipLineComment (cs ++ r) = r)
    (hstop : cs.getLast? = some '\n' ∨ r' = []) : skipLineComment (cs ++ r') = r' := by
  induction cs with
  | nil =>
      obtain rfl : r' = [] := by simpa using hstop
      rfl
  | cons x cs ih =>
      by_cases hx : x = '\n'
      · subst hx
        obtain rfl : cs = [] := by simpa [skipLineComment] using h
        simp [skipLineComment]
      · have hskip : ∀ rest, skipLineComment (x :: cs ++ rest) = skipLineComment (cs ++ rest) := by
          simp [skipLineComment, hx]
        rw [hskip] at h ⊢
        refine ih h (hstop.imp_left fun hlast => ?_)
        cases cs with
        | nil => exact absurd (by simpa using hlast) hx
        | cons y cs => simpa using hlast

theorem skipBlockComment_append (h : skipBlockComment (cs ++ r) = some r) :
    skipBlockComment (cs ++ r') = some r' := by
  induction cs with
  | nil => exact absurd (skipBlockComment_length h) (lt_irrefl _)
  | cons x cs ih =>
      cases cs with
      | nil =>
          rcases r with _ | ⟨y, r⟩
          · simp [skipBlockComment] at h
          · by_cases hend : x = '*' ∧ y = '/'
            · obtain ⟨rfl, rfl⟩ := hend
              have := congrArg List.length (Option.some.inj h)
              simp at this
            · have hskip : skipBlockComment (x :: y :: r) = skipBlockComment (y :: r) :=
                skipBlockComment.eq_3 _ _ fun rest hx hy => hend ⟨hx, (List.cons.inj hy).1⟩
              have h' : skipBlockComment (y :: r) = some (y :: r) := hskip ▸ h
              exact absurd (skipBlockComment_length h') (lt_irrefl _)
      | cons y cs =>
          by_cases hend : x = '*' ∧ y = '/'
          · obtain ⟨rfl, rfl⟩ := hend
            obtain rfl : cs = [] := by simpa [skipBlockComment] using h
            rfl
          · have hskip : ∀ rest, skipBlockComment (x :: y :: cs ++ rest) =
                skipBlockComment (y :: cs ++ rest) := fun rest =>
              skipBlockComment.eq_3 _ _ fun rest' hx hy => hend ⟨hx, (List.cons.inj hy).1⟩
            rw [hskip] at h ⊢
            exact ih h

/-- A quoted text is over unless another quote follows. -/
theorem readQuoted_append {quote : Char} {s : List Char}
    (h : readQuoted quote (cs ++ r) = some (s, r)) (hstop : r'.head? ≠ some quote) :
    readQuoted quote (cs ++ r') = some (s, r') := by
  induction cs using List.twoStepInduction generalizing s with
  | nil => exact absurd (readQuoted_length h) (lt_irrefl _)
  | singleton x =>
      by_cases hx : x = quote
      · subst hx
        have hs : s = [] := by
          rcases r with _ | ⟨y, r⟩
          · simpa [readQuoted, eq_comm] using h
          · by_cases hy : y = x
            · subst hy
              simp only [List.cons_append, List.nil_append, readQuoted, if_pos,
                Option.map_eq_some_iff] at h
              obtain ⟨⟨s', rest⟩, hread, heq⟩ := h
              cases heq
              have := readQuoted_length hread
              rw [List.length_cons] at this
              omega
            · simpa [readQuoted, hy, eq_comm] using h
        subst hs
        rcases r' with _ | ⟨y, r'⟩
        · simp [readQuoted]
        · have hy : y ≠ x := by simpa using hstop
          simp [readQuoted, hy]
      · rcases r with _ | ⟨y, r⟩
        · simp [readQuoted, hx] at h
        · simp only [List.cons_append, List.nil_append, readQuoted, if_neg hx,
            Option.map_eq_some_iff] at h
          obtain ⟨⟨s', rest⟩, hread, heq⟩ := h
          cases heq
          exact absurd (readQuoted_length hread) (lt_irrefl _)
  | cons_cons x y cs ih ih' =>
      by_cases hx : x = quote
      · by_cases hy : y = quote
        · simp only [List.cons_append, readQuoted, if_pos hx, if_pos hy,
            Option.map_eq_some_iff] at h ⊢
          obtain ⟨⟨s', rest⟩, hread, heq⟩ := h
          cases heq
          exact ⟨_, ih hread, rfl⟩
        · simp only [List.cons_append, readQuoted, if_pos hx, if_neg hy, Option.some.injEq] at h
          have := congrArg List.length (Prod.mk.inj h).2
          simp at this
          omega
      · simp only [List.cons_append, readQuoted, if_neg hx, Option.map_eq_some_iff] at h ⊢
        obtain ⟨⟨s', rest⟩, hread, heq⟩ := h
        cases heq
        exact ⟨_, ih' y hread, rfl⟩

theorem readNumber_stop {hasDot : Bool} (hdigit : r.head?.any Char.isDigit = false)
    (hdot : hasDot = true ∨ r.head? ≠ some '.' ∨ r.tail.head?.any Char.isDigit = false) :
    readNumber hasDot r = ([], hasDot, r) := by
  cases r with
  | nil => rfl
  | cons x r =>
      have hx : x.isDigit = false := by simpa using hdigit
      have hnot : ¬(x = '.' ∧ hasDot = false ∧ r.head?.any Char.isDigit = true) := by
        rintro ⟨rfl, hhas, hnext⟩
        simp [hhas, hnext] at hdot
      rw [readNumber, if_neg (by simp [hx]), if_neg hnot]

theorem readNumber_append_stop {hasDot hasDot' : Bool} {s : List Char}
    (h : readNumber hasDot (cs ++ r) = (s, hasDot', r)) (hdigit : r'.head?.any Char.isDigit = false)
    (hdot : hasDot = true ∨ '.' ∈ cs ∨ r'.head? ≠ some '.' ∨
      r'.tail.head?.any Char.isDigit = false) :
    readNumber hasDot (cs ++ r') = (s, hasDot', r') := by
  induction cs generalizing hasDot s with
  | nil =>
      have hs : s = [] := by
        have happend := readNumber_append hasDot r
        rw [show readNumber hasDot r = _ from h] at happend
        exact List.append_left_eq_self.mp happend
      subst hs
      have hhas : hasDot' = hasDot := by
        cases r with
        | nil => cases h; rfl
        | cons x r =>
            rw [List.nil_append, readNumber] at h
            split at h
            · cases h
            · split at h <;> cases h
              rfl
      subst hhas
      exact readNumber_stop hdigit (by simpa using hdot)
  | cons x cs ih =>
      simp only [List.cons_append, readNumber] at h ⊢
      split at h
      · next hx =>
          generalize hnumber : readNumber hasDot (cs ++ r) = number at h
          obtain ⟨tail, has, rest⟩ := number
          obtain ⟨rfl, rfl, rfl⟩ : x :: tail = s ∧ has = hasDot' ∧ rest = r := by simpa using h
          have hne : x ≠ '.' := by rintro rfl; exact absurd hx (by decide)
          rw [if_pos hx, ih hnumber (by simpa [hne.symm] using hdot)]
      · next hx =>
          split at h
          · next hpoint =>
              generalize hnumber : readNumber true (cs ++ r) = number at h
              obtain ⟨tail, has, rest⟩ := number
              obtain ⟨rfl, rfl, rfl⟩ : x :: tail = s ∧ has = hasDot' ∧ rest = r := by simpa using h
              have hcs : cs ≠ [] := by
                rintro rfl
                obtain ⟨y, r₁, rfl⟩ : ∃ y r₁, rest = y :: r₁ := by
                  cases rest with
                  | nil => simp at hpoint
                  | cons y r₁ => exact ⟨y, r₁, rfl⟩
                have hy : y.isDigit = true := by simpa using hpoint.2.2
                rw [List.nil_append, readNumber, if_pos hy] at hnumber
                have happend := congrArg List.length (readNumber_append true r₁)
                rcases hnext : readNumber true r₁ with ⟨a, b, rest'⟩
                rw [hnext] at hnumber happend
                obtain ⟨-, -, rfl⟩ : y :: a = tail ∧ b = has ∧ rest' = y :: r₁ := by
                  simpa using hnumber
                simp at happend
                omega
              obtain ⟨y, cs, rfl⟩ := List.exists_cons_of_ne_nil hcs
              rw [if_neg hx, if_pos (by simpa using hpoint), ih hnumber (.inl rfl)]
          · have := congrArg List.length (Prod.mk.inj (Prod.mk.inj h).2).2
            simp at this
            omega

/-! ## Lexemes in other places -/

private theorem eq_nil_of_rest {t' : Option Token}
    (h : (Except.ok (t', cs ++ r) : Except String (Option Token × List Char)) = .ok (t, r)) :
    t' = t ∧ cs = [] := by
  obtain ⟨ht, hrest⟩ := Prod.mk.inj (Except.ok.inj h)
  exact ⟨ht, List.append_left_eq_self.mp hrest⟩

theorem dropWhile_length_lt {p : Char → Bool} (h : r.takeWhile p ≠ []) :
    (r.dropWhile p).length < r.length := by
  have happend := congrArg List.length (List.takeWhile_append_dropWhile (p := p) (l := r))
  have hpos := List.length_pos_iff.mpr h
  rw [List.length_append] at happend
  omega

theorem lexMinus_append (h : lexMinus (cs ++ r) = .ok (t, r))
    (hstop : readsOn text ('-' :: cs) r' = false) (hspace : text.isWhitespace '-' = false) :
    lexMinus (cs ++ r') = .ok (t, r') := by
  rw [readsOn, if_neg (by simp [hspace])] at hstop
  unfold lexMinus at h
  split at h
  · next rest heq =>
      obtain ⟨rfl, hrest⟩ := Prod.mk.inj (Except.ok.inj h)
      cases cs with
      | nil =>
          obtain rfl : r = '-' :: rest := heq
          have := skipLineComment_length rest
          rw [hrest, List.length_cons] at this
          omega
      | cons x cs =>
          obtain ⟨rfl, rfl⟩ := List.cons.inj heq
          have hend : cs.getLast? = some '\n' ∨ r' = [] := by
            cases cs with
            | nil => simpa using hstop
            | cons y cs => simpa [or_iff_not_imp_left] using hstop
          simp [lexMinus, skipLineComment_append hrest hend]
  · next rest heq =>
      obtain ⟨rfl, rfl⟩ := Prod.mk.inj (Except.ok.inj h)
      obtain rfl : cs = ['>', '>'] := @List.append_cancel_right _ _ rest _ (by simpa using heq)
      rfl
  · next rest hne heq =>
      obtain ⟨rfl, rfl⟩ := Prod.mk.inj (Except.ok.inj h)
      obtain rfl : cs = ['>'] := @List.append_cancel_right _ _ rest _ (by simpa using heq)
      cases r' with
      | nil => rfl
      | cons y r' =>
          have hy : y ≠ '>' := by simpa using hstop
          exact lexMinus.eq_3 _ fun rest heq' => hy (List.cons.inj heq').1
  · next hcomment harrow harrow' =>
      simp only at h
      split at h
      · cases h
      · next hdigits =>
          split at h
          · next n hparse =>
              obtain ⟨rfl, hrest⟩ := Prod.mk.inj (Except.ok.inj h)
              cases cs with
              | nil =>
                  have := dropWhile_length_lt hdigits
                  rw [hrest] at this
                  exact absurd this (lt_irrefl _)
              | cons x cs =>
                  have hx : x.isDigit = true := by
                    by_contra hx
                    simp [hx] at hdigits
                  have hminus : x ≠ '-' := by rintro rfl; exact absurd hx (by decide)
                  have hgt : x ≠ '>' := by rintro rfl; exact absurd hx (by decide)
                  have hend : r'.head?.any Char.isDigit = false := by
                    simpa [hminus, hgt] using hstop
                  obtain ⟨htake, hdrop⟩ := takeWhile_append_stop hrest hend
                  simp only [List.cons_append] at htake hdrop hdigits hparse
                  rw [List.cons_append, lexMinus.eq_4]
                  · simp only [htake, hdrop, if_neg hdigits, hparse]
                  all_goals simp [hminus, hgt]
          · cases h

theorem lexSlash_append (h : lexSlash (cs ++ r) = .ok (t, r)) :
    lexSlash (cs ++ r') = .ok (t, r') := by
  unfold lexSlash at h
  split at h
  · next rest heq =>
      split at h
      · next rest' hskip =>
          obtain ⟨rfl, rfl⟩ := Prod.mk.inj (Except.ok.inj h)
          cases cs with
          | nil =>
              obtain rfl : rest' = '*' :: rest := heq
              have := skipBlockComment_length hskip
              rw [List.length_cons] at this
              omega
          | cons x cs =>
              obtain ⟨rfl, rfl⟩ := List.cons.inj heq
              simp [lexSlash, skipBlockComment_append hskip]
      · cases h
  · cases h

theorem lexNumber_append (h : lexNumber text c (cs ++ r) = .ok (t, r))
    (hdigit : r'.head?.any Char.isDigit = false)
    (hdot : '.' ∈ cs ∨ r'.head? ≠ some '.' ∨ r'.tail.head?.any Char.isDigit = false) :
    lexNumber text c (cs ++ r') = .ok (t, r') := by
  rcases hnumber : readNumber false (cs ++ r) with ⟨tail, has, rest⟩
  have hrest : rest = r := by
    unfold lexNumber at h
    rw [hnumber] at h
    simp only at h
    split at h <;> split at h <;> cases h <;> rfl
  subst hrest
  have hnumber' := readNumber_append_stop hnumber hdigit (.inr hdot)
  unfold lexNumber at h ⊢
  rw [hnumber] at h
  rw [hnumber']
  simp only at h ⊢
  split at h
  · next hhas =>
      split at h <;> cases h
      exact if_pos hhas
  · next hhas =>
      split at h <;> cases h
      exact if_neg hhas

theorem lexeme_append (h : lexeme text c (cs ++ r) = .ok (t, r))
    (hstop : readsOn text (c :: cs) r' = false) : lexeme text c (cs ++ r') = .ok (t, r') := by
  by_cases hspace : text.isWhitespace c
  · unfold lexeme at h ⊢
    rw [if_pos hspace] at h ⊢
    obtain ⟨rfl, rfl⟩ := eq_nil_of_rest h
    rfl
  have hread : ∀ rest, lexeme text c rest = _ := fun rest => if_neg hspace
  rw [hread] at h ⊢
  split at h
  case h_8 =>
    rw [readsOn, if_neg hspace] at hstop
    split at h
    · next rest heq =>
        obtain ⟨rfl, rfl⟩ := Prod.mk.inj (Except.ok.inj h)
        obtain rfl : cs = ['='] := @List.append_cancel_right _ _ rest _ (by simpa using heq)
        rfl
    · next rest heq =>
        obtain ⟨rfl, rfl⟩ := Prod.mk.inj (Except.ok.inj h)
        obtain rfl : cs = ['>'] := @List.append_cancel_right _ _ rest _ (by simpa using heq)
        rfl
    · obtain ⟨rfl, rfl⟩ := eq_nil_of_rest h
      rcases r' with _ | ⟨y, r'⟩
      · rfl
      · obtain ⟨hne, hne'⟩ : y ≠ '=' ∧ y ≠ '>' := by simpa using hstop
        split
        · next heq => exact absurd (List.cons.inj heq).1 hne
        · next heq => exact absurd (List.cons.inj heq).1 hne'
        · rfl
  case h_9 =>
    rw [readsOn, if_neg hspace] at hstop
    split at h
    · next rest heq =>
        obtain ⟨rfl, rfl⟩ := Prod.mk.inj (Except.ok.inj h)
        obtain rfl : cs = ['='] := @List.append_cancel_right _ _ rest _ (by simpa using heq)
        rfl
    · obtain ⟨rfl, rfl⟩ := eq_nil_of_rest h
      rcases r' with _ | ⟨y, r'⟩
      · rfl
      · have hne : y ≠ '=' := by simpa using hstop
        split
        · next heq => exact absurd (List.cons.inj heq).1 hne
        · rfl
  case h_10 => exact lexMinus_append h hstop (by simpa using hspace)
  case h_11 => exact lexSlash_append h
  case h_12 =>
    split at h
    · next rest heq =>
        obtain ⟨rfl, rfl⟩ := Prod.mk.inj (Except.ok.inj h)
        obtain rfl : cs = ['='] := @List.append_cancel_right _ _ rest _ (by simpa using heq)
        rfl
    · cases h
  case h_13 =>
    rw [readsOn, if_neg hspace] at hstop
    split at h
    · next s rest hquoted =>
        obtain ⟨rfl, rfl⟩ := Prod.mk.inj (Except.ok.inj h)
        rw [readQuoted_append hquoted (by simpa using hstop)]
    · cases h
  case h_14 =>
    rw [readsOn, if_neg hspace] at hstop
    split at h
    · next s rest hquoted =>
        obtain ⟨rfl, rfl⟩ := Prod.mk.inj (Except.ok.inj h)
        rw [readQuoted_append hquoted (by simpa using hstop)]
    · cases h
  case h_15 =>
    have hstop' : (if c.isDigit then
        r'.head?.any Char.isDigit ||
          !cs.contains '.' && r'.head? = some '.' && r'.tail.head?.any Char.isDigit
      else if text.isAlphabetic c ∨ c = '_' then r'.head?.any (inWord text)
      else false) = false := by
      simpa only [readsOn, if_neg hspace] using hstop
    split at h
    · next hdigit =>
        rw [if_pos hdigit] at hstop' ⊢
        simp only [Bool.or_eq_false_iff, Bool.and_eq_false_iff] at hstop'
        exact lexNumber_append h hstop'.1 (by simpa [or_assoc] using hstop'.2)
    · next hdigit =>
        rw [if_neg hdigit] at hstop' ⊢
        split at h
        · next hword =>
            rw [if_pos hword] at hstop' ⊢
            obtain ⟨htoken, hrest⟩ := Prod.mk.inj (Except.ok.inj h)
            obtain ⟨htake, hdrop⟩ := takeWhile_append_stop hrest hstop'
            rw [← htoken]
            exact congrArg Except.ok (Prod.ext (congrArg (fun s =>
              some (keywordOrIdentifier text (String.ofList (c :: s)))) htake) hdrop)
        · cases h
  all_goals
    obtain ⟨rfl, rfl⟩ := eq_nil_of_rest h
    rfl

theorem readsOn_nil (chars : List Char) : readsOn text chars [] = false := by
  unfold readsOn
  split
  · rfl
  · split
    · rfl
    · split <;> simp

/-! ## Texts made of lexemes -/

section Parts

variable (text : TextLibrary)

/-- The text alone is one lexeme, which gives this token or none. -/
def ReadsAs (chars : List Char) (t : Option Token) : Prop :=
  ∃ c cs, chars = c :: cs ∧ lexeme text c cs = .ok (t, [])

/-- No part reads on into the parts after it. -/
def Separate : List (List Char) → Prop
  | [] => True
  | part :: parts => readsOn text part parts.flatten = false ∧ Separate parts

instance decidableSeparate : (parts : List (List Char)) → Decidable (Separate text parts)
  | [] => .isTrue trivial
  | part :: parts =>
      have := decidableSeparate parts
      inferInstanceAs (Decidable (readsOn text part parts.flatten = false ∧ Separate text parts))

end Parts

/-- A lexeme of a text is one alone. -/
theorem readsAs_of_lexeme (h : lexeme text c (cs ++ r) = .ok (t, r)) :
    ReadsAs text (c :: cs) t := by
  refine ⟨c, cs, rfl, ?_⟩
  have hread := lexeme_append h (readsOn_nil (c :: cs))
  rwa [List.append_nil] at hread

/-- Parts that are lexemes and apart from each other are what the lexer reads. -/
theorem lexes_flatten {parts : List (List Char)} {ts : List (Option Token)}
    (h : List.Forall₂ (ReadsAs text) parts ts) (hparts : Separate text parts) :
    Lexes text parts.flatten ts.reduceOption := by
  induction h with
  | nil => exact .nil
  | @cons part t parts ts hpart _ ih =>
      obtain ⟨c, cs, rfl, hread⟩ := hpart
      have hread' := lexeme_append (r := []) (by rwa [List.append_nil]) hparts.1
      have hlexes := Lexes.step hread' (ih hparts.2)
      cases t with
      | none =>
          rw [List.reduceOption_cons_of_none]
          simpa using hlexes
      | some t =>
          rw [List.reduceOption_cons_of_some]
          simpa using hlexes

/-! ## Literals -/

theorem readsAs_word (hc : text.isWhitespace c = false) (hdigit : c.isDigit = false)
    (hword : text.isAlphabetic c ∨ c = '_') (hspecial : c ∉ "(),*.;=<>-/!'\"".toList)
    (hcs : cs.all (inWord text)) :
    ReadsAs text (c :: cs) (some (keywordOrIdentifier text (String.ofList (c :: cs)))) := by
  refine ⟨c, cs, rfl, ?_⟩
  unfold lexeme
  rw [if_neg (by simp [hc])]
  split
  case h_15 =>
    rw [if_neg (by simp [hdigit]), if_pos hword]
    have hall : ∀ x ∈ cs, inWord text x = true := by simpa using hcs
    have htake : cs.takeWhile (inWord text) = cs := List.takeWhile_eq_self_iff.mpr hall
    have hdrop : cs.dropWhile (inWord text) = [] := List.dropWhile_eq_nil_iff.mpr hall
    exact congrArg Except.ok (Prod.ext (congrArg (fun s =>
      some (keywordOrIdentifier text (String.ofList (c :: s)))) htake) hdrop)
  all_goals exact absurd hspecial (by decide)

theorem readQuoted_escaped {quote : Char} (s : List Char) :
    readQuoted quote ((s.flatMap fun c => if c = quote then [quote, quote] else [c]) ++ [quote]) =
      some (s, []) := by
  induction s with
  | nil => simp [readQuoted]
  | cons c s ih =>
      rw [List.flatMap_cons, List.append_assoc]
      by_cases hc : c = quote
      · subst hc
        simp [readQuoted, ih]
      · rw [if_neg hc]
        generalize (s.flatMap fun c => if c = quote then [quote, quote] else [c]) = escaped at ih
        cases escaped with
        | nil =>
            have hs : s = [] := by simpa [readQuoted, eq_comm] using ih
            simp [readQuoted, hc, hs]
        | cons d escaped =>
            simp only [List.cons_append, List.nil_append] at ih ⊢
            simp [readQuoted, hc, ih]

theorem readNumber_digits {s : List Char} (h : s.all Char.isDigit) (hasDot : Bool) :
    readNumber hasDot s = (s, hasDot, []) := by
  induction s with
  | nil => rfl
  | cons c s ih =>
      rw [List.all_cons, Bool.and_eq_true] at h
      simp [readNumber, h.1, ih h.2]

theorem digitsValue_toDigits (n : Nat) : digitsValue (Nat.toDigits 10 n) = n := by
  have h := Nat.ofDigitChars_ten_toDigits (n := n)
  rwa [Nat.ofDigitChars_eq_foldl] at h

theorem parseI64_digits {n : Nat} (h : (n : Int) < 2 ^ 63) :
    parseI64 (Nat.toDigits 10 n) = some (Int64.ofInt n) := by
  have hall : ∀ c ∈ Nat.toDigits 10 n, c.isDigit := fun c hc =>
    Nat.isDigit_of_mem_toDigits (by decide) (by decide) hc
  have hne : Nat.toDigits 10 n ≠ [] := Nat.toDigits_ne_nil
  have hvalue := digitsValue_toDigits n
  generalize Nat.toDigits 10 n = digits at hall hne hvalue
  unfold parseI64
  split
  next negative digits' heq =>
    obtain ⟨rfl, rfl⟩ : negative = false ∧ digits' = digits := by
      split at heq
      · exact absurd (hall _ List.mem_cons_self) (by decide)
      · exact absurd (hall _ List.mem_cons_self) (by decide)
      · exact ⟨(Prod.mk.inj heq).1.symm, (Prod.mk.inj heq).2.symm⟩
    rw [if_neg (by simpa [hne] using hall), hvalue]
    exact if_pos (by constructor <;> simp <;> omega)

theorem parseI64_minus {n : Nat} (h : (n : Int) ≤ 2 ^ 63) :
    parseI64 ('-' :: Nat.toDigits 10 n) = some (Int64.ofInt (-n)) := by
  have hall : ∀ c ∈ Nat.toDigits 10 n, c.isDigit := fun c hc =>
    Nat.isDigit_of_mem_toDigits (by decide) (by decide) hc
  have hne : Nat.toDigits 10 n ≠ [] := Nat.toDigits_ne_nil
  have hvalue := digitsValue_toDigits n
  generalize Nat.toDigits 10 n = digits at hall hne hvalue
  unfold parseI64
  simp only
  rw [if_neg (by simpa [hne] using hall), hvalue]
  exact if_pos (by constructor <;> simp <;> omega)

theorem parseI64_toString (i : Int64) : parseI64 (toString i.toInt).toList = some i := by
  have hlow := i.le_toInt
  have hhigh := i.toInt_lt
  rw [Int.toString_eq_repr, Int.repr_eq_if]
  split
  · next hpos =>
      rw [Nat.toList_repr, parseI64_digits (by omega), Int.toNat_of_nonneg hpos, Int64.ofInt_toInt]
  · next hneg =>
      have hs : ("-" ++ (-i.toInt).toNat.repr).toList =
          '-' :: Nat.toDigits 10 (-i.toInt).toNat := by
        rw [String.toList_append, Nat.toList_repr]
        rfl
      rw [hs, parseI64_minus (by omega), Int.toNat_of_nonneg (by omega), Int.neg_neg,
        Int64.ofInt_toInt]
section Literals

variable (hascii : text.LikeAscii)
include hascii

theorem isWhitespace_digit (hc : c.isDigit) : text.isWhitespace c = false := by
  have hrange : 48 ≤ c.toNat ∧ c.toNat ≤ 57 := by
    simp only [Char.isDigit, Bool.and_eq_true, decide_eq_true_eq] at hc
    exact ⟨UInt32.le_iff_toNat_le.mp hc.1, UInt32.le_iff_toNat_le.mp hc.2⟩
  rw [hascii.isWhitespace _ (by omega)]
  have hspace : c ≠ ' ' := by rintro rfl; exact absurd hc (by decide)
  simp only [asciiLibrary, Bool.or_eq_false_iff, Bool.and_eq_false_iff, decide_eq_false_iff_not]
  exact ⟨hspace, .inr (by omega)⟩

theorem lexeme_digit (hc : c.isDigit) (rest : List Char) :
    lexeme text c rest = lexNumber text c rest := by
  have hspace := isWhitespace_digit hascii hc
  unfold lexeme
  rw [if_neg (by simp [hspace])]
  split
  case h_15 => rw [if_pos hc]
  all_goals exact absurd hc (by decide)

theorem readsAs_null : ReadsAs text "NULL".toList (some .null) := by
  have hupper : text.toUppercase "NULL" = "NULL" := by
    rw [hascii.toUppercase _ (Text.forall_of_all (by decide))]
    decide +kernel
  have hword : keywordOrIdentifier text (String.ofList ['N', 'U', 'L', 'L']) = .null := by
    rw [keywordOrIdentifier,
      show text.toUppercase (String.ofList ['N', 'U', 'L', 'L']) = "NULL" from hupper]
    rfl
  rw [← hword]
  refine readsAs_word ?_ (by decide) (.inl ?_) (by decide) ?_
  · rw [hascii.isWhitespace _ (by decide)]
    decide
  · rw [hascii.isAlphabetic _ (by decide)]
    decide
  · have hin : ∀ c ∈ ['U', 'L', 'L'], inWord text c = true := by
      intro c hc
      have hlt : c.toNat < 128 ∧ c.isAlphanum = true :=
        Text.forall_of_all (p := fun c => c.toNat < 128 ∧ c.isAlphanum = true) (by decide) c hc
      rw [inWord, hascii.isAlphanumeric _ hlt.1, show asciiLibrary.isAlphanumeric c = _ from hlt.2]
      rfl
    exact List.all_eq_true.mpr hin

theorem readsAs_quoted (s : List Char) :
    ReadsAs text ('\'' :: (s.flatMap (fun c => if c = '\'' then ['\'', '\''] else [c]) ++ ['\'']))
      (some (.stringLiteral (String.ofList s))) := by
  refine ⟨'\'', _, rfl, ?_⟩
  unfold lexeme
  rw [hascii.isWhitespace _ (by decide), if_neg (by decide)]
  simp only [readQuoted_escaped]

/-- An integer without a plus sign is read as it is parsed. -/
theorem readsAs_int {s : List Char} {n : Int64} (h : parseI64 s = some n)
    (hplus : s.head? ≠ some '+') : ReadsAs text s (some (.intLiteral n)) := by
  rcases s with _ | ⟨c, s⟩
  · cases h
  by_cases hminus : c = '-'
  · subst hminus
    have hs : s ≠ [] ∧ ∀ d ∈ s, d.isDigit = true := by
      rw [parseI64] at h
      simp only at h
      split at h
      · cases h
      · next hnot => simpa [not_or] using hnot
    have htake : s.takeWhile Char.isDigit = s := List.takeWhile_eq_self_iff.mpr hs.2
    have hdrop : s.dropWhile Char.isDigit = [] := List.dropWhile_eq_nil_iff.mpr hs.2
    refine ⟨'-', s, rfl, ?_⟩
    unfold lexeme
    rw [hascii.isWhitespace _ (by decide), if_neg (by decide)]
    obtain ⟨d, s, rfl⟩ := List.exists_cons_of_ne_nil hs.1
    have hd : d.isDigit = true := hs.2 d List.mem_cons_self
    have hne : d ≠ '-' := by rintro rfl; exact absurd hd (by decide)
    have hne' : d ≠ '>' := by rintro rfl; exact absurd hd (by decide)
    show lexMinus (d :: s) = _
    rw [lexMinus.eq_4]
    · simp only [htake, hdrop, h]
      rfl
    all_goals simp [hne, hne']
  · have hall : (c :: s).all Char.isDigit := by
      have hplus' : c ≠ '+' := by simpa using hplus
      unfold parseI64 at h
      split at h
      next negative digits heq =>
        have hdigits : digits = c :: s := by
          split at heq
          · next rest heq' => exact absurd (List.cons.inj heq').1 hminus
          · next rest heq' => exact absurd (List.cons.inj heq').1 hplus'
          · exact (Prod.mk.inj heq).2.symm
        split at h
        · cases h
        · next hnot => simpa [hdigits, not_or] using hnot
    rw [List.all_cons, Bool.and_eq_true] at hall
    refine ⟨c, s, rfl, ?_⟩
    rw [lexeme_digit hascii hall.1]
    simp only [lexNumber, readNumber_digits hall.2, Bool.false_eq_true, if_false, h]

/-- So are digits, a dot and digits. -/
theorem readsAs_float {s : List Char} {x : Float} (h : text.parseF64 (String.ofList s) = some x)
    (hdigit : s.head?.any Char.isDigit) (hnumber : readNumber false s = (s, true, [])) :
    ReadsAs text s (some (.floatLiteral x)) := by
  cases s with
  | nil => cases hdigit
  | cons c cs =>
      have hc : c.isDigit = true := by simpa using hdigit
      refine ⟨c, cs, rfl, ?_⟩
      rw [lexeme_digit hascii hc]
      rcases hrest : readNumber false cs with ⟨tail, has, rest⟩
      rw [readNumber, if_pos hc, hrest] at hnumber
      obtain ⟨rfl, rfl, rfl⟩ : tail = cs ∧ has = true ∧ rest = [] := by simpa using hnumber
      simp only [lexNumber, hrest, if_true, h]

end Literals

/-! ## Dollar signs at the end of a lexeme -/

/-- The text does not end with a dollar sign and digits. -/
def Closed (s : List Char) : Prop :=
  ∀ digits : List Char, digits.all Char.isDigit → ¬('$' :: digits) <:+ s

theorem closed_of_notMem (h : '$' ∉ cs) : Closed cs := fun _ _ hsuffix =>
  h (hsuffix.subset List.mem_cons_self)

theorem closed_of_getLast (h : cs.getLast? = some c) (hc : c.isDigit = false) (hne : c ≠ '$') :
    Closed cs := by
  rintro digits hall ⟨start, rfl⟩
  cases digits using List.reverseRecOn with
  | nil =>
      simp only [List.getLast?_append, List.getLast?_singleton, Option.some_or,
        Option.some.injEq] at h
      exact hne h.symm
  | append_singleton digits d =>
      rw [← List.cons_append, ← List.append_assoc, List.getLast?_concat] at h
      obtain rfl := Option.some.inj h
      rw [List.all_append, List.all_cons, hc] at hall
      simp at hall

theorem readQuoted_getLast {quote : Char} {s : List Char} (h : readQuoted quote cs = some (s, [])) :
    cs.getLast? = some quote := by
  induction cs using List.twoStepInduction generalizing s with
  | nil => cases h
  | singleton x =>
      have hx : x = quote := by
        by_contra hx
        simp [readQuoted, hx] at h
      simp [hx]
  | cons_cons x y cs ih ih' =>
      rw [List.getLast?_cons_cons]
      by_cases hx : x = quote
      · by_cases hy : y = quote
        · simp only [readQuoted, if_pos hx, if_pos hy, Option.map_eq_some_iff] at h
          obtain ⟨⟨s', rest⟩, hread, heq⟩ := h
          cases heq
          have hlast := ih hread
          cases cs with
          | nil => cases hlast
          | cons z cs => rwa [List.getLast?_cons_cons]
        · simp [readQuoted, hx, hy] at h
      · simp only [readQuoted, if_neg hx, Option.map_eq_some_iff] at h
        obtain ⟨⟨s', rest⟩, hread, heq⟩ := h
        cases heq
        exact ih' y hread

theorem skipBlockComment_getLast (h : skipBlockComment cs = some []) : cs.getLast? = some '/' := by
  induction cs using skipBlockComment.induct with
  | case1 => cases h
  | case2 rest =>
      obtain rfl : rest = [] := by simpa [skipBlockComment] using h
      rfl
  | case3 x cs hne ih =>
      rw [skipBlockComment.eq_3 _ _ hne] at h
      have hlast := ih h
      cases cs with
      | nil => cases hlast
      | cons y cs => rwa [List.getLast?_cons_cons]

theorem skipLineComment_getLast (h : skipLineComment (cs ++ r) = r) (hr : r ≠ []) :
    cs.getLast? = some '\n' := by
  induction cs with
  | nil =>
      have hlength : (skipLineComment r).length < r.length := by
        have := List.length_pos_iff.mpr hr
        have := (List.dropWhile_sublist (fun ch => decide (ch ≠ '\n')) (l := r)).length_le
        simp only [skipLineComment, List.length_drop]
        omega
      rw [show skipLineComment r = r from h] at hlength
      exact absurd hlength (lt_irrefl _)
  | cons x cs ih =>
      by_cases hx : x = '\n'
      · subst hx
        obtain rfl : cs = [] := by simpa [skipLineComment] using h
        rfl
      · have hlast := ih (by simpa [skipLineComment, hx] using h)
        cases cs with
        | nil => cases hlast
        | cons y cs => rwa [List.getLast?_cons_cons]

theorem readNumber_mem {hasDot : Bool} (hx : c ∈ (readNumber hasDot cs).1) :
    c.isDigit ∨ c = '.' := by
  induction hasDot, cs using readNumber.induct with
  | case1 hasDot => cases hx
  | case2 hasDot x rest hdigit s hasDot' rest' heq ih =>
      simp only [readNumber, if_pos hdigit, heq, List.mem_cons] at hx
      rcases hx with rfl | hx
      · exact .inl hdigit
      · exact ih (by rwa [heq])
  | case3 hasDot x rest hdigit hdot s hasDot' rest' heq ih =>
      simp only [readNumber, if_neg hdigit, if_pos hdot, heq, List.mem_cons] at hx
      rcases hx with rfl | hx
      · exact .inr hdot.1
      · exact ih (by rwa [heq])
  | case4 hasDot x rest hdigit hdot => simp [readNumber, hdigit, hdot] at hx

theorem lexMinus_closed (h : lexMinus (cs ++ r) = .ok (t, r)) (hr : r ≠ []) :
    Closed ('-' :: cs) := by
  unfold lexMinus at h
  split at h
  · next rest heq =>
      obtain ⟨-, hrest⟩ := Prod.mk.inj (Except.ok.inj h)
      cases cs with
      | nil => exact closed_of_notMem (by decide)
      | cons x cs =>
          obtain ⟨rfl, rfl⟩ := List.cons.inj heq
          have hlast := skipLineComment_getLast hrest hr
          refine closed_of_getLast (c := '\n') ?_ (by decide) (by decide)
          cases cs with
          | nil => cases hlast
          | cons y cs => simpa using hlast
  · next rest heq =>
      obtain ⟨-, rfl⟩ := Prod.mk.inj (Except.ok.inj h)
      obtain rfl : cs = ['>', '>'] := @List.append_cancel_right _ _ rest _ (by simpa using heq)
      exact closed_of_notMem (by decide)
  · next rest hne heq =>
      obtain ⟨-, rfl⟩ := Prod.mk.inj (Except.ok.inj h)
      obtain rfl : cs = ['>'] := @List.append_cancel_right _ _ rest _ (by simpa using heq)
      exact closed_of_notMem (by decide)
  · simp only at h
    split at h
    · cases h
    · split at h
      · obtain ⟨-, hrest⟩ := Prod.mk.inj (Except.ok.inj h)
        refine closed_of_notMem fun hmem => ?_
        have hdollar : '$' ∈ cs := by simpa using hmem
        have hdigit := mem_of_dropWhile_append hrest hdollar
        exact absurd hdigit (by decide)
      · cases h

theorem lexSlash_closed (h : lexSlash (cs ++ r) = .ok (t, r)) : Closed ('/' :: cs) := by
  unfold lexSlash at h
  split at h
  · next rest heq =>
      split at h
      · next rest' hskip =>
          obtain ⟨-, rfl⟩ := Prod.mk.inj (Except.ok.inj h)
          cases cs with
          | nil => exact closed_of_notMem (by decide)
          | cons x cs =>
              obtain ⟨rfl, rfl⟩ := List.cons.inj heq
              have hskip' : skipBlockComment (cs ++ []) = some [] := skipBlockComment_append hskip
              rw [List.append_nil] at hskip'
              have hlast := skipBlockComment_getLast hskip'
              refine closed_of_getLast (c := '/') ?_ (by decide) (by decide)
              cases cs with
              | nil => cases hlast
              | cons y cs => simpa using hlast
      · cases h
  · cases h

theorem readQuoted_closed {quote : Char} {s : List Char}
    (h : readQuoted quote (cs ++ r) = some (s, r)) (hdigit : quote.isDigit = false)
    (hne : quote ≠ '$') : Closed (quote :: cs) := by
  have hread : readQuoted quote (cs ++ []) = some (s, []) := readQuoted_append h (by simp)
  rw [List.append_nil] at hread
  have hlast := readQuoted_getLast hread
  refine closed_of_getLast ?_ hdigit hne
  cases cs with
  | nil => cases hlast
  | cons y cs => simpa using hlast

theorem lexNumber_closed (h : lexNumber text c (cs ++ r) = .ok (t, r)) (hc : c ≠ '$') :
    Closed (c :: cs) := by
  rcases hnumber : readNumber false (cs ++ r) with ⟨tail, has, rest⟩
  have hrest : rest = r := by
    unfold lexNumber at h
    rw [hnumber] at h
    simp only at h
    split at h <;> split at h <;> cases h <;> rfl
  have htail : tail = cs := by
    have happend := readNumber_append false (cs ++ r)
    rw [hnumber, hrest] at happend
    exact List.append_cancel_right happend
  refine closed_of_notMem fun hmem => ?_
  have hdollar : '$' ∈ cs := by simpa [hc.symm] using hmem
  have hread : '$' ∈ (readNumber false (cs ++ r)).1 := by rwa [hnumber, htail]
  exact absurd (readNumber_mem hread) (by decide)

theorem lexeme_closed (hascii : text.LikeAscii) (h : lexeme text c (cs ++ r) = .ok (t, r))
    (hr : r ≠ []) : Closed (c :: cs) := by
  by_cases hspace : text.isWhitespace c
  · unfold lexeme at h
    rw [if_pos hspace] at h
    obtain ⟨-, rfl⟩ := eq_nil_of_rest h
    refine closed_of_notMem fun hmem => ?_
    obtain rfl : '$' = c := by simpa using hmem
    rw [hascii.isWhitespace _ (by decide)] at hspace
    exact absurd hspace (by decide)
  have hread : ∀ rest, lexeme text c rest = _ := fun rest => if_neg hspace
  rw [hread] at h
  split at h
  case h_8 =>
    split at h
    · next rest heq =>
        obtain ⟨-, rfl⟩ := Prod.mk.inj (Except.ok.inj h)
        obtain rfl : cs = ['='] := @List.append_cancel_right _ _ rest _ (by simpa using heq)
        exact closed_of_notMem (by decide)
    · next rest heq =>
        obtain ⟨-, rfl⟩ := Prod.mk.inj (Except.ok.inj h)
        obtain rfl : cs = ['>'] := @List.append_cancel_right _ _ rest _ (by simpa using heq)
        exact closed_of_notMem (by decide)
    · obtain ⟨-, rfl⟩ := eq_nil_of_rest h
      exact closed_of_notMem (by decide)
  case h_9 =>
    split at h
    · next rest heq =>
        obtain ⟨-, rfl⟩ := Prod.mk.inj (Except.ok.inj h)
        obtain rfl : cs = ['='] := @List.append_cancel_right _ _ rest _ (by simpa using heq)
        exact closed_of_notMem (by decide)
    · obtain ⟨-, rfl⟩ := eq_nil_of_rest h
      exact closed_of_notMem (by decide)
  case h_10 => exact lexMinus_closed h hr
  case h_11 => exact lexSlash_closed h
  case h_12 =>
    split at h
    · next rest heq =>
        obtain ⟨-, rfl⟩ := Prod.mk.inj (Except.ok.inj h)
        obtain rfl : cs = ['='] := @List.append_cancel_right _ _ rest _ (by simpa using heq)
        exact closed_of_notMem (by decide)
    · cases h
  case h_13 =>
    split at h
    · next s rest hquoted =>
        obtain ⟨-, rfl⟩ := Prod.mk.inj (Except.ok.inj h)
        exact readQuoted_closed hquoted (by decide) (by decide)
    · cases h
  case h_14 =>
    split at h
    · next s rest hquoted =>
        obtain ⟨-, rfl⟩ := Prod.mk.inj (Except.ok.inj h)
        exact readQuoted_closed hquoted (by decide) (by decide)
    · cases h
  case h_15 =>
    split at h
    · next hdigit =>
        exact lexNumber_closed h (by rintro rfl; exact absurd hdigit (by decide))
    · split at h
      · next hword =>
          obtain ⟨-, hrest⟩ := Prod.mk.inj (Except.ok.inj h)
          refine closed_of_notMem fun hmem => ?_
          rcases List.mem_cons.mp hmem with rfl | hdollar
          · rw [hascii.isAlphabetic _ (by decide)] at hword
            exact absurd hword (by decide)
          · have hin := mem_of_dropWhile_append hrest hdollar
            rw [hascii.isAlphanumeric _ (by decide)] at hin
            exact absurd hin (by decide)
      · cases h
  all_goals
    obtain ⟨-, rfl⟩ := eq_nil_of_rest h
    exact closed_of_notMem (by decide)

theorem readsAs_comment {cs : List Char} {t : Option Token} (hascii : text.LikeAscii)
    (h : ReadsAs text ('-' :: '-' :: cs) t) : t = none := by
  obtain ⟨c, rest, heq, hread⟩ := h
  obtain ⟨rfl, rfl⟩ := List.cons.inj heq
  unfold lexeme at hread
  rw [hascii.isWhitespace _ (by decide), if_neg (by decide)] at hread
  exact (Prod.mk.inj (Except.ok.inj hread)).1.symm

/-- No token reads on into a character that is in no number, word or operator and is no quote. -/
theorem readsOn_head (hascii : text.LikeAscii) {chars : List Char} {t : Token}
    (h : ReadsAs text chars (some t)) (hword : inWord text c = false) (hdigit : c.isDigit = false)
    (hother : c ∉ ['.', '\'', '"', '=', '>']) (rest : List Char) :
    readsOn text chars (c :: rest) = false := by
  obtain ⟨hdot, hquote, hname, heq, hgt⟩ : c ≠ '.' ∧ c ≠ '\'' ∧ c ≠ '"' ∧ c ≠ '=' ∧ c ≠ '>' := by
    simpa using hother
  unfold readsOn
  split
  · rfl
  · next d cs =>
      split
      · rfl
      · split
        case h_3 =>
          split
          · next hminus =>
              obtain ⟨cs, rfl⟩ : ∃ cs', cs = '-' :: cs' := by
                cases cs with
                | nil => cases hminus
                | cons d cs => exact ⟨cs, by simpa using hminus⟩
              exact absurd (readsAs_comment hascii h) (by simp)
          · split <;> simp [hdigit, hgt]
        all_goals simp [hdigit, hword, hdot, hquote, hname, heq, hgt]

theorem closed_of_readsAs (hascii : text.LikeAscii) {chars : List Char} {t : Token}
    (h : ReadsAs text chars (some t)) : Closed chars := by
  have hword : inWord text ' ' = false := by
    rw [inWord, hascii.isAlphanumeric _ (by decide)]
    decide
  have hblank := readsOn_head hascii h hword (by decide) (by decide) []
  obtain ⟨c, cs, rfl, hread⟩ := h
  exact lexeme_closed hascii (lexeme_append (r := []) (by rwa [List.append_nil]) hblank) (by simp)

end ChocoBase.Sql
