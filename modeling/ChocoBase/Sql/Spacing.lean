import ChocoBase.Sql.Lexemes
import ChocoBase.Foundation.Text
import Mathlib.Data.List.Forall2

/-!
# Texts that are put together with blanks

A text that is read by itself is read as the same tokens in front of a blank, a comma
or a closing parenthesis, and one that ends with a blank or an opening parenthesis is
in front of anything.
-/

namespace ChocoBase.Sql

open ChocoBase.Foundation
open Text (Chars)

/-- The text is empty, or its first character is not read into what is before it. -/
def opens (r : Chars) : Bool := r.head?.all (" ,)-".toList.contains ·)

/-- The text ends with a character that reads nothing on. -/
def closes (s : Chars) : Bool := s.getLast?.any (" (".toList.contains ·)

section Reads

variable (text : TextLibrary)

/-- The text gives these tokens in front of a text that opens. -/
def Reads (s : Chars) (ts : List Token) : Prop :=
  ∀ r ts', opens r → Lexes text r ts' → Lexes text (s ++ r) (ts ++ ts')

/-- The name that the text is, with blanks around it. -/
def identifierText (s : Chars) : Option String :=
  match s.dropWhile text.isWhitespace with
  | [] => none
  | c :: cs =>
      match lexeme text c cs with
      | .ok (some (.identifier name), rest) => if rest.all text.isWhitespace then some name else none
      | _ => none

/-- The text gives these tokens in front of any text. -/
def Solid (s : Chars) (ts : List Token) : Prop :=
  ∀ r ts', Lexes text r ts' → Lexes text (s ++ r) (ts ++ ts')

end Reads

variable {text : TextLibrary} {a b s r : Chars} {ta tb ts : List Token}

theorem Reads.lexes (h : Reads text s ts) : Lexes text s ts := by
  simpa using h [] [] rfl .nil

theorem Reads.nil : Reads text [] [] := fun _ _ _ h => h

theorem opens_append (ha : opens a) (hb : opens b) : opens (a ++ b) := by
  cases a with
  | nil => exact hb
  | cons c a => exact ha

theorem Reads.append (ha : Reads text a ta) (hb : Reads text b tb) (h : opens b) :
    Reads text (a ++ b) (ta ++ tb) := by
  intro r ts' hr hlexes
  rw [List.append_assoc, List.append_assoc]
  exact ha _ _ (opens_append h hr) (hb _ _ hr hlexes)

theorem Solid.append (ha : Solid text a ta) (hb : Reads text b tb) :
    Reads text (a ++ b) (ta ++ tb) := by
  intro r ts' hr hlexes
  rw [List.append_assoc, List.append_assoc]
  exact ha _ _ (hb _ _ hr hlexes)

theorem reads_join {sep : Chars} {tsep : List Token} {parts : List Chars}
    {tokens : List (List Token)} (hsep : Solid text sep tsep) (hopens : opens sep)
    (hne : sep ≠ []) (h : List.Forall₂ (Reads text) parts tokens) :
    Reads text (Text.join sep parts) (tsep.intercalate tokens) := by
  have hhead : ∀ b, opens (sep ++ b) := by
    obtain ⟨c, sep, rfl⟩ := List.exists_cons_of_ne_nil hne
    exact fun _ => hopens
  induction h with
  | nil => exact .nil
  | @cons part t parts tokens hpart hrest ih =>
      cases hrest with
      | nil => simpa [Text.join, List.intercalate] using hpart
      | cons hnext hrest =>
          have htail := hpart.append (hsep.append ih) (hhead _)
          simpa [Text.join, List.intercalate] using htail

theorem reads_map {α : Type*} {l : List α} {f : α → Chars} {g : α → List Token}
    (h : ∀ x ∈ l, Reads text (f x) (g x)) : List.Forall₂ (Reads text) (l.map f) (l.map g) := by
  rw [List.forall₂_map_left_iff, List.forall₂_map_right_iff, List.forall₂_same]
  exact h

/-! ## Texts of letters, blanks and operators -/

theorem takeWhile_append_agree {p q : Char → Bool} (hagree : ∀ x ∈ s, p x = q x)
    (hstop : s.dropWhile q = [] → r.head?.any p = false) :
    (s ++ r).takeWhile p = s.takeWhile q ∧ (s ++ r).dropWhile p = s.dropWhile q ++ r := by
  induction s with
  | nil =>
      cases r with
      | nil => simp
      | cons c r =>
          have hc : p c = false := by simpa using hstop rfl
          simp [hc]
  | cons c s ih =>
      have hc := hagree c List.mem_cons_self
      by_cases hq : q c = true
      · have ih := ih (fun x hx => hagree x (List.mem_cons_of_mem _ hx))
          fun h => hstop (by rwa [List.dropWhile_cons_of_pos hq])
        simp [hc, hq, ih]
      · simp [hc, hq]

section Ascii

variable (hascii : text.LikeAscii)
include hascii

theorem inWord_ascii {c : Char} (hc : c.toNat < 128) : inWord text c = inWord asciiLibrary c := by
  rw [inWord, inWord, hascii.isAlphanumeric c hc]

theorem isDelimiter {c : Char} (hc : c ∈ " ,)-".toList) :
    inWord text c = false ∧ c.isDigit = false ∧ c ∉ ['.', '\'', '"', '=', '>'] := by
  have hall : ∀ x ∈ " ,)-".toList, x.toNat < 128 ∧ inWord asciiLibrary x = false ∧
      x.isDigit = false ∧ x ∉ ['.', '\'', '"', '=', '>'] := Text.forall_of_all (by decide)
  have hlt := hall c hc
  rw [inWord_ascii hascii hlt.1]
  exact hlt.2

theorem opens_not_inWord (h : opens r) : r.head?.any (inWord text) = false := by
  cases r with
  | nil => rfl
  | cons c r => simpa using (isDelimiter hascii (by simpa [opens] using h)).1

end Ascii

/-! ## Own texts -/

/-- The tokens of a text that a program writes itself. -/
def ownTokens (s : String) : List Token :=
  match tokenize asciiLibrary s with
  | .ok tokens => (tokens.map SpannedToken.token).dropLast
  | _ => []

/-- Words, blanks, parentheses and operators. -/
def ownChar (c : Char) : Bool := c.isAlpha || "_ (),*=<>!".toList.contains c

def isOwn (s : String) : Bool :=
  s.toList.all ownChar && match tokenize asciiLibrary s with
    | .ok _ => true
    | _ => false

def isSeparator (s : String) : Bool := isOwn s && opens s.toList && closes s.toList

theorem lexes_ownTokens {s : String} (h : isOwn s) :
    s.toList.all ownChar ∧ Lexes asciiLibrary s.toList (ownTokens s) := by
  rw [isOwn, Bool.and_eq_true] at h
  refine ⟨h.1, ?_⟩
  have hok := h.2
  unfold ownTokens
  split at hok
  · next tokens htokens =>
      obtain ⟨ts, hlexes, hmap⟩ := tokenizeFrom_ok htokens
      simpa [htokens, hmap] using hlexes
  · cases hok

theorem ownChar_lt {c : Char} (h : ownChar c) : c.toNat < 128 := by
  rw [ownChar, Bool.or_eq_true] at h
  rcases h with h | h
  · delta Char.isAlpha Char.isUpper Char.isLower at h
    simp only [Bool.or_eq_true, Bool.and_eq_true, decide_eq_true_eq] at h
    rcases h with ⟨-, h⟩ | ⟨-, h⟩
    · exact (UInt32.le_iff_toNat_le.mp h).trans_lt (by decide)
    · exact (UInt32.le_iff_toNat_le.mp h).trans_lt (by decide)
  · have hall : ∀ x ∈ "_ (),*=<>!".toList, x.toNat < 128 := Text.forall_of_all (by decide)
    exact hall c (by simpa using h)

theorem lexeme_word {c : Char} {cs : Chars}
    (hc : text.isWhitespace c = false) (hdigit : c.isDigit = false)
    (hword : text.isAlphabetic c ∨ c = '_') (hspecial : c ∉ "(),*.;=<>-/!'\"".toList) :
    lexeme text c cs = .ok (lexWord text c cs) := by
  unfold lexeme
  rw [if_neg (by simp [hc])]
  split
  case h_15 => rw [if_neg (by simp [hdigit]), if_pos hword]
  all_goals exact absurd hspecial (by decide)

theorem isAlpha_plain {c : Char} (h : c.isAlpha) :
    asciiLibrary.isWhitespace c = false ∧ c.isDigit = false ∧ c ∉ "(),*.;=<>-/!'\"".toList := by
  have hrange : 65 ≤ c.toNat ∧ c.toNat ≤ 122 := by
    delta Char.isAlpha Char.isUpper Char.isLower at h
    simp only [Bool.or_eq_true, Bool.and_eq_true, decide_eq_true_eq, ge_iff_le,
      UInt32.le_iff_toNat_le] at h
    have : c.toNat = c.val.toNat := rfl
    have : 'A'.val.toNat = 65 ∧ 'Z'.val.toNat = 90 := by decide
    have : 'a'.val.toNat = 97 ∧ 'z'.val.toNat = 122 := by decide
    omega
  refine ⟨?_, ?_, fun hin => ?_⟩
  · have hne : c ≠ ' ' := by rintro rfl; exact absurd hrange.1 (by decide)
    simp only [asciiLibrary, Bool.or_eq_false_iff, Bool.and_eq_false_iff, decide_eq_false_iff_not]
    exact ⟨hne, .inr (by omega)⟩
  · by_contra hdigit
    simp only [Char.isDigit, Bool.not_eq_false, Bool.and_eq_true, decide_eq_true_eq, ge_iff_le,
      UInt32.le_iff_toNat_le] at hdigit
    have : c.toNat = c.val.toNat := rfl
    have : '9'.val.toNat = 57 := by decide
    omega
  · have hlow : ∀ x ∈ "(),*.;=<>-/!'\"".toList, x.toNat < 65 :=
      Text.forall_of_all (by decide)
    exact absurd hrange.1 (not_le.mpr (hlow c hin))

section Own

variable (hascii : text.LikeAscii)
include hascii

theorem lexWord_own {c : Char} {cs : Chars} (hc : ownChar c) (hcs : ∀ x ∈ cs, ownChar x)
    (hword : inWord asciiLibrary c) (hr : opens r ∨ closes (c :: cs)) :
    lexWord text c (cs ++ r) =
      ((lexWord asciiLibrary c cs).1, (lexWord asciiLibrary c cs).2 ++ r) := by
  have hagree : ∀ x ∈ cs, inWord text x = inWord asciiLibrary x := fun x hx =>
    inWord_ascii hascii (ownChar_lt (hcs x hx))
  have hstop : cs.dropWhile (inWord asciiLibrary) = [] → r.head?.any (inWord text) = false := by
    intro hall
    refine opens_not_inWord hascii (hr.resolve_right fun hcloses => ?_)
    rw [List.dropWhile_eq_nil_iff] at hall
    obtain ⟨x, hx, hend⟩ : ∃ x, (c :: cs).getLast? = some x ∧ x ∈ " (".toList := by
      simpa [closes, Option.any_eq_true] using hcloses
    have hin : inWord asciiLibrary x = true := by
      rcases List.mem_cons.mp (List.mem_of_getLast? hx) with rfl | hx
      · exact hword
      · exact hall x hx
    have hnot : ∀ y ∈ " (".toList, inWord asciiLibrary y = false := Text.forall_of_all (by decide)
    rw [hnot x hend] at hin
    cases hin
  obtain ⟨htake, hdrop⟩ := takeWhile_append_agree hagree hstop
  have hupper : text.toUppercase (String.ofList (c :: cs.takeWhile (inWord asciiLibrary))) =
      asciiLibrary.toUppercase (String.ofList (c :: cs.takeWhile (inWord asciiLibrary))) := by
    refine hascii.toUppercase _ fun x hx => ownChar_lt ?_
    rw [String.toList_ofList] at hx
    rcases List.mem_cons.mp hx with rfl | hx
    · exact hc
    · exact hcs x ((List.takeWhile_sublist _).subset hx)
  show (some (keywordOrIdentifier text (String.ofList (c :: (cs ++ r).takeWhile (inWord text)))),
    (cs ++ r).dropWhile (inWord text)) = _
  rw [htake, hdrop, keywordOrIdentifier, hupper]
  rfl

theorem lexeme_own {c : Char} {cs rest : Chars} {t : Option Token} (hc : ownChar c)
    (hcs : ∀ x ∈ cs, ownChar x) (h : lexeme asciiLibrary c cs = .ok (t, rest))
    (hr : opens r ∨ closes (c :: cs)) :
    lexeme text c (cs ++ r) = .ok (t, rest ++ r) ∧ rest <:+ cs := by
  have hlt := ownChar_lt hc
  have hspace : text.isWhitespace c = asciiLibrary.isWhitespace c := hascii.isWhitespace c hlt
  by_cases hword : c.isAlpha ∨ c = '_'
  · obtain ⟨hblank, hdigit, hspecial⟩ : asciiLibrary.isWhitespace c = false ∧
        c.isDigit = false ∧ c ∉ "(),*.;=<>-/!'\"".toList := by
      rcases hword with hword | rfl
      · exact isAlpha_plain hword
      · decide
    have hword' : text.isAlphabetic c ∨ c = '_' := by rwa [hascii.isAlphabetic c hlt]
    have hin : inWord asciiLibrary c := by
      rcases hword with hword | rfl
      · have halnum : c.isAlphanum = true := by rw [Char.isAlphanum, hword, Bool.true_or]
        rw [inWord, show asciiLibrary.isAlphanumeric c = true from halnum, Bool.true_or]
      · decide
    rw [lexeme_word hblank hdigit hword hspecial] at h
    rw [lexeme_word (hspace.trans hblank) hdigit hword' hspecial,
      lexWord_own hascii hc hcs hin hr]
    obtain ⟨rfl, rfl⟩ := Prod.mk.inj (Except.ok.inj h)
    exact ⟨rfl, List.dropWhile_suffix _⟩
  · have hmem : c ∈ " (),*=<>!".toList := by
      rw [ownChar, Bool.or_eq_true] at hc
      have hchar : c ∈ "_ (),*=<>!".toList := by simpa using hc.resolve_left fun h => hword (.inl h)
      exact (List.mem_cons.mp hchar).resolve_left fun h => hword (.inr h)
    -- the next text does not make another operator of `<` or `>`
    have hstart : ∀ {x}, (∀ rest, cs = x :: rest → False) → c ∉ " (".toList →
        x = '=' ∨ x = '>' → ∀ rest, cs ++ r ≠ x :: rest := by
      intro x hne hcloses hx rest heq
      cases cs with
      | cons y cs => exact hne cs (by rw [(List.cons.inj heq).1])
      | nil =>
          obtain rfl : r = x :: rest := heq
          have hopens := hr.resolve_right (by simpa [closes] using hcloses)
          have hdelimiter := (isDelimiter hascii (c := x) (by simpa [opens] using hopens)).2.2
          rcases hx with rfl | rfl <;> exact hdelimiter (by decide)
    have hcases : c = ' ' ∨ c = '(' ∨ c = ')' ∨ c = ',' ∨ c = '*' ∨ c = '=' ∨ c = '<' ∨ c = '>' ∨
        c = '!' := by
      have hall : ∀ x ∈ " (),*=<>!".toList, x ∈ [' ', '(', ')', ',', '*', '=', '<', '>', '!'] := by
        exact Text.forall_of_all (by decide)
      simpa using hall c hmem
    by_cases hblank : c = ' '
    · subst hblank
      unfold lexeme at h ⊢
      rw [if_pos (by decide)] at h
      rw [if_pos (by rw [hspace]; decide)]
      obtain ⟨rfl, rfl⟩ := Prod.mk.inj (Except.ok.inj h)
      exact ⟨rfl, List.suffix_refl _⟩
    unfold lexeme at h ⊢
    rw [hspace]
    rcases hcases.resolve_left hblank with rfl | rfl | rfl | rfl | rfl | rfl | rfl | rfl
    all_goals rw [if_neg (by decide)] at h ⊢
    case inr.inr.inr.inr.inr.inl =>
      simp only at h ⊢
      split at h
      · obtain ⟨rfl, rfl⟩ := Prod.mk.inj (Except.ok.inj h)
        exact ⟨rfl, List.suffix_cons _ _⟩
      · obtain ⟨rfl, rfl⟩ := Prod.mk.inj (Except.ok.inj h)
        exact ⟨rfl, List.suffix_cons _ _⟩
      · next hne hne' =>
          obtain ⟨rfl, rfl⟩ := Prod.mk.inj (Except.ok.inj h)
          refine ⟨?_, List.suffix_refl _⟩
          split
          · next rest heq => exact absurd heq (hstart hne (by decide) (.inl rfl) rest)
          · next rest heq => exact absurd heq (hstart hne' (by decide) (.inr rfl) rest)
          · rfl
    case inr.inr.inr.inr.inr.inr.inl =>
      simp only at h ⊢
      split at h
      · obtain ⟨rfl, rfl⟩ := Prod.mk.inj (Except.ok.inj h)
        exact ⟨rfl, List.suffix_cons _ _⟩
      · next hne =>
          obtain ⟨rfl, rfl⟩ := Prod.mk.inj (Except.ok.inj h)
          refine ⟨?_, List.suffix_refl _⟩
          split
          · next rest heq => exact absurd heq (hstart hne (by decide) (.inl rfl) rest)
          · rfl
    case inr.inr.inr.inr.inr.inr.inr =>
      simp only at h ⊢
      split at h
      · obtain ⟨rfl, rfl⟩ := Prod.mk.inj (Except.ok.inj h)
        exact ⟨rfl, List.suffix_cons _ _⟩
      · cases h
    all_goals
      obtain ⟨rfl, rfl⟩ := Prod.mk.inj (Except.ok.inj h)
      exact ⟨rfl, List.suffix_refl _⟩

theorem lexes_own (hs : ∀ x ∈ s, ownChar x) (h : Lexes asciiLibrary s ts)
    (hr : opens r ∨ closes s) {ts' : List Token} (hrest : Lexes text r ts') :
    Lexes text (s ++ r) (ts ++ ts') := by
  induction h with
  | nil => exact hrest
  | @step c cs t rest ts hlexeme hlexes ih =>
      obtain ⟨hread, hsuffix⟩ := lexeme_own hascii (hs c List.mem_cons_self)
        (fun x hx => hs x (List.mem_cons_of_mem _ hx)) hlexeme hr
      have hown : ∀ x ∈ rest, ownChar x := fun x hx =>
        hs x (List.mem_cons_of_mem _ (hsuffix.subset hx))
      rw [List.append_assoc]
      refine Lexes.step hread ?_
      by_cases hrest' : rest = []
      · subst hrest'
        cases hlexes
        exact hrest
      · refine ih hown (hr.imp_right fun hcloses => ?_)
        obtain ⟨cs', rfl⟩ := hsuffix
        have hne : cs' ++ rest ≠ [] := List.append_ne_nil_of_right_ne_nil _ hrest'
        rwa [closes, List.getLast?_cons_of_ne_nil hne, List.getLast?_append_of_ne_nil _ hrest']
          at hcloses

/-- What is read of a text that starts with a program's own. -/
theorem lexes_own_inv {ts' : List Token} (hs : ∀ x ∈ s, ownChar x)
    (hr : opens r ∨ (s ≠ [] → closes s)) (h : Lexes asciiLibrary s ts)
    (hall : Lexes text (s ++ r) ts') : ∃ tr, ts' = ts ++ tr ∧ Lexes text r tr := by
  induction h generalizing ts' with
  | nil => exact ⟨ts', rfl, hall⟩
  | @step c cs t rest ts hlexeme hlexes ih =>
      obtain ⟨hread, hsuffix⟩ := lexeme_own (r := r) hascii (hs c List.mem_cons_self)
        (fun x hx => hs x (List.mem_cons_of_mem _ hx)) hlexeme
        (hr.imp_right fun hcloses => hcloses (by simp))
      have hown : ∀ x ∈ rest, ownChar x := fun x hx =>
        hs x (List.mem_cons_of_mem _ (hsuffix.subset hx))
      have hrest : opens r ∨ (rest ≠ [] → closes rest) := by
        refine hr.imp_right fun hcloses hne => ?_
        obtain ⟨cs', rfl⟩ := hsuffix
        have hends := hcloses (by simp)
        have hne' : cs' ++ rest ≠ [] := List.append_ne_nil_of_right_ne_nil _ hne
        rwa [closes, List.getLast?_cons_of_ne_nil hne', List.getLast?_append_of_ne_nil _ hne]
          at hends
      cases hall with
      | step hlexeme' hlexes' =>
          change lexeme text c (cs ++ r) = _ at hlexeme'
          rw [hread] at hlexeme'
          obtain ⟨rfl, rfl⟩ := Prod.mk.inj (Except.ok.inj hlexeme')
          obtain ⟨tr, rfl, htr⟩ := ih hown hrest hlexes'
          exact ⟨tr, (List.append_assoc ..).symm, htr⟩

theorem reads_own {s : String} (h : isOwn s) : Reads text s.toList (ownTokens s) := by
  obtain ⟨hown, hlexes⟩ := lexes_ownTokens h
  exact fun r ts' hr hrest => lexes_own hascii (List.all_eq_true.mp hown) hlexes (.inl hr) hrest

theorem solid_own {s : String} (h : isOwn s) (hcloses : closes s.toList) :
    Solid text s.toList (ownTokens s) := by
  obtain ⟨hown, hlexes⟩ := lexes_ownTokens h
  exact fun r ts' hrest => lexes_own hascii (List.all_eq_true.mp hown) hlexes (.inr hcloses) hrest

omit hascii in
/-- A text that separates: it opens, it closes and it is a program's own. -/
theorem isSeparator_iff {s : String} : isSeparator s ↔
    isOwn s ∧ opens s.toList ∧ closes s.toList := by
  rw [isSeparator, Bool.and_eq_true, Bool.and_eq_true, and_assoc]

theorem Reads.between {s : String} (ha : Reads text a ta) (hs : isSeparator s)
    (hb : Reads text b tb) :
    Reads text (a ++ s.toList ++ b) (ta ++ ownTokens s ++ tb) := by
  obtain ⟨hown, hopens, hcloses⟩ := isSeparator_iff.mp hs
  rw [List.append_assoc, List.append_assoc]
  refine ha.append ((solid_own hascii hown hcloses).append hb) ?_
  cases hlist : s.toList with
  | nil => rw [hlist] at hcloses; cases hcloses
  | cons c cs => rw [hlist] at hopens; exact hopens

theorem Reads.own_after {s : String} (ha : Reads text a ta) (hs : isOwn s)
    (hopens : opens s.toList) : Reads text (a ++ s.toList) (ta ++ ownTokens s) :=
  ha.append (reads_own hascii hs) hopens

theorem Reads.own_before {s : String} (hs : isOwn s) (hcloses : closes s.toList)
    (hb : Reads text b tb) : Reads text (s.toList ++ b) (ownTokens s ++ tb) :=
  (solid_own hascii hs hcloses).append hb

theorem reads_joinOwn {s : String} (hs : isSeparator s) {parts : List Chars}
    {tokens : List (List Token)} (h : List.Forall₂ (Reads text) parts tokens) :
    Reads text (Text.join s.toList parts) ((ownTokens s).intercalate tokens) := by
  obtain ⟨hown, hopens, hcloses⟩ := isSeparator_iff.mp hs
  refine reads_join (solid_own hascii hown hcloses) hopens ?_ h
  rintro hnil
  rw [hnil] at hcloses
  cases hcloses

/-! ## Tokens and names -/

theorem reads_token {t : Token} (h : ReadsAs text s (some t)) : Reads text s [t] := by
  intro r ts' hr hrest
  have hstop : readsOn text s r = false := by
    cases r with
    | nil => exact readsOn_nil s
    | cons c r =>
        obtain ⟨hword, hdigit, hother⟩ := isDelimiter hascii (c := c) (by simpa [opens] using hr)
        exact readsOn_head hascii h hword hdigit hother r
  obtain ⟨c, cs, rfl, hread⟩ := h
  have hread' := lexeme_append (r := []) (by rwa [List.append_nil]) hstop
  exact Lexes.step hread' hrest

omit hascii in
theorem lexes_blanks {blanks : Chars} (hblanks : ∀ c ∈ blanks, text.isWhitespace c)
    (h : Lexes text r ts) : Lexes text (blanks ++ r) ts := by
  induction blanks with
  | nil => exact h
  | cons c blanks ih =>
      have hread : lexeme text c (blanks ++ r) = .ok (none, blanks ++ r) := by
        unfold lexeme
        rw [if_pos (hblanks c List.mem_cons_self)]
      exact Lexes.step hread (ih fun d hd => hblanks d (List.mem_cons_of_mem _ hd))

omit hascii in
theorem readQuoted_more {quote : Char} {cs rest name : Chars}
    (h : readQuoted quote cs = some (name, rest)) (hr : r.head? ≠ some quote) :
    readQuoted quote (cs ++ r) = some (name, rest ++ r) := by
  induction cs using List.twoStepInduction generalizing name with
  | nil => cases h
  | singleton x =>
      by_cases hx : x = quote
      · subst hx
        obtain ⟨rfl, rfl⟩ : [] = name ∧ [] = rest := by simpa [readQuoted] using h
        rcases r with _ | ⟨y, r⟩
        · simp [readQuoted]
        · have hy : y ≠ x := by simpa using hr
          simp [readQuoted, hy]
      · simp [readQuoted, hx] at h
  | cons_cons x y cs ih ih' =>
      by_cases hx : x = quote
      · by_cases hy : y = quote
        · simp only [List.cons_append, readQuoted, if_pos hx, if_pos hy,
            Option.map_eq_some_iff] at h ⊢
          obtain ⟨⟨s', rest'⟩, hread, heq⟩ := h
          cases heq
          exact ⟨_, ih hread, rfl⟩
        · simp only [List.cons_append, readQuoted, if_pos hx, if_neg hy, Option.some.injEq,
            Prod.mk.injEq] at h ⊢
          obtain ⟨rfl, rfl⟩ := h
          exact ⟨rfl, rfl⟩
      · simp only [List.cons_append, readQuoted, if_neg hx, Option.map_eq_some_iff] at h ⊢
        obtain ⟨⟨s', rest'⟩, hread, heq⟩ := h
        cases heq
        exact ⟨_, ih' y hread, rfl⟩

/-- An identifier is the same one in front of more text. -/
theorem lexeme_identifier {c : Char} {cs rest : Chars} {name : String}
    (h : lexeme text c cs = .ok (some (.identifier name), rest)) (hr : opens r) :
    lexeme text c (cs ++ r) = .ok (some (.identifier name), rest ++ r) := by
  have hword := opens_not_inWord hascii hr
  have hquote : r.head? ≠ some '"' := by
    cases r with
    | nil => simp
    | cons d r =>
        rintro heq
        obtain rfl := Option.some.inj heq
        exact (isDelimiter hascii (c := '"') (by simpa [opens] using hr)).2.2 (by decide)
  unfold lexeme at h ⊢
  split at h
  · cases h
  · next hspace =>
      rw [if_neg hspace]
      split at h
      case h_8 => split at h <;> cases h
      case h_9 => split at h <;> cases h
      case h_10 =>
        unfold lexMinus at h
        split at h
        case h_4 =>
          simp only at h
          split at h
          · cases h
          · split at h <;> cases h
        all_goals cases h
      case h_11 =>
        unfold lexSlash at h
        split at h
        · split at h <;> cases h
        · cases h
      case h_12 => split at h <;> cases h
      case h_13 => split at h <;> cases h
      case h_14 =>
        split at h
        · next s' rest' hread =>
            cases h
            simp only [readQuoted_more hread hquote]
        · cases h
      case h_15 =>
        split at h
        · unfold lexNumber at h
          simp only at h
          split at h <;> split at h <;> cases h
        · next hdigit =>
            split at h
            · next hstart =>
                obtain ⟨htoken, hrest⟩ := Prod.mk.inj (Except.ok.inj h)
                obtain ⟨htake, hdrop⟩ := takeWhile_append_agree (s := cs) (r := r)
                  (p := inWord text) (q := inWord text) (fun _ _ => rfl) fun _ => hword
                rw [if_neg hdigit, if_pos hstart, ← htoken, ← hrest]
                exact congrArg Except.ok (Prod.ext (congrArg (fun s =>
                  some (keywordOrIdentifier text (String.ofList (c :: s)))) htake) hdrop)
            · cases h
      all_goals cases h

theorem reads_name {name : String} (h : identifierText text s = some name) :
    Reads text s [.identifier name] := by
  unfold identifierText at h
  split at h
  · cases h
  · next c cs hdrop =>
      split at h
      · next name' rest hlexeme =>
          split at h
          · next hblank =>
              cases h
              intro r ts' hr hrest
              have hs : s = s.takeWhile text.isWhitespace ++ c :: cs := by
                rw [← hdrop, List.takeWhile_append_dropWhile]
              rw [hs, List.append_assoc]
              refine lexes_blanks (fun x hx => List.mem_takeWhile_imp hx) ?_
              refine Lexes.step (lexeme_identifier hascii hlexeme hr) ?_
              exact lexes_blanks (List.all_eq_true.mp hblank) hrest
          · cases h
      · cases h

end Own

end ChocoBase.Sql
