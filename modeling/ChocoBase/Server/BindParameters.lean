import ChocoBase.Server.Connections
import ChocoBase.Sql.Lexemes

/-!
# Parameters of a bound query

A template is a text of lexemes and placeholders.  Replacing the placeholders one
after another in the text is not replacing each of them by one literal; here is
when it is.
-/

namespace ChocoBase.Server.PostgresWire

open ChocoBase.Foundation ChocoBase.Sql
open Text (Chars)

inductive Piece where
  | param (i : Nat)
  | lexeme (chars : Chars) (token : Option Token)
  deriving DecidableEq

def Piece.source : Piece → Chars
  | .param i => placeholder i
  | .lexeme chars _ => chars

/-- The lexemes and placeholders of a text, in which a placeholder is a token of its own. -/
inductive Template (text : TextLibrary) : Chars → List Piece → Prop
  | nil : Template text [] []
  | param {i rest ps} (hdigit : rest.head?.any Char.isDigit = false)
      (hrest : Template text rest ps) : Template text (placeholder i ++ rest) (.param i :: ps)
  | lexeme {c cs t rest ps} (hlexeme : lexeme text c (cs ++ rest) = .ok (t, rest))
      (hrest : Template text rest ps) :
      Template text (c :: cs ++ rest) (.lexeme (c :: cs) t :: ps)

/-- Read a template, of at most `fuel` pieces. -/
def readTemplate (text : TextLibrary) : Nat → Chars → Option (List Piece)
  | _, [] => some []
  | 0, _ :: _ => none
  | fuel + 1, c :: rest =>
      let digits := rest.takeWhile Char.isDigit
      let i := digitsValue digits
      if placeholder i = c :: digits then
        (readTemplate text fuel (rest.dropWhile Char.isDigit)).map (.param i :: ·)
      else
        match lexeme text c rest with
        | .error _ => none
        | .ok (t, rest') =>
            let cs := rest.take (rest.length - rest'.length)
            if cs ++ rest' = rest then (readTemplate text fuel rest').map (.lexeme (c :: cs) t :: ·)
            else none

theorem template_of_read {text : TextLibrary} {fuel : Nat} {chars : Chars} {ps : List Piece}
    (h : readTemplate text fuel chars = some ps) : Template text chars ps := by
  induction fuel generalizing chars ps with
  | zero =>
      cases chars with
      | nil => cases h; exact .nil
      | cons c rest => cases h
  | succ fuel ih =>
      cases chars with
      | nil => cases h; exact .nil
      | cons c rest =>
          simp only [readTemplate] at h
          split at h
          · next hdigits =>
              obtain ⟨ps, hps, rfl⟩ := Option.map_eq_some_iff.mp h
              have hchars : c :: rest = placeholder (digitsValue (rest.takeWhile Char.isDigit)) ++
                  rest.dropWhile Char.isDigit := by
                rw [hdigits, List.cons_append, List.takeWhile_append_dropWhile]
              rw [hchars]
              refine .param ?_ (ih hps)
              have hnot := List.head?_dropWhile_not Char.isDigit rest
              cases hrest : (rest.dropWhile Char.isDigit).head? with
              | none => rfl
              | some d => simpa [hrest] using hnot
          · split at h
            · cases h
            · next t rest' hlexeme =>
                split at h
                · next hcs =>
                    obtain ⟨ps, hps, rfl⟩ := Option.map_eq_some_iff.mp h
                    rw [← hcs] at hlexeme
                    have htemplate := Template.lexeme hlexeme (ih hps)
                    rwa [List.cons_append, hcs] at htemplate
                · cases h

section Values

variable (host : Host) (values : List (Option String))

/-- The value of `$i`. -/
def valueOf (i : Nat) : Option String := values[i - 1]?.join

/-- The literal that denotes a value. -/
def literal : Option String → Token
  | none => .null
  | some s =>
      match parseI64 s.toList with
      | some n => .intLiteral n
      | none =>
          match host.text.parseF64 s with
          | some x => .floatLiteral x
          | none => .stringLiteral s

def Piece.token : Piece → Option Token
  | .param i => some (literal host (valueOf values i))
  | .lexeme _ token => token

def Piece.text : Piece → Chars
  | .param i => (paramText host (valueOf values i)).toList
  | .lexeme chars _ => chars

/-- The tokens that the bound query has to have. -/
def boundTokens (ps : List Piece) : List Token := (ps.map (Piece.token host values)).reduceOption

/-! ## When nothing is mixed up -/

/-- Among the values that are numbers: integers without a plus sign, or digits, a dot and digits. -/
def plainNumber : Option String → Bool
  | none => true
  | some s =>
      if (parseI64 s.toList).isSome then s.toList.head? ≠ some '+'
      else
        !(host.text.parseF64 s).isSome ||
          s.toList.head?.any Char.isDigit && readNumber false s.toList = (s.toList, true, [])

/--
`$1` stands at the start of `$10`, so there are at most nine; a value holds no later
placeholder, and a lexeme none at all.
-/
def Piece.Clean : Piece → Prop
  | .param i => i < 10 ∧ plainNumber host (valueOf values i) ∧
      ∀ j < values.length, i ≤ j →
        ¬placeholder (j + 1) <:+: (paramText host (valueOf values i)).toList
  | .lexeme chars _ => ∀ j < values.length, ¬placeholder (j + 1) <:+: chars

instance (p : Piece) : Decidable (p.Clean host values) := by
  cases p <;> unfold Piece.Clean <;> infer_instance

/-- No piece mixes up with the values, and none reads on into the next ones. -/
structure Safe (ps : List Piece) : Prop where
  clean : ∀ p ∈ ps, p.Clean host values
  apart : Separate host.text (ps.map (Piece.text host values))

/-- A template after the placeholders before `$k` are replaced. -/
def Piece.filled (k : Nat) : Piece → Chars
  | .param i => if i < k then (paramText host (valueOf values i)).toList else placeholder i
  | .lexeme chars _ => chars

end Values

/-! ## One literal for each value -/

section Literals

variable {host : Host} (hascii : host.text.LikeAscii)
include hascii

theorem readsAs_quotedText (s : String) :
    ReadsAs host.text (quoted s).toList (some (.stringLiteral s)) := by
  have hquoted : (quoted s).toList = '\'' :: ((s.toList.flatMap fun c =>
      if c = '\'' then ['\'', '\''] else [c]) ++ ['\'']) := by
    simp [quoted]
  rw [hquoted]
  simpa using readsAs_quoted hascii s.toList

theorem readsAs_paramText {value : Option String} (h : plainNumber host value) :
    ReadsAs host.text (paramText host value).toList (some (literal host value)) := by
  cases value with
  | none => exact readsAs_null hascii
  | some s =>
      simp only [plainNumber] at h
      simp only [paramText, literal]
      cases hint : parseI64 s.toList with
      | some n =>
          rw [hint] at h
          exact readsAs_int hascii hint (by simpa using h)
      | none =>
          rw [hint] at h
          cases hfloat : host.text.parseF64 s with
          | some x =>
              have hplain : s.toList.head?.any Char.isDigit ∧
                  readNumber false s.toList = (s.toList, true, []) := by
                simpa [hfloat] using h
              exact readsAs_float hascii (by rwa [String.ofList_toList]) hplain.1 hplain.2
          | none =>
              simp only [Option.isSome_none, Bool.or_self, Bool.false_eq_true, if_false]
              exact readsAs_quotedText hascii s

theorem closed_paramText {value : Option String} (h : plainNumber host value) :
    Closed (paramText host value).toList :=
  closed_of_readsAs hascii (readsAs_paramText hascii h)

end Literals

/-! ## Placeholders -/

theorem placeholder_ne_nil (i : Nat) : placeholder i ≠ [] := List.cons_ne_nil _ _

theorem placeholder_digits (i : Nat) : (toString i).toList.all Char.isDigit := by
  refine List.all_eq_true.mpr fun c hc => ?_
  have hdigits : c ∈ Nat.toDigits 10 i := by simpa using hc
  exact Nat.isDigit_of_mem_toDigits (by decide) (by decide) hdigits

/-- No placeholder starts in a text without any that does not end in the middle of one. -/
theorem no_start {i : Nat} {s r : Chars} (hs : ¬placeholder i <:+: s) (hclosed : r ≠ [] → Closed s)
    {s' : Chars} (hs' : s' <:+ s) (hne : s' ≠ []) : ¬placeholder i <+: s' ++ r := by
  intro hprefix
  by_cases hle : (placeholder i).length ≤ s'.length
  · have hin : placeholder i <+: s' :=
      List.prefix_of_prefix_length_le hprefix (List.prefix_append s' r) hle
    exact hs (hin.isInfix.trans hs'.isInfix)
  · have hr : r ≠ [] := by
      rintro rfl
      rw [List.append_nil] at hprefix
      exact hle hprefix.length_le
    have hin : s' <+: placeholder i :=
      List.prefix_of_prefix_length_le (List.prefix_append s' r) hprefix (by omega)
    obtain ⟨c, digits, rfl⟩ := List.exists_cons_of_ne_nil hne
    obtain ⟨rfl, hdigits⟩ := List.cons_prefix_cons.mp hin
    refine hclosed hr digits (List.all_eq_true.mpr fun d hd => ?_) hs'
    exact List.all_eq_true.mp (placeholder_digits i) d (hdigits.subset hd)

/-- Up to nine, no placeholder is the start of another. -/
theorem eq_of_placeholder {i j : Nat} (hi : i < 10) (hj : j < 10) {r : Chars}
    (h : placeholder i <+: placeholder j ++ r) : i = j := by
  have hlength : ∀ k < 10, (placeholder k).length = 2 := by decide
  have hinj : ∀ i < 10, ∀ j < 10, placeholder i = placeholder j → i = j := by decide
  have hin : placeholder i <+: placeholder j := List.prefix_of_prefix_length_le h
    (List.prefix_append _ _) (by rw [hlength i hi, hlength j hj])
  exact hinj i hi j hj (hin.eq_of_length (by rw [hlength i hi, hlength j hj]))

/-! ## One replacement after another -/

section Replacing

variable {host : Host} {values : List (Option String)} {ps : List Piece} {template : Chars}

theorem Template.source_eq (h : Template host.text template ps) :
    template = ps.flatMap Piece.source := by
  induction h with
  | nil => rfl
  | param _ _ ih => rw [List.flatMap_cons, ← ih]; rfl
  | lexeme _ _ ih => rw [List.flatMap_cons, ← ih]; rfl

theorem Template.nil_of_nil (h : Template host.text [] ps) : ps = [] := by
  generalize heq : ([] : Chars) = chars at h
  cases h with
  | nil => rfl
  | param => cases heq
  | lexeme => cases heq

theorem replace_step (hascii : host.text.LikeAscii) (h : Template host.text template ps)
    (hclean : ∀ p ∈ ps, p.Clean host values) {k : Nat} (hk : 0 < k) (hn : k ≤ values.length) :
    Text.replaceAll (placeholder k) (paramText host (valueOf values k)).toList
        (ps.flatMap (Piece.filled host values k)) =
      ps.flatMap (Piece.filled host values (k + 1)) := by
  obtain ⟨k, rfl⟩ : ∃ k', k = k' + 1 := ⟨k - 1, by omega⟩
  induction h with
  | nil => rfl
  | @param i rest ps hdigit hrest ih =>
      have ih := ih fun p hp => hclean p (List.mem_cons_of_mem _ hp)
      obtain ⟨hten, hplain, hlater⟩ := hclean _ List.mem_cons_self
      rw [List.flatMap_cons, List.flatMap_cons, ← ih]
      rcases lt_trichotomy i (k + 1) with hlt | rfl | hgt
      · -- the value stands there already
        simp only [Piece.filled, if_pos hlt, if_pos (Nat.lt_succ_of_lt hlt)]
        exact Text.replaceAll_append fun s' => no_start (hlater k (by omega) (by omega))
          fun _ => closed_paramText hascii hplain
      · simp only [Piece.filled, if_neg (lt_irrefl _), if_pos (Nat.lt_succ_self _)]
        exact Text.replaceAll_needle (placeholder_ne_nil _) _
      · simp only [Piece.filled, if_neg (show ¬i < k + 1 by omega),
          if_neg (show ¬i < k + 1 + 1 by omega)]
        refine Text.replaceAll_append fun s' hs' hne hprefix => ?_
        rcases List.suffix_cons_iff.mp hs' with rfl | hdigits
        · exact absurd (eq_of_placeholder (by omega) hten hprefix) (by omega)
        · obtain ⟨d, digits, rfl⟩ := List.exists_cons_of_ne_nil hne
          obtain ⟨rfl, -⟩ := List.cons_prefix_cons.mp hprefix
          have hdollar := List.all_eq_true.mp (placeholder_digits i) '$'
            (hdigits.subset List.mem_cons_self)
          exact absurd hdollar (by decide)
  | @lexeme c cs t rest ps hlexeme hrest ih =>
      have ih := ih fun p hp => hclean p (List.mem_cons_of_mem _ hp)
      have hnone := hclean _ List.mem_cons_self
      rw [List.flatMap_cons, List.flatMap_cons, ← ih]
      refine Text.replaceAll_append fun s' => no_start (hnone k (by omega)) fun hr => ?_
      refine lexeme_closed hascii hlexeme ?_
      rintro rfl
      obtain rfl := hrest.nil_of_nil
      exact hr rfl

/-- The replacements one after another come to all of them at once. -/
theorem substitute_eq (hascii : host.text.LikeAscii) (h : Template host.text template ps)
    (hclean : ∀ p ∈ ps, p.Clean host values)
    (hrange : ∀ i, .param i ∈ ps → 0 < i ∧ i ≤ values.length) :
    substitute host 1 (values.map some) template = (ps.map (Piece.text host values)).flatten := by
  have hfilled : ∀ vs k, values.drop k = vs →
      substitute host (k + 1) (vs.map some) (ps.flatMap (Piece.filled host values (k + 1))) =
        ps.flatMap (Piece.filled host values (k + vs.length + 1)) := by
    intro vs
    induction vs with
    | nil => exact fun k _ => rfl
    | cons v vs ih =>
        intro k hvs
        have hk : values[k]? = some v := by rw [← List.head?_drop, hvs, List.head?_cons]
        have hlt : k < values.length := (List.getElem?_eq_some_iff.mp hk).1
        have hv : valueOf values (k + 1) = v := by simp [valueOf, hk]
        have hrest : values.drop (k + 1) = vs := by rw [← List.tail_drop, hvs, List.tail_cons]
        have hstep := replace_step hascii h hclean (Nat.succ_pos k) hlt
        rw [hv] at hstep
        rw [List.map_cons, substitute]
        simp only [hstep]
        rw [ih _ hrest]
        rw [show k + 1 + vs.length + 1 = k + (v :: vs).length + 1 by rw [List.length_cons]; omega]
  have hsource : template = ps.flatMap (Piece.filled host values 1) := by
    rw [h.source_eq]
    refine List.flatMap_congr fun p hp => ?_
    cases p with
    | param i => exact (if_neg (by have := (hrange i hp).1; omega)).symm
    | lexeme => rfl
  have htext : ps.flatMap (Piece.filled host values (values.length + 1)) =
      (ps.map (Piece.text host values)).flatten := by
    rw [← List.flatMap_def]
    refine List.flatMap_congr fun p hp => ?_
    cases p with
    | param i => exact if_pos (Nat.lt_succ_of_le (hrange i hp).2)
    | lexeme => rfl
  rw [hsource, hfilled values 0 (List.drop_zero), Nat.zero_add, htext]

theorem Template.readsAs (hascii : host.text.LikeAscii) (h : Template host.text template ps)
    (hclean : ∀ p ∈ ps, p.Clean host values) :
    ∀ p ∈ ps, ReadsAs host.text (p.text host values) (p.token host values) := by
  induction h with
  | nil => simp
  | param _ _ ih =>
      rintro p (_ | ⟨_, hp⟩)
      · exact readsAs_paramText hascii (hclean _ List.mem_cons_self).2.1
      · exact ih (fun p hp => hclean p (List.mem_cons_of_mem _ hp)) p hp
  | lexeme hlexeme _ ih =>
      rintro p (_ | ⟨_, hp⟩)
      · exact readsAs_of_lexeme hlexeme
      · exact ih (fun p hp => hclean p (List.mem_cons_of_mem _ hp)) p hp

/--
Every parameter becomes one literal for its value, and no other token changes, as
long as nothing is mixed up.
-/
theorem tokenize_substitute (hascii : host.text.LikeAscii) (h : Template host.text template ps)
    (hrange : ∀ i, .param i ∈ ps → 0 < i ∧ i ≤ values.length) (hsafe : Safe host values ps) :
    ∃ tokens, tokenize host.text (String.ofList (substitute host 1 (values.map some) template)) =
      .ok tokens ∧ tokens.map SpannedToken.token = boundTokens host values ps ++ [.eof] := by
  refine tokenize_eq_ok_iff.mpr ?_
  rw [String.toList_ofList, substitute_eq hascii h hsafe.clean hrange]
  refine lexes_flatten ?_ hsafe.apart
  rw [List.forall₂_map_left_iff, List.forall₂_map_right_iff, List.forall₂_same]
  exact h.readsAs hascii hsafe.clean

end Replacing

/-! ## Bound queries -/

open Running (plainHost)

/-- `VALUES($1,$2)` with a text that has a quote in it and with `NULL`. -/
theorem tokenize_substitute_values : ∃ ps tokens,
    readTemplate plainHost.text 7 "VALUES($1,$2)".toList = some ps ∧
      tokenize plainHost.text (String.ofList (substitute plainHost 1 ([some "it's", none].map some)
        "VALUES($1,$2)".toList)) = .ok tokens ∧
          tokens.map SpannedToken.token =
            boundTokens plainHost [some "it's", none] ps ++ [.eof] := by
  have hread : readTemplate plainHost.text 7 "VALUES($1,$2)".toList =
      some [.lexeme "VALUES".toList (some .values), .lexeme ['('] (some .lParen), .param 1,
        .lexeme [','] (some .comma), .param 2, .lexeme [')'] (some .rParen)] := by decide +kernel
  obtain ⟨tokens, htokens⟩ := @tokenize_substitute plainHost [some "it's", none] _ _
    asciiLibrary_likeAscii (template_of_read hread) (by simp)
    ⟨by decide, by decide⟩
  exact ⟨_, tokens, hread, htokens⟩

-- The first value is written into `$10`, which happens to come to the tenth one.
example : substitute plainHost 1 (("5" :: List.replicate 8 "0" ++ ["50"]).map (some ∘ some))
    "$10".toList = "50".toList := by decide

/--
The first value is the text `$2`, in which the second one is written: the second one is
read as a condition.
-/
theorem second_value_is_read : ∃ ps, Template plainHost.text "a=$1 OR b=$2".toList ps ∧
    (∀ i, .param i ∈ ps → 0 < i ∧ i ≤ 2) ∧
      ¬∃ tokens, tokenize plainHost.text (String.ofList (substitute plainHost 1
        ([some "$2", some " OR TRUE OR a="].map some) "a=$1 OR b=$2".toList)) = .ok tokens ∧
          tokens.map SpannedToken.token =
            boundTokens plainHost [some "$2", some " OR TRUE OR a="] ps ++ [.eof] := by
  have hread : readTemplate plainHost.text 12 "a=$1 OR b=$2".toList =
      some [.lexeme ['a'] (some (.identifier "a")), .lexeme ['='] (some .eq), .param 1,
        .lexeme [' '] none, .lexeme "OR".toList (some .or), .lexeme [' '] none,
        .lexeme ['b'] (some (.identifier "b")), .lexeme ['='] (some .eq), .param 2] := by
    decide +kernel
  refine ⟨_, template_of_read hread, by simp, ?_⟩
  rintro ⟨tokens, htokens, hmap⟩
  have hlong : ((tokenize plainHost.text (String.ofList (substitute plainHost 1
      ([some "$2", some " OR TRUE OR a="].map some) "a=$1 OR b=$2".toList))).bind
        fun tokens => .ok tokens.length) = .ok 14 := by decide
  rw [htokens] at hlong
  have hlength := congrArg List.length hmap
  rw [List.length_map, Outcome.ok.inj hlong] at hlength
  exact absurd hlength (by decide)

end ChocoBase.Server.PostgresWire
