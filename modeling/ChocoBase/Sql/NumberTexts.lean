import ChocoBase.Sql.ExactTexts
import ChocoBase.Sql.Parser

/-!
# Printed numbers in statements

A number as `f64::to_string` writes it is one literal of the language only if it is an
integer of 64 bits or has no sign before a fraction.
-/

namespace ChocoBase.Sql

open ChocoBase.Foundation
open Text (Chars)

/-- Digits, perhaps with a sign before them and a fraction behind. -/
structure Decimal (s : Chars) where
  negative : Bool
  whole : Chars
  fraction : Chars
  whole_ne_nil : whole ≠ []
  digits : whole.all Char.isDigit ∧ fraction.all Char.isDigit
  eq : s = (if negative then ['-'] else []) ++ whole ++
    if fraction = [] then [] else '.' :: fraction

/-- The texts that `f64::to_string` writes. -/
inductive NumberText : Chars → Prop
  | nan : NumberText "NaN".toList
  | inf : NumberText "inf".toList
  | minusInf : NumberText "-inf".toList
  | decimal {s : Chars} (d : Decimal s) : NumberText s

/-- Integers are printed without a fraction. -/
theorem numberText_int (i : Int) : NumberText (toString i).toList := by
  have hdigits : ∀ n : Nat, (Nat.toDigits 10 n).all Char.isDigit = true := fun n =>
    List.all_eq_true.mpr fun c hc => Nat.isDigit_of_mem_toDigits (by decide) (by decide) hc
  rw [Int.toString_eq_repr, Int.repr_eq_if]
  split
  · refine .decimal ⟨false, Nat.toDigits 10 i.toNat, [], Nat.toDigits_ne_nil,
      ⟨hdigits _, rfl⟩, ?_⟩
    simp
  · refine .decimal ⟨true, Nat.toDigits 10 (-i).toNat, [], Nat.toDigits_ne_nil,
      ⟨hdigits _, rfl⟩, ?_⟩
    simp

theorem NumberText.mem {s : Chars} (h : NumberText s) :
    s ≠ [] ∧ ∀ c ∈ s, c.isDigit ∨ c ∈ "-.Nainf".toList := by
  cases h with
  | nan => exact ⟨by decide, Text.forall_mem_of_all (by decide)⟩
  | inf => exact ⟨by decide, Text.forall_mem_of_all (by decide)⟩
  | minusInf => exact ⟨by decide, Text.forall_mem_of_all (by decide)⟩
  | decimal d =>
      obtain ⟨hwhole, hfraction⟩ := d.digits
      rw [List.all_eq_true] at hwhole hfraction
      refine ⟨by rw [d.eq]; simp [d.whole_ne_nil], fun c hc => ?_⟩
      rw [d.eq, List.mem_append, List.mem_append] at hc
      rcases hc with (hc | hc) | hc
      · split at hc
        · exact .inr (by simp_all)
        · cases hc
      · exact .inl (hwhole c hc)
      · split at hc
        · cases hc
        · rcases List.mem_cons.mp hc with rfl | hc
          · exact .inr (by decide)
          · exact .inl (hfraction c hc)

/-- The literal that the text of a number is. -/
def numberLiteral (text : TextLibrary) (s : Chars) : Option Expr :=
  match parseI64 s with
  | some n => some (.intLiteral n)
  | none =>
      if s.head?.any Char.isDigit && s.contains '.' then
        (text.parseF64 (String.ofList s)).map .floatLiteral
      else none

/-- What a text among others is to the parser: a literal, a name, a number in parts, or nothing. -/
inductive ReadsValue (text : TextLibrary) (s : Chars) : Option Expr → Prop
  | literal {t : Token} {e : Expr} (h : Exact text s [t]) (ht : Parser.literalOf t = some e) :
      ReadsValue text s (some e)
  | name {name : String} (h : Exact text s [.identifier name]) : ReadsValue text s none
  | parts {a b : Int64} (h : Exact text s [.intLiteral a, .dot, .intLiteral b]) :
      ReadsValue text s none
  | unread (h : Unread text s) : ReadsValue text s none

section Numbers

variable {text : TextLibrary} {s r ds fs : Chars} {c : Char}

theorem parseI64_eq_none_of_mem (hc : c ∈ s.tail) (hdigit : c.isDigit = false) :
    parseI64 s = none := by
  have hany : ∀ digits : Chars, c ∈ digits → digits.any (fun c => !c.isDigit) = true :=
    fun digits hmem => List.any_eq_true.mpr ⟨c, hmem, by simp [hdigit]⟩
  unfold parseI64
  split
  next negative digits heq =>
    have hmem : c ∈ digits := by
      split at heq
      · obtain rfl := (Prod.mk.inj heq).2
        exact hc
      · obtain rfl := (Prod.mk.inj heq).2
        exact hc
      · obtain rfl := (Prod.mk.inj heq).2
        exact List.mem_of_mem_tail hc
    rw [if_pos (.inr (hany digits hmem))]

theorem readNumber_fraction (hds : ds.all Char.isDigit) (hfs : fs.all Char.isDigit)
    (hne : fs ≠ []) : readNumber false (ds ++ '.' :: fs) = (ds ++ '.' :: fs, true, []) := by
  induction ds with
  | nil =>
      obtain ⟨d, fs', rfl⟩ := List.exists_cons_of_ne_nil hne
      have hd : d.isDigit = true := (Bool.and_eq_true _ _ ▸ hfs : _ ∧ _).1
      have hdot : ('.' : Char).isDigit = false := by decide
      rw [List.nil_append, readNumber, if_neg (by simp [hdot]), if_pos (by simp [hd]),
        readNumber_digits hfs]
  | cons d ds ih =>
      rw [List.all_cons, Bool.and_eq_true] at hds
      rw [List.cons_append, readNumber, if_pos hds.1, ih hds.2]

section Ascii

variable (hascii : text.LikeAscii)
include hascii

theorem opens_stops (hr : opens r) :
    r.head?.any Char.isDigit = false ∧ r.head? ≠ some '.' := by
  cases r with
  | nil => simp
  | cons c r =>
      obtain ⟨-, hdigit, hother⟩ := isDelimiter hascii (c := c) (by simpa [opens] using hr)
      exact ⟨hdigit, fun heq => hother (by simp [Option.some.inj heq])⟩

/-- Digits in front of what is no part of a number. -/
theorem lexeme_digits (hds : (c :: ds).all Char.isDigit) (hdigit : r.head?.any Char.isDigit = false)
    (hdot : r.head? ≠ some '.') : lexeme text c (ds ++ r) =
      match parseI64 (c :: ds) with
      | some n => .ok (some (.intLiteral n), r)
      | none => .error "invalid integer literal" := by
  rw [List.all_cons, Bool.and_eq_true] at hds
  have hread : readNumber false (ds ++ r) = (ds, false, r) := by
    refine readNumber_append_stop (r := []) ?_ hdigit (.inr (.inr (.inl hdot)))
    rw [List.append_nil]
    exact readNumber_digits hds.2 false
  rw [lexeme_digit hascii hds.1, lexNumber, hread]
  rfl

/-- A minus and digits. -/
theorem lexeme_minus (hne : ds ≠ []) (hds : ds.all Char.isDigit)
    (hdigit : r.head?.any Char.isDigit = false) : lexeme text '-' (ds ++ r) =
      match parseI64 ('-' :: ds) with
      | some n => .ok (some (.intLiteral n), r)
      | none => .error "integer literal overflow" := by
  have htake : (ds ++ r).takeWhile Char.isDigit = ds ∧ (ds ++ r).dropWhile Char.isDigit = r := by
    have hall := List.all_eq_true.mp hds
    refine ⟨List.takeWhile_append_of_pos hall |>.trans ?_,
      List.dropWhile_append_of_pos hall |>.trans ?_⟩
    · cases r with
      | nil => simp
      | cons c r => rw [List.takeWhile_cons_of_neg (by simpa using hdigit), List.append_nil]
    · cases r with
      | nil => rfl
      | cons c r => rw [List.dropWhile_cons_of_neg (by simpa using hdigit)]
  obtain ⟨d, ds, rfl⟩ := List.exists_cons_of_ne_nil hne
  have hd : d.isDigit = true := (Bool.and_eq_true _ _ ▸ hds : _ ∧ _).1
  have hminus : d ≠ '-' := by rintro rfl; exact absurd hd (by decide)
  have hgreater : d ≠ '>' := by rintro rfl; exact absurd hd (by decide)
  unfold lexeme
  rw [hascii.isWhitespace _ (by decide), if_neg (by decide)]
  show lexMinus (d :: (ds ++ r)) = _
  rw [lexMinus.eq_4]
  · rw [List.cons_append] at htake
    rw [htake.1, htake.2]
    exact if_neg hne
  all_goals simp [hminus, hgreater]

theorem readsValue_whole {negative : Bool} (hne : ds ≠ []) (hds : ds.all Char.isDigit) :
    ReadsValue text ((if negative then ['-'] else []) ++ ds)
      ((parseI64 ((if negative then ['-'] else []) ++ ds)).map .intLiteral) := by
  obtain ⟨d, ds, rfl⟩ := List.exists_cons_of_ne_nil hne
  have hd : d.isDigit = true := (Bool.and_eq_true _ _ ▸ hds : _ ∧ _).1
  cases hparse : parseI64 ((if negative then ['-'] else []) ++ d :: ds) with
  | some n =>
      refine .literal (exact_token hascii (readsAs_int hascii hparse ?_)) rfl
      have hplus : d ≠ '+' := by rintro rfl; exact absurd hd (by decide)
      cases negative <;> simp [hplus]
  | none =>
      refine .unread fun r ts hr => ?_
      obtain ⟨hdigit, hdot⟩ := opens_stops hascii hr
      cases negative with
      | false =>
          have hread := lexeme_digits hascii hds hdigit hdot
          rw [show parseI64 (d :: ds) = none from hparse] at hread
          exact not_lexes_of_error hread
      | true =>
          have hread := lexeme_minus hascii hne hds hdigit
          rw [show parseI64 ('-' :: d :: ds) = none from hparse] at hread
          exact not_lexes_of_error hread

theorem readsValue_fraction (hds : (c :: ds).all Char.isDigit) (hfs : fs.all Char.isDigit)
    (hne : fs ≠ []) : ReadsValue text (c :: ds ++ '.' :: fs)
      ((text.parseF64 (String.ofList (c :: ds ++ '.' :: fs))).map .floatLiteral) := by
  have hc : c.isDigit = true := (Bool.and_eq_true _ _ ▸ hds : _ ∧ _).1
  have hds' : ds.all Char.isDigit = true := (Bool.and_eq_true _ _ ▸ hds : _ ∧ _).2
  cases hparse : text.parseF64 (String.ofList (c :: ds ++ '.' :: fs)) with
  | some x =>
      exact .literal (exact_token hascii (readsAs_float hascii hparse (by simpa using hc)
        (readNumber_fraction hds hfs hne))) rfl
  | none =>
      refine .unread fun r ts hr => ?_
      obtain ⟨hdigit, hdot⟩ := opens_stops hascii hr
      have hread : readNumber false (ds ++ '.' :: fs ++ r) = (ds ++ '.' :: fs, true, r) := by
        refine readNumber_append_stop (r := []) ?_ hdigit (.inr (.inl (by simp)))
        rw [List.append_nil]
        exact readNumber_fraction hds' hfs hne
      have hlex : lexeme text c (ds ++ '.' :: fs ++ r) = .error "invalid float literal" := by
        rw [lexeme_digit hascii hc, lexNumber, hread]
        simp only [if_true]
        rw [show c :: (ds ++ '.' :: fs) = c :: ds ++ '.' :: fs from rfl, hparse]
      exact not_lexes_of_error hlex

/-- A sign before a fraction makes a number in parts. -/
theorem readsValue_minusFraction (hne : ds ≠ []) (hds : ds.all Char.isDigit)
    (hfs : fs.all Char.isDigit) (hne' : fs ≠ []) :
    ReadsValue text ('-' :: (ds ++ '.' :: fs)) none := by
  obtain ⟨d, fs, rfl⟩ := List.exists_cons_of_ne_nil hne'
  have hdot : ('.' : Char).isDigit = false := by decide
  have hminus := fun r => lexeme_minus hascii (r := '.' :: d :: (fs ++ r)) hne hds (by simp [hdot])
  have hpoint : ∀ r, lexeme text '.' (d :: (fs ++ r)) = .ok (some .dot, d :: (fs ++ r)) := by
    intro r
    unfold lexeme
    rw [hascii.isWhitespace _ (by decide), if_neg (by decide)]
    rfl
  have hall : ∀ r, '-' :: (ds ++ '.' :: d :: fs) ++ r = '-' :: (ds ++ '.' :: d :: (fs ++ r)) :=
    fun r => by simp
  cases hwhole : parseI64 ('-' :: ds) with
  | none =>
      refine .unread fun r ts _ => ?_
      rw [hall]
      have hread := hminus r
      rw [hwhole] at hread
      exact not_lexes_of_error hread
  | some a =>
      have hfirst := fun r ts => @lexes_cons_iff _ _ _ _ ts _ ((hminus r).trans (by rw [hwhole]))
      have hsecond := fun r ts => @lexes_cons_iff _ _ _ _ ts _ (hpoint r)
      cases hpart : parseI64 (d :: fs) with
      | none =>
          refine .unread fun r ts hr hlexes => ?_
          obtain ⟨hdigit, hstop⟩ := opens_stops hascii hr
          have hread := lexeme_digits hascii hfs hdigit hstop
          rw [hpart] at hread
          rw [hall] at hlexes
          obtain ⟨_, -, hrest⟩ := (hfirst r ts).mp hlexes
          obtain ⟨_, -, hrest⟩ := (hsecond r _).mp hrest
          exact not_lexes_of_error hread hrest
      | some b =>
          refine .parts (a := a) (b := b) fun r ts hr => ?_
          obtain ⟨hdigit, hstop⟩ := opens_stops hascii hr
          have hread := lexeme_digits hascii hfs hdigit hstop
          rw [hpart] at hread
          rw [hall, hfirst]
          simp only [hsecond, lexes_cons_iff hread]
          constructor
          · rintro ⟨_, rfl, _, rfl, tr, rfl, hrest⟩
            exact ⟨tr, rfl, hrest⟩
          · rintro ⟨tr, rfl, hrest⟩
            exact ⟨_, rfl, _, rfl, tr, rfl, hrest⟩

/-- The text of a number is the literal that it is taken for, or the statement is none. -/
theorem readsValue_number (h : NumberText s) : ReadsValue text s (numberLiteral text s) := by
  have hword : ∀ name : String, isOwn name → ownTokens name = [.identifier name] →
      numberLiteral text name.toList = none →
      ReadsValue text name.toList (numberLiteral text name.toList) := by
    intro name hown htokens hnone
    rw [hnone]
    exact .name (htokens ▸ exact_own hascii hown)
  cases h with
  | nan => exact hword "NaN" (by decide +kernel) (by decide +kernel) rfl
  | inf => exact hword "inf" (by decide +kernel) (by decide +kernel) rfl
  | minusInf =>
      rw [show numberLiteral text "-inf".toList = none from rfl]
      refine .unread fun r ts _ => ?_
      have hread : lexeme text '-' ('i' :: 'n' :: 'f' :: r) = .error "unexpected '-'" := by
        unfold lexeme
        rw [hascii.isWhitespace _ (by decide), if_neg (by decide)]
        rfl
      exact not_lexes_of_error hread
  | decimal d =>
      obtain ⟨negative, ds, fs, hne, ⟨hds, hfs⟩, rfl⟩ := d
      by_cases hfraction : fs = []
      · subst hfraction
        have hread := @readsValue_whole _ _ hascii negative hne hds
        rw [if_pos rfl, List.append_nil, numberLiteral]
        cases hparse : parseI64 ((if negative then ['-'] else []) ++ ds) with
        | some n => rwa [hparse] at hread
        | none =>
            have hdot : '.' ∉ ds := fun hmem =>
              absurd (List.all_eq_true.mp hds '.' hmem) (by decide)
            have hcontains : ((if negative then ['-'] else []) ++ ds).contains '.' = false := by
              cases negative <;> simp [hdot]
            rw [hparse, Option.map_none] at hread
            simpa only [hcontains, Bool.and_false, Bool.false_eq_true, if_false] using hread
      · obtain ⟨c, ds, rfl⟩ := List.exists_cons_of_ne_nil hne
        have hc : c.isDigit = true := (Bool.and_eq_true _ _ ▸ hds : _ ∧ _).1
        rw [if_neg hfraction, numberLiteral, parseI64_eq_none_of_mem (c := '.')]
        · cases negative with
          | false => simpa [hc] using readsValue_fraction hascii hds hfs hfraction
          | true =>
              have hminus : ('-' : Char).isDigit = false := by decide
              simpa [hminus] using readsValue_minusFraction hascii hne hds hfs hfraction
        · cases negative <;> simp
        · decide

end Ascii

end Numbers

end ChocoBase.Sql
