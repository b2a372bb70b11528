import ChocoBase.Sql.InsertTexts

/-!
# Texts that write and read whole rows

The numbers of JSON documents among the values of a statement: with an exponent, a number
is broken off behind its digits.  An `INSERT` that returns its row, and a `SELECT` of all
columns.
-/

namespace ChocoBase.Sql

open ChocoBase.Foundation ChocoBase.Sql.Parser
open Text (Chars)

variable {text : TextLibrary} {d : Token → String} {s rest : Chars} {ts : List Token}

/-! ## Numbers -/

/-- The texts that a JSON library writes for numbers. -/
inductive JsonNumberText : Chars → Prop
  | decimal {s : Chars} (d : Decimal s) : JsonNumberText s
  | exponent {s : Chars} (d : Decimal s) (power : Chars) : JsonNumberText (s ++ 'e' :: power)

def isNumberLiteral : Expr → Bool
  | .intLiteral _ | .floatLiteral _ => true
  | _ => false

theorem isNumberLiteral_of_read {e : Expr} (h : numberLiteral text s = some e) : isNumberLiteral e := by
  unfold numberLiteral at h
  split at h
  · rw [← Option.some.inj h]
    rfl
  · split at h
    · obtain ⟨x, -, rfl⟩ := Option.map_eq_some_iff.mp h
      rfl
    · cases h

theorem breaks_keyword : ∀ p ∈ keywords, Breaks p.2 := by
  unfold Breaks
  decide

theorem breaks_word (word : String) : Breaks (keywordOrIdentifier text word) := by
  rw [keywordOrIdentifier]
  split
  · next token h =>
      obtain ⟨before, behind, heq, -⟩ := List.lookup_eq_some_iff.mp h
      exact breaks_keyword (_, token) (heq ▸ List.mem_append_right _ List.mem_cons_self)
  · exact ⟨by rintro ⟨⟩, by rintro ⟨⟩, rfl⟩

section Numbers

variable (hascii : text.LikeAscii)
include hascii

/-- A word breaks a value off. -/
theorem lexes_exponent (h : Lexes text ('e' :: rest) ts) : ∃ u more, Breaks u ∧ ts = u :: more := by
  have hlexeme : lexeme text 'e' rest = .ok (lexWord text 'e' rest) := by
    unfold lexeme
    rw [hascii.isWhitespace _ (by decide), if_neg (by decide)]
    change (if _ then _ else _) = _
    rw [if_neg (by decide), hascii.isAlphabetic _ (by decide), if_pos (.inl (by decide))]
  obtain ⟨tr, rfl, -⟩ := (lexes_cons_iff hlexeme).mp h
  exact ⟨_, tr, breaks_word _, rfl⟩

theorem broken_exponent (number : Decimal s) (power : Chars) : Broken text (s ++ 'e' :: power) := by
  obtain ⟨negative, ds, fs, hne, ⟨hds, hfs⟩, rfl⟩ := number
  have hdigit : ('e' : Char).isDigit = false := by decide
  have hdot : ('.' : Char).isDigit = false := by decide
  have hword : ∀ {t : Token} {e : Expr} {r : Chars} {ts : List Token}, literalOf t = some e →
      (∃ tr, ts = [t] ++ tr ∧ Lexes text ('e' :: r) tr) →
        ∃ t e u more, literalOf t = some e ∧ Breaks u ∧ ts = t :: u :: more := by
    rintro t e r _ ht ⟨tr, rfl, hrest⟩
    obtain ⟨u, more, hu, rfl⟩ := lexes_exponent hascii hrest
    exact ⟨t, e, u, more, ht, hu, rfl⟩
  obtain ⟨c, ds, rfl⟩ := List.exists_cons_of_ne_nil hne
  intro r ts _ hlexes
  by_cases hfraction : fs = []
  · subst hfraction
    rw [if_pos rfl, List.append_nil] at hlexes
    cases negative with
    | false =>
        have hread := lexeme_digits hascii (r := 'e' :: (power ++ r)) hds (by simp [hdigit]) (by simp)
        have heq : (if false then ['-'] else []) ++ c :: ds ++ 'e' :: power ++ r =
            c :: (ds ++ 'e' :: (power ++ r)) := by simp
        rw [heq] at hlexes
        cases hparse : parseI64 (c :: ds) with
        | none =>
            rw [hparse] at hread
            exact absurd hlexes (not_lexes_of_error hread)
        | some n =>
            rw [hparse] at hread
            exact hword (t := .intLiteral n) rfl ((lexes_cons_iff hread).mp hlexes)
    | true =>
        have hread := lexeme_minus hascii (r := 'e' :: (power ++ r)) hne hds (by simp [hdigit])
        have heq : (if true then ['-'] else []) ++ c :: ds ++ 'e' :: power ++ r =
            '-' :: (c :: ds ++ 'e' :: (power ++ r)) := by simp
        rw [heq] at hlexes
        cases hparse : parseI64 ('-' :: c :: ds) with
        | none =>
            rw [hparse] at hread
            exact absurd hlexes (not_lexes_of_error hread)
        | some n =>
            rw [hparse] at hread
            exact hword (t := .intLiteral n) rfl ((lexes_cons_iff hread).mp hlexes)
  · rw [if_neg hfraction] at hlexes
    cases negative with
    | false =>
        have hds' : ds.all Char.isDigit = true := (Bool.and_eq_true _ _ ▸ hds : _ ∧ _).2
        have hc : c.isDigit = true := (Bool.and_eq_true _ _ ▸ hds : _ ∧ _).1
        have hread : readNumber false (ds ++ '.' :: fs ++ 'e' :: (power ++ r)) =
            (ds ++ '.' :: fs, true, 'e' :: (power ++ r)) := by
          refine readNumber_append_stop (r := []) ?_ (by simp [hdigit]) (.inr (.inl (by simp)))
          rw [List.append_nil]
          exact readNumber_fraction hds' hfs hfraction
        have heq : (if false then ['-'] else []) ++ c :: ds ++ '.' :: fs ++ 'e' :: power ++ r =
            c :: (ds ++ '.' :: fs ++ 'e' :: (power ++ r)) := by simp
        rw [heq] at hlexes
        have hlex := lexeme_digit hascii hc (ds ++ '.' :: fs ++ 'e' :: (power ++ r))
        rw [lexNumber, hread] at hlex
        simp only [if_true] at hlex
        cases hparse : text.parseF64 (String.ofList (c :: (ds ++ '.' :: fs))) with
        | none =>
            rw [hparse] at hlex
            exact absurd hlexes (not_lexes_of_error hlex)
        | some x =>
            rw [hparse] at hlex
            exact hword (t := .floatLiteral x) rfl ((lexes_cons_iff hlex).mp hlexes)
    | true =>
        have hread := lexeme_minus hascii (r := '.' :: (fs ++ 'e' :: (power ++ r))) hne hds
          (by simp [hdot])
        have heq : (if true then ['-'] else []) ++ c :: ds ++ '.' :: fs ++ 'e' :: power ++ r =
            '-' :: (c :: ds ++ '.' :: (fs ++ 'e' :: (power ++ r))) := by simp
        rw [heq] at hlexes
        cases hparse : parseI64 ('-' :: c :: ds) with
        | none =>
            rw [hparse] at hread
            exact absurd hlexes (not_lexes_of_error hread)
        | some n =>
            rw [hparse] at hread
            obtain ⟨tr, rfl, hrest⟩ := (lexes_cons_iff hread).mp hlexes
            have hpoint : lexeme text '.' (fs ++ 'e' :: (power ++ r)) =
                .ok (some .dot, fs ++ 'e' :: (power ++ r)) := by
              unfold lexeme
              rw [hascii.isWhitespace _ (by decide), if_neg (by decide)]
              rfl
            obtain ⟨tr, rfl, -⟩ := (lexes_cons_iff hpoint).mp hrest
            exact ⟨.intLiteral n, _, .dot, tr, rfl, ⟨by rintro ⟨⟩, by rintro ⟨⟩, rfl⟩, rfl⟩

/-- The text of a number is a number, or the end of the statement. -/
theorem readsItem_number (h : JsonNumberText s) :
    ∃ e, ReadsItem text s e ∧ ∀ e' ∈ e, isNumberLiteral e' := by
  cases h with
  | decimal number =>
      exact ⟨_, (readsValue_number hascii (.decimal number)).item,
        fun e' he => isNumberLiteral_of_read he⟩
  | exponent number power => exact ⟨none, .broken (broken_exponent hascii number power), nofun⟩

end Numbers

/-! ## Statements -/

/-- In a statement the text is this name of a table, also at its end. -/
def ReadsTable (text : TextLibrary) (d : Token → String) (s : Chars) (name : String) : Prop :=
  ∃ ts, Exact text s ts ∧ Takes left (parseTableName d) ts name (· ≠ .dot)

variable {table : Chars} {name : String} {columns values : List Chars} {names : List String}

theorem ReadsTable.namesTable (h : ReadsTable text d table name) : NamesTable text d table name := by
  obtain ⟨ts, hexact, htakes⟩ := h
  exact ⟨ts, hexact, htakes.mono fun t ht => by rw [ht]; decide⟩

theorem NamesColumn.readsTable (h : NamesColumn text s name) : ReadsTable text d s name := by
  obtain ⟨t, hexact, ht⟩ := h
  have hrest : Takes left (alt (only .dot) (fun _ => do
      let sub ← expectIdentifier d
      return name ++ "." ++ sub) (return name)) [] name (· ≠ .dot) :=
    alt_miss (fun u hu => if_neg hu) (Takes.pure name)
  have hname : Takes left (expectIdentifier d) [t] name fun _ => True := take_takes ht
  exact ⟨[t], hexact, hname.bind hrest fun _ _ => trivial⟩

theorem starts_select : Starts d .select (parseSelect d) := fun _ _ _ _ => rfl

theorem parseColumns_star {w : Parse Expr} {R : Token → Prop} :
    Takes left (parseColumns d w) [.star] .all R :=
  alt_hit rfl (Takes.pure SelectColumns.all)

theorem parseReturningClause_star {w : Parse Expr} :
    Takes left (parseReturningClause d w) [.returning, .star] (some .all) (· = .eof) :=
  alt_hit rfl (parseColumns_star.map some)

theorem whileEat_miss {α β : Type} {f : Token → Option α} {body : α → Parse β} {R : Token → Prop}
    (hmiss : ∀ t, R t → f t = none) : Takes left (whileEat f body) [] [] R :=
  fun p t r hview ht => Takes.miss (takesNext f) hmiss (Takes.pure []) p t r hview ht

/-- Two parts that are both left out. -/
theorem skipped_bind {α β : Type} {x : Parse α} {f : α → Parse β} {a : α} {b : β}
    {R : Token → Prop} (hx : Takes left x [] a R) (hf : Takes left (f a) [] b R) :
    Takes left (x >>= f) [] b R :=
  hx.bind hf fun _ h => h

/-- A selection of all columns. -/
theorem parseSelect_takes {w : Parse Expr} (h : Takes left (parseTableName d) ts name (· ≠ .dot)) :
    Takes left (parseSelect d w) (.select :: .star :: .from :: ts)
      (.select .all name (some (.table name none)) none none none none none) (· = .eof) := by
  have hjoins : Takes left (whileEat joinOf (parseJoin d w)) [] [] (· = .eof) :=
    whileEat_miss fun t ht => by rw [ht]; rfl
  have hoption : ∀ keyword, keyword ≠ .eof →
      Takes left (optionalExpr w keyword) [] none (· = .eof) := fun keyword hne =>
    alt_miss (fun t ht => by rw [ht]; exact if_neg hne.symm) (Takes.pure none)
  have hgroup : Takes left (parseGroupBy d w) [] none (· = .eof) :=
    alt_miss (fun t ht => by rw [ht]; rfl) (Takes.pure none)
  have horder : Takes left (parseOrderBy d) [] none (· = .eof) :=
    alt_miss (fun t ht => by rw [ht]; rfl) (Takes.pure none)
  have hlimit : Takes left (parseLimit d) [] none (· = .eof) :=
    alt_miss (fun t ht => by rw [ht]; rfl) (Takes.pure none)
  have hend : ∀ t : Token, t = .eof → t ≠ .dot := by
    rintro _ rfl
    decide
  have hselect : Takes left (parseSelect d w) ([.select] ++ ([.star] ++ ([.from] ++ (ts ++ []))))
      (.select .all name (some (.table name none)) none none none none none) (· = .eof) := by
    refine (expect_takes (Q := fun _ => True) d .select).bind ?_ fun _ _ => trivial
    refine (parseColumns_star (R := fun _ => True)).bind ?_ fun _ _ => trivial
    refine (expect_takes (Q := fun _ => True) d .from).bind ?_ fun _ _ => trivial
    refine h.bind ?_ hend
    refine skipped_bind hjoins (skipped_bind (hoption .where (by decide)) ?_)
    refine skipped_bind hgroup (skipped_bind (hoption .having (by decide)) ?_)
    exact skipped_bind horder (hlimit.map _)
  simpa using hselect

section Statements

variable (hascii : text.LikeAscii)
include hascii

theorem parse_selectAll (h : ReadsTable text d table name) :
    parse text d (String.ofList ("SELECT * FROM ".toList ++ table)) =
      .ok (.select .all name (some (.table name none)) none none none none none) := by
  obtain ⟨ts, hexact, htakes⟩ := h
  have hfirm : Firm text "SELECT * FROM ".toList (ownTokens "SELECT * FROM ") :=
    firm_own hascii (by decide +kernel) (by decide)
  have hstart : ownTokens "SELECT * FROM " = [.select, .star, .from] := by decide +kernel
  rw [hstart] at hfirm
  exact parse_eq_of_takes starts_select ((hfirm.append hexact).lexes_iff.mpr rfl)
    fun w => parseSelect_takes htakes

/-- An `INSERT` that returns its row is the one that is meant, has a name for a value, or is none. -/
theorem parse_insertReturning (htable : ReadsTable text d table name) (hne : columns ≠ [])
    (hcolumns : List.Forall₂ (NamesColumn text) columns names) (hne' : values ≠ [])
    {es : List (Option Expr)} (hvalues : List.Forall₂ (ReadsItem text) values es) :
    (∃ row, List.Forall₂ ReadValue es row ∧
      parse text d (String.ofList (insertText table columns values ++ " RETURNING *".toList)) =
        .ok (.insert name (some names) [row] (some .all))) ∨
    none ∈ es ∧ ∀ stmt, parse text d
      (String.ofList (insertText table columns values ++ " RETURNING *".toList)) ≠ .ok stmt := by
  have htail : Exact text " RETURNING *".toList (ownTokens " RETURNING *") :=
    exact_own hascii (by decide +kernel)
  have hstar : ownTokens " RETURNING *" = [.returning, .star] := by decide +kernel
  rw [hstar] at htail
  exact parse_insertWith hascii htable.namesTable hne hcolumns hne' hvalues htail (by decide) (by decide)
    fun w => parseReturningClause_star

end Statements

end ChocoBase.Sql
