import ChocoBase.Engine.Runs
import ChocoBase.Foundation.Yields
import ChocoBase.Sql.Parser

/-!
# What a parsed statement asks for

The parser builds a subquery from `SELECT` alone.
-/

namespace ChocoBase.Engine

open ChocoBase.Foundation ChocoBase.Sql ChocoBase.Sql.Parser
open Exec (Yields yields_pure yields_throw yields_halt yields_seq)

/-! ## The parser's steps -/

section Steps

variable {α β : Type} {P : β → Prop}

theorem yields_fail (message : Token → String) : Yields P (fail message) := fun _ _ _ heq => by
  cases heq

theorem yields_alt {f : Token → Option α} {q : α → Parse β} {p : Parse β}
    (hq : ∀ t a, f t = some a → Yields P (q a)) (hp : Yields P p) : Yields P (alt f q p) := by
  refine Yields.bind (P := fun found => ∀ a ∈ found, ∃ t, f t = some a) ?_ fun found hfound => ?_
  · intro s found s' heq a ha
    simp only [eat] at heq
    split at heq
    · next a' hmatch =>
        cases heq
        exact ⟨_, hmatch.trans ha⟩
    · cases heq
      cases ha
  · cases found with
    | none => exact hp
    | some a =>
        obtain ⟨t, ht⟩ := hfound a rfl
        exact hq t a ht

theorem yields_whenNext {f : Token → Option α} {p q : Parse β} (hp : Yields P p)
    (hq : Yields P q) : Yields P (whenNext f p q) := by
  refine yields_seq fun b => ?_
  cases b with
  | true => exact hp
  | false => exact hq

theorem yields_whileEat {f : Token → Option α} {body : α → Parse β}
    (hbody : ∀ a, Yields P (body a)) : Yields (fun bs => ∀ b ∈ bs, P b) (whileEat f body) :=
  fun s => Yields.whileSome hbody _ s

theorem yields_commaList {item : Parse β} (hitem : Yields P item) :
    Yields (fun bs => ∀ b ∈ bs, P b) (commaList item) := by
  refine hitem.bind fun first hfirst => (yields_whileEat fun _ => hitem).bind fun rest hrest =>
    yields_pure ?_
  rintro b (_ | ⟨_, hmem⟩)
  · exact hfirst
  · exact hrest b hmem

end Steps

/-! ## Expressions -/

/-- The expression asks for nothing but queries. -/
def Asks (e : Expr) : Prop := ∀ stmt ∈ subqueries e, Query stmt

theorem asks_binaryOp {op : BinOp} {left right : Expr} (hleft : Asks left) (hright : Asks right) :
    Asks (.binaryOp op left right) := by
  intro stmt hstmt
  rw [subqueries] at hstmt
  exact (List.mem_append.mp hstmt).elim (hleft stmt) (hright stmt)

theorem asks_vectorDistance {metric : VectorMetric} {left right : Expr} (hleft : Asks left)
    (hright : Asks right) : Asks (.vectorDistance metric left right) := by
  intro stmt hstmt
  rw [subqueries] at hstmt
  exact (List.mem_append.mp hstmt).elim (hleft stmt) (hright stmt)

theorem asks_inList {e : Expr} {list : List Expr} {negated : Bool} (he : Asks e)
    (hlist : ∀ item ∈ list, Asks item) : Asks (.inList e list negated) := by
  intro stmt hstmt
  rw [subqueries] at hstmt
  refine (List.mem_append.mp hstmt).elim (he stmt) ?_
  clear hstmt
  induction list with
  | nil => simp [subqueriesInList]
  | cons item list ih =>
      intro hmem
      rw [subqueriesInList] at hmem
      exact (List.mem_append.mp hmem).elim (hlist item List.mem_cons_self stmt)
        (ih fun item hitem => hlist item (List.mem_cons_of_mem _ hitem))

theorem asks_inSubquery {e : Expr} {query : Statement} {negated : Bool} (he : Asks e)
    (hquery : Query query) : Asks (.inSubquery e query negated) := by
  intro stmt hstmt
  rw [subqueries] at hstmt
  obtain hmem | hmem := List.mem_append.mp hstmt
  · exact he stmt hmem
  · obtain rfl := List.mem_singleton.mp hmem
    exact hquery

theorem asks_exists {query : Statement} {negated : Bool} (hquery : Query query) :
    Asks (.exists query negated) := by
  intro stmt hstmt
  obtain rfl := List.mem_singleton.mp hstmt
  exact hquery

theorem asks_foldl_jsonExtract {arrows : List (String × Bool)} {e : Expr} (he : Asks e) :
    Asks (arrows.foldl (fun expr (path, asText) => .jsonExtract expr path asText) e) := by
  induction arrows generalizing e with
  | nil => exact he
  | cons arrow arrows ih => exact ih he

theorem asks_foldl_binaryOp {op : BinOp} {rights : List Expr} {left : Expr} (hleft : Asks left)
    (hrights : ∀ right ∈ rights, Asks right) : Asks (rights.foldl (.binaryOp op) left) := by
  induction rights generalizing left with
  | nil => exact hleft
  | cons right rights ih =>
      exact ih (asks_binaryOp hleft (hrights right List.mem_cons_self))
        fun right hright => hrights right (List.mem_cons_of_mem _ hright)

section Expressions

variable {dbg : Token → String} {whereExpr : Parse Expr} (h : Yields Asks whereExpr)

include h

theorem yields_optionalExpr (keyword : Token) : Yields Asking (optionalExpr whereExpr keyword) := by
  refine yields_alt (fun _ _ _ => h.bind fun e he => yields_pure ?_) (yields_pure asking_none)
  rintro w ⟨⟩
  exact he

theorem yields_parseSelect : Yields Query (parseSelect dbg whereExpr) := by
  refine yields_seq fun _ => yields_seq fun columns => yields_seq fun _ => yields_seq fun table =>
    yields_seq fun joins => (yields_optionalExpr h .«where»).bind fun whereClause hwhere => ?_
  refine yields_seq fun groupBy => yields_seq fun having => yields_seq fun orderBy =>
    yields_seq fun limit => yields_pure ?_
  exact .select hwhere

theorem yields_parseExists (negated : Bool) : Yields Asks (parseExists dbg whereExpr negated) :=
  yields_seq fun _ => (yields_parseSelect h).bind fun _ hquery => yields_seq fun _ =>
    yields_pure (asks_exists hquery)

theorem yields_parseCallWith (expected : String) :
    Yields (fun call => Asks call.1) (parseCallWith dbg whereExpr expected) :=
  yields_seq fun _ => h.bind fun _ he => yields_seq fun _ => yields_seq fun _ => yields_seq fun _ =>
    yields_pure he

omit h in
theorem asks_column (name : String) : Asks (.column name) := fun _ hstmt => by cases hstmt

omit h in
theorem yields_parseQualified (table : String) : Yields Asks (parseQualified dbg table) :=
  yields_seq fun _ => yields_pure fun _ hstmt => by cases hstmt

omit h in
theorem yields_parseName {other : Parse Expr} (hother : Yields Asks other) :
    Yields Asks (parseName dbg other) := by
  refine yields_alt (fun _ name _ => ?_) (yields_alt (fun _ name _ => ?_) hother)
  · refine yields_alt (fun _ _ _ => ?_) (yields_pure (asks_column name))
    exact yields_alt (fun _ _ _ => yields_seq fun _ => yields_pure fun _ hstmt => by cases hstmt)
      (yields_parseQualified name)
  · exact yields_alt (fun _ _ _ => yields_parseQualified name) (yields_pure (asks_column name))

theorem yields_parseDistance (metric : VectorMetric) :
    Yields Asks (parseDistance dbg whereExpr metric) := by
  unfold parseDistance
  exact yields_seq fun _ => h.bind fun _ hleft => yields_seq fun _ => h.bind fun _ hright =>
    yields_seq fun _ => yields_pure (asks_vectorDistance hleft hright)

omit h in
theorem asks_literal {t : Token} {e : Expr} (he : literalOf t = some e) : Asks e := by
  intro stmt hstmt
  cases t <;> cases he <;> cases hstmt

theorem yields_search {t : Token} {search : Expr → String → Expr} (hsome : searchOf t = some search) :
    Yields Asks (do
      let call ← parseCallWith dbg whereExpr "string query in text search"
      return search call.1 call.2) := by
  refine (yields_parseCallWith h _).bind fun call hcall => yields_pure ?_
  unfold searchOf at hsome
  split at hsome <;> cases hsome <;> exact hcall

theorem yields_parseOperand : Yields Asks (parseOperand dbg whereExpr) := by
  refine yields_seq fun offset => yields_alt (fun _ _ he => yields_pure (asks_literal he)) <|
    yields_alt (fun _ metric _ => yields_parseDistance h metric) <|
    yields_alt (fun _ _ hsome => yields_search h hsome) <|
    yields_alt (fun _ _ _ => yields_parseExists h false) <|
    yields_alt (fun _ _ _ => yields_alt (fun _ _ _ => yields_parseExists h true)
      (yields_throw _)) <|
    yields_alt (fun _ _ _ => ?_) <| yields_alt (fun _ _ _ => ?_) <|
    yields_alt (fun _ _ _ => ?_) <| yields_alt (fun _ _ _ => ?_) <|
    yields_alt (fun _ _ _ => ?_) (yields_parseName (yields_fail _))
  · exact yields_seq fun _ => yields_alt
      (fun _ _ _ => yields_seq fun _ => yields_pure fun _ hstmt => by cases hstmt)
      (yields_seq fun _ => yields_seq fun _ => yields_pure fun _ hstmt => by cases hstmt)
  · exact yields_seq fun _ => yields_pure fun _ hstmt => by cases hstmt
  · exact (yields_parseCallWith h _).bind fun call hcall => yields_pure hcall
  · exact yields_seq fun _ => yields_pure fun _ hstmt => by cases hstmt
  · exact h.bind fun _ he => yields_seq fun _ => yields_pure he

theorem yields_parsePrimaryExpr : Yields Asks (parsePrimaryExpr dbg whereExpr) :=
  (yields_parseOperand h).bind fun _ he => yields_seq fun _ =>
    yields_pure (asks_foldl_jsonExtract he)

theorem yields_parseIn {left : Expr} (hleft : Asks left) (negated : Bool) :
    Yields Asks (parseIn dbg whereExpr left negated) := by
  refine yields_seq fun _ => yields_whenNext ?_ ?_
  · exact (yields_parseSelect h).bind fun _ hquery => yields_seq fun _ =>
      yields_pure (asks_inSubquery hleft hquery)
  · exact (yields_commaList h).bind fun _ hlist => yields_seq fun _ =>
      yields_pure (asks_inList hleft hlist)

omit h in
theorem yields_parseLike {left : Expr} (hleft : Asks left) (negated : Bool) :
    Yields Asks (parseLike dbg left negated) := yields_seq fun _ => yields_pure hleft

theorem yields_parseComparison : Yields Asks (parseComparison dbg whereExpr) := by
  refine (yields_parsePrimaryExpr h).bind fun left hleft => ?_
  refine yields_alt (fun _ _ _ => ?_) <| yields_alt (fun _ _ _ => ?_) <|
    yields_alt (fun _ _ _ => yields_parseIn h hleft false) <|
    yields_alt (fun _ _ _ => yields_parseLike hleft false) <|
    yields_alt (fun _ _ _ => yields_alt (fun _ _ _ => yields_parseIn h hleft true) <|
      yields_alt (fun _ _ _ => yields_parseLike hleft true) (yields_fail _)) <|
    yields_pure hleft
  · exact (yields_parsePrimaryExpr h).bind fun right hright =>
      yields_pure (asks_binaryOp hleft hright)
  · exact yields_seq fun _ => yields_seq fun _ => yields_pure hleft

theorem yields_parseOr : Yields Asks (parseOr dbg whereExpr) := by
  have hand : Yields Asks (parseAnd dbg whereExpr) :=
    (yields_parseComparison h).bind fun _ hleft =>
      (yields_whileEat fun _ => yields_parseComparison h).bind fun _ hrights =>
        yields_pure (asks_foldl_binaryOp hleft hrights)
  exact hand.bind fun _ hleft => (yields_whileEat fun _ => hand).bind fun _ hrights =>
    yields_pure (asks_foldl_binaryOp hleft hrights)

end Expressions

theorem yields_parseWhereExpr (dbg : Token → String) (fuel : Nat) :
    Yields Asks (parseWhereExpr dbg fuel) := by
  induction fuel with
  | zero => exact yields_halt _
  | succ fuel ih => exact yields_parseOr ih

/-! ## Statements -/

section Statements

variable {dbg : Token → String} {whereExpr : Parse Expr}

theorem yields_parseCreate :
    Yields (fun stmt => Plain stmt ∧ mutates stmt = true) (parseCreate dbg whereExpr) := by
  refine yields_seq fun _ => yields_whenNext ?_ <| yields_whenNext ?_ <| yields_whenNext ?_ <|
    yields_whenNext ?_ (yields_fail _)
  · exact yields_seq fun _ => yields_seq fun _ => yields_seq fun _ => yields_seq fun _ =>
      yields_seq fun _ => yields_pure ⟨trivial, rfl⟩
  · exact yields_seq fun _ => yields_seq fun _ => yields_seq fun _ => yields_seq fun _ =>
      yields_seq fun _ => yields_seq fun _ => yields_seq fun _ => yields_pure ⟨trivial, rfl⟩
  · exact yields_seq fun _ => yields_seq fun _ => yields_seq fun _ => yields_seq fun _ =>
      yields_seq fun _ => yields_seq fun _ => yields_pure ⟨trivial, rfl⟩
  · exact yields_seq fun _ => yields_seq fun _ => yields_seq fun _ => yields_seq fun _ =>
      yields_seq fun _ => yields_seq fun _ => yields_seq fun _ => yields_seq fun _ =>
      yields_pure ⟨trivial, rfl⟩

theorem yields_parseDrop : Yields Plain (parseDrop dbg) := by
  refine yields_seq fun _ => yields_alt (fun _ _ _ => ?_) <| yields_alt (fun _ _ _ => ?_) <|
    yields_alt (fun _ _ _ => ?_) (yields_fail _)
  · exact yields_seq fun _ => yields_pure trivial
  · exact yields_seq fun _ => yields_pure trivial
  · exact yields_seq fun _ => yields_seq fun _ => yields_seq fun _ => yields_pure trivial

theorem yields_parseAlter : Yields Plain (parseAlter dbg) := by
  have hrls (table : String) (enabled : Bool) : Yields Plain (parseRls dbg table enabled) :=
    yields_seq fun _ => yields_seq fun _ => yields_seq fun _ => yields_pure trivial
  refine yields_seq fun _ => yields_seq fun _ => yields_seq fun table =>
    yields_alt (fun _ _ _ => hrls table true) <| yields_alt (fun _ _ _ => hrls table false) <|
    yields_alt (fun _ _ _ => ?_) <| yields_alt (fun _ _ _ => ?_) <|
    yields_alt (fun _ _ _ => ?_) (yields_seq fun _ => yields_fail _)
  · exact yields_seq fun _ => yields_seq fun _ => yields_pure trivial
  · exact yields_seq fun _ => yields_seq fun _ => yields_pure trivial
  · exact yields_seq fun _ => yields_seq fun _ => yields_pure trivial

theorem yields_parseStatement (h : Yields Asks whereExpr) (fuel : Nat) :
    Yields Plain (parseStatement dbg whereExpr fuel) := by
  cases fuel with
  | zero => exact yields_halt _
  | succ fuel =>
      refine Yields.bind (P := Plain) ?_ fun stmt hstmt => yields_seq fun _ => yields_pure hstmt
      refine yields_alt (fun _ _ _ => yields_seq fun _ => yields_pure trivial) <|
        yields_whenNext (yields_parseCreate.mono fun _ h => h.1) <| yields_whenNext yields_parseDrop <|
        yields_whenNext yields_parseAlter <| yields_whenNext ?_ <| yields_whenNext ?_ <|
        yields_whenNext ?_ <| yields_whenNext ?_ <|
        yields_alt (fun t stmt hsome => ?_) (yields_fail _)
      · exact yields_seq fun _ => yields_seq fun _ => yields_seq fun _ => yields_seq fun _ =>
          yields_seq fun _ => yields_seq fun _ => yields_seq fun _ => yields_pure trivial
      · refine (yields_parseSelect h).mono ?_
        rintro _ ⟨hinner⟩
        exact .select hinner
      · exact yields_seq fun _ => yields_seq fun _ => yields_seq fun _ => yields_seq fun _ =>
          (yields_optionalExpr h _).bind fun _ hwhere => yields_seq fun _ => yields_pure hwhere
      · exact yields_seq fun _ => yields_seq fun _ => yields_seq fun _ =>
          (yields_optionalExpr h _).bind fun _ hwhere => yields_seq fun _ => yields_pure hwhere
      · refine yields_seq fun _ => yields_pure ?_
        unfold transactionOf at hsome
        split at hsome <;> cases hsome <;> trivial

end Statements

/-- The subqueries of a statement that is parsed are queries. -/
theorem parse_plain {text : TextLibrary} {dbg : Token → String} {sql : String} {stmt : Statement}
    (h : parse text dbg sql = .ok stmt) : Plain stmt := by
  obtain ⟨tokens, -, h⟩ := Outcome.bind_eq_ok.mp h
  obtain ⟨⟨stmt', p⟩, hparse, h⟩ := Outcome.bind_eq_ok.mp h
  cases h
  unfold parseTokens at hparse
  split at hparse
  · cases hparse
  · split at hparse
    · next p₀ _ _ _ hrun =>
        cases hparse
        exact yields_parseStatement (yields_parseWhereExpr dbg _) _ _ _ _ hrun
    · cases hparse
    · cases hparse

end ChocoBase.Engine
