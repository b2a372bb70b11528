import ChocoBase.Foundation.Printed
import ChocoBase.Sql.Parser

/-!
# Printed conditions

Conditions as tokens, with parentheses around the operands that bind weaker than
where they stand requires, and that the parser reads them back.
-/

namespace ChocoBase.Sql.Parser

open ChocoBase.Foundation

/-! ## Printing -/

/-- How strongly an expression binds: 0 for `OR`, 3 for what has no operands side by side. -/
def level : Expr → Nat
  | .binaryOp .or _ _ => 0
  | .binaryOp .and _ _ => 1
  | .binaryOp .. | .isNull .. | .inList .. | .like .. => 2
  | _ => 3

/-- The levels that the operands of an operator need at least. -/
def operandLevels : BinOp → Nat × Nat
  | .or => (0, 1)
  | .and => (1, 2)
  | _ => (3, 3)

def opToken : BinOp → Token
  | .and => .and
  | .or => .or
  | .eq => .eq
  | .notEq => .notEq
  | .lt => .lt
  | .ltEq => .ltEq
  | .gt => .gt
  | .gtEq => .gtEq

def inParens (ts : List Token) : List Token := .lParen :: (ts ++ [.rParen])

/-- The tokens of an expression where level `k` is needed. -/
def atLevel (k : Nat) (e : Expr) (ts : List Token) : List Token :=
  if k ≤ level e then ts else inParens ts

def notTokens (negated : Bool) : List Token := if negated then [.not] else []

mutual

/-- A condition as tokens. -/
def tokensOf : Expr → List Token
  | .column name => [.identifier name]
  | .qualifiedColumn table column => [.identifier table, .dot, .identifier column]
  | .intLiteral n => [.intLiteral n]
  | .stringLiteral s => [.stringLiteral s]
  | .boolLiteral b => [if b then .true else .false]
  | .null => [.null]
  | .binaryOp op l r =>
      atLevel (operandLevels op).1 l (tokensOf l) ++
        opToken op :: atLevel (operandLevels op).2 r (tokensOf r)
  | .isNull e negated => atLevel 3 e (tokensOf e) ++ .is :: (notTokens negated ++ [.null])
  | .inList e list negated =>
      atLevel 3 e (tokensOf e) ++ (notTokens negated ++
        .«in» :: inParens ([Token.comma].intercalate (listTokens list)))
  | .like e pattern negated =>
      atLevel 3 e (tokensOf e) ++ (notTokens negated ++ [.like, .stringLiteral pattern])
  | .jsonExtract e path asText =>
      atLevel 3 e (tokensOf e) ++ [if asText then .arrowText else .arrow, .stringLiteral path]
  | _ => []

def listTokens : List Expr → List (List Token)
  | [] => []
  | e :: rest => tokensOf e :: listTokens rest

end

/-- The conditions that are printed. -/
inductive Printable : Expr → Prop
  | column (name : String) : Printable (.column name)
  | qualifiedColumn {table : String} (htable : eqIgnoreAsciiCase table "auth" = false)
      (column : String) : Printable (.qualifiedColumn table column)
  | intLiteral (n : Int64) : Printable (.intLiteral n)
  | stringLiteral (s : String) : Printable (.stringLiteral s)
  | boolLiteral (b : Bool) : Printable (.boolLiteral b)
  | null : Printable .null
  | binaryOp (op : BinOp) {l r : Expr} (hl : Printable l) (hr : Printable r) :
      Printable (.binaryOp op l r)
  | isNull {e : Expr} (h : Printable e) (negated : Bool) : Printable (.isNull e negated)
  | inList {e : Expr} {list : List Expr} (h : Printable e) (hne : list ≠ [])
      (hlist : ∀ x ∈ list, Printable x) (negated : Bool) : Printable (.inList e list negated)
  | like {e : Expr} (h : Printable e) (pattern : String) (negated : Bool) :
      Printable (.like e pattern negated)
  | jsonExtract {e : Expr} (h : Printable e) (path : String) (asText : Bool) :
      Printable (.jsonExtract e path asText)

theorem level_le (e : Expr) : level e ≤ 3 := by
  unfold level
  split <;> decide

theorem listTokens_eq_map (list : List Expr) : listTokens list = list.map tokensOf := by
  induction list with
  | nil => rfl
  | cons e rest ih => rw [listTokens, ih, List.map_cons]

/-- No condition begins like a subquery. -/
theorem head_tokensOf {e : Expr} (h : Printable e) (k : Nat) :
    ∃ t r, atLevel k e (tokensOf e) = t :: r ∧ t ≠ .select := by
  have hlevel {e : Expr} (k : Nat) (h : ∃ t r, tokensOf e = t :: r ∧ t ≠ .select) :
      ∃ t r, atLevel k e (tokensOf e) = t :: r ∧ t ≠ .select := by
    unfold atLevel
    split
    · exact h
    · exact ⟨_, _, rfl, by decide⟩
  refine hlevel k ?_
  have hfront {front back : List Token} (h : ∃ t r, front = t :: r ∧ t ≠ .select) :
      ∃ t r, front ++ back = t :: r ∧ t ≠ .select := by
    obtain ⟨t, r, rfl, ht⟩ := h
    exact ⟨t, r ++ back, rfl, ht⟩
  induction h generalizing k with
  | column | qualifiedColumn | intLiteral | stringLiteral | null => exact ⟨_, _, rfl, by simp⟩
  | boolLiteral b => exact ⟨_, _, rfl, by cases b <;> simp⟩
  | binaryOp op hl hr ihl ihr => rw [tokensOf]; exact hfront (hlevel _ (ihl 0))
  | isNull h negated ih => rw [tokensOf]; exact hfront (hlevel _ (ih 0))
  | inList h hne hlist negated ih ihlist => rw [tokensOf]; exact hfront (hlevel _ (ih 0))
  | like h pattern negated ih => rw [tokensOf]; exact hfront (hlevel _ (ih 0))
  | jsonExtract h path asText ih => rw [tokensOf]; exact hfront (hlevel _ (ih 0))

/-! ## Reading -/

/-- The tokens at which an expression of a level ends; level 4 is a single operand. -/
def endsAt (k : Nat) (t : Token) : Prop :=
  t ≠ .dot ∧ (4 ≤ k ∨ arrowOf t = none) ∧
    (3 ≤ k ∨ comparisonOf t = none ∧ t ≠ .is ∧ t ≠ .«in» ∧ t ≠ .like ∧ t ≠ .not) ∧
    (2 ≤ k ∨ t ≠ .and) ∧ (1 ≤ k ∨ t ≠ .or)

instance (k : Nat) (t : Token) : Decidable (endsAt k t) := by unfold endsAt; infer_instance

theorem endsAt.mono {j k : Nat} {t : Token} (h : endsAt j t) (hle : j ≤ k) : endsAt k t := by
  obtain ⟨hdot, harrow, hcompare, hand, hor⟩ := h
  exact ⟨hdot, harrow.imp_left fun h => h.trans hle, hcompare.imp_left fun h => h.trans hle,
    hand.imp_left fun h => h.trans hle, hor.imp_left fun h => h.trans hle⟩

section Steps

variable {α β γ : Type} {f : Token → Option α} {t : Token} {v : α} {ts : List Token} {b : β}
  {Q R : Token → Prop} {q : α → Parse β} {p : Parse β}

theorem takesNext (f : Token → Option α) :
    TakesNext left f (eat f : Parse (Option α)) where
  hit {p t u r v} hview ht := by
    obtain ⟨current, following⟩ := p
    simp only [left, List.cons.injEq] at hview
    obtain ⟨rfl, hfollowing⟩ := hview
    cases following with
    | nil => cases hfollowing
    | cons next rest => exact ⟨⟨next, rest⟩, by simp [eat, ht, advance], hfollowing⟩
  miss {p t r} hview ht := by
    obtain ⟨current, following⟩ := p
    simp only [left, List.cons.injEq] at hview
    obtain ⟨rfl, -⟩ := hview
    simp [eat, ht]

theorem alt_hit (ht : f t = some v) (hq : Takes left (q v) ts b R) :
    Takes left (alt f q p) (t :: ts) b R :=
  Takes.hit (takesNext f) ht hq

theorem alt_miss (hmiss : ∀ t, R t → f (ts.headD t) = none) (hp : Takes left p ts b R) :
    Takes left (alt f q p) ts b R :=
  Takes.miss (takesNext f) hmiss hp

theorem take_takes {message : Token → String} (ht : f t = some v) :
    Takes left (take f message) [t] v Q :=
  alt_hit ht (Takes.pure v)

theorem expect_takes (d : Token → String) (t : Token) : Takes left (expect d t) [t] () Q :=
  take_takes (if_pos rfl)

theorem whenNext_takes {p q : Parse β} (yes : Bool)
    (hnext : ∀ t, R t → Form.can f (ts.headD t) = yes)
    (hx : Takes left (if yes = true then p else q) ts b R) :
    Takes left (whenNext f p q) ts b R := by
  have hlook : ∀ (s : Parser) t r, left s = t :: r → nextIs f s = (.ok (Form.can f t), s) := by
    intro s t r hview
    simp only [left, List.cons.injEq] at hview
    rw [← hview.1]
    rfl
  exact Takes.look yes hlook hnext hx

theorem whileEat_takes {items : List (β × List Token)} {Q : β × List Token → Token → Prop}
    (hitem : ∀ i ∈ items, ∃ u us v, i.2 = u :: us ∧ f u = some v ∧ Takes left (q v) us i.1 (Q i))
    (hnext : ∀ i ∈ items, ∀ u v, f u = some v → Q i u)
    (hstop : ∀ t, R t → f t = none ∧ ∀ i ∈ items.getLast?, Q i t) :
    Takes left (whileEat f q) (items.flatMap Prod.snd) (items.map Prod.fst) R := by
  intro s t r hview ht
  have hitems : items.length ≤ (items.flatMap Prod.snd).length := by
    clear hview hnext hstop
    induction items with
    | nil => exact Nat.le_refl 0
    | cons i items ih =>
        obtain ⟨u, us, -, hi, -⟩ := hitem i List.mem_cons_self
        have hrest := ih fun j hj => hitem j (List.mem_cons_of_mem _ hj)
        rw [List.flatMap_cons, hi, List.length_append, List.length_cons, List.length_cons]
        omega
  have hlength := congrArg List.length hview
  simp only [left, List.length_cons, List.length_map, List.length_append] at hlength
  exact Takes.loop (takesNext f) hitem hnext hstop (by omega) s t r hview ht

/-- What takes the offset of the current token first. -/
theorem offset_takes {g : Nat → Parse β} (h : ∀ offset, Takes left (g offset) ts b R) :
    Takes left (peekOffset >>= g) ts b R :=
  fun s t r hview ht => h _ s t r hview ht

theorem endList_takes (message : String) (d : Token → String) :
    Takes left (endList message d) [.rParen] () Q :=
  whenNext_takes true (fun _ _ => rfl) (take_takes rfl)

theorem intercalate_comma_cons (us : List Token) (rest : List (List Token)) :
    [Token.comma].intercalate (us :: rest) = us ++ rest.flatMap (Token.comma :: ·) := by
  induction rest generalizing us with
  | nil => simp
  | cons vs rest ih => rw [List.intercalate_cons_cons, ih, List.flatMap_cons]; simp

theorem commaList_takes {item : Parse β} {list : List (β × List Token)} (hne : list ≠ [])
    {Q : β × List Token → Token → Prop} (hitem : ∀ i ∈ list, Takes left item i.2 i.1 (Q i))
    (hcomma : ∀ i ∈ list, Q i .comma)
    (hstop : ∀ t, R t → t ≠ .comma ∧ ∀ i ∈ list.getLast?, Q i t) :
    Takes left (commaList item) ([Token.comma].intercalate (list.map Prod.snd))
      (list.map Prod.fst) R := by
  obtain ⟨first, rest, rfl⟩ := List.exists_cons_of_ne_nil hne
  let items := rest.map fun i => (i.1, Token.comma :: i.2)
  let Q' : β × List Token → Token → Prop := fun i => Q (i.1, i.2.tail)
  have hitems : ∀ i ∈ items, ∃ u us v, i.2 = u :: us ∧ only .comma u = some v ∧
      Takes left item us i.1 (Q' i) := by
    intro i hi
    obtain ⟨j, hj, rfl⟩ := List.mem_map.mp hi
    exact ⟨.comma, j.2, (), rfl, rfl, hitem j (List.mem_cons_of_mem _ hj)⟩
  have hnext : ∀ i ∈ items, ∀ u v, only .comma u = some v → Q' i u := by
    intro i hi u v hu
    obtain ⟨j, hj, rfl⟩ := List.mem_map.mp hi
    obtain ⟨rfl, -⟩ := Option.ite_none_right_eq_some.mp hu
    exact hcomma j (List.mem_cons_of_mem _ hj)
  have hlast : ∀ t, R t → only .comma t = none ∧ ∀ i ∈ items.getLast?, Q' i t := by
    refine fun t ht => ⟨if_neg (hstop t ht).1, fun i hi => ?_⟩
    rw [List.getLast?_map] at hi
    obtain ⟨j, hj, rfl⟩ := Option.map_eq_some_iff.mp hi
    refine (hstop t ht).2 j ?_
    cases rest with
    | nil => cases hj
    | cons k rest => rwa [List.getLast?_cons_cons]
  have hrest : Takes left (whileEat (only .comma) fun _ => item) (items.flatMap Prod.snd)
      (items.map Prod.fst) R := whileEat_takes hitems hnext hlast
  have hafter : ∀ t, R t → Q first ((items.flatMap Prod.snd).headD t) := by
    intro t ht
    cases rest with
    | nil => exact (hstop t ht).2 first rfl
    | cons j rest => exact hcomma first List.mem_cons_self
  have htokens : [Token.comma].intercalate ((first :: rest).map Prod.snd) =
      first.2 ++ items.flatMap Prod.snd := by
    simp only [items, List.map_cons, intercalate_comma_cons, List.flatMap_map]
  have hvalues : (first :: rest).map Prod.fst = first.1 :: items.map Prod.fst := by
    simp [items]
  rw [htokens, hvalues]
  exact (hitem first List.mem_cons_self).bind (hrest.map (first.1 :: ·)) hafter

end Steps

/-! ## The four levels -/

/-- A first value, and then others that are combined with it from left to right. -/
def Chained {α β γ : Type} (first : Parse α) (f : Token → Option γ) (next : γ → Parse β)
    (combine : α → β → α) (Q : Token → Prop) (ts : List Token) (a : α) : Prop :=
  ∃ (b : α) (us : List Token) (items : List (β × List Token)),
    Takes left first us b Q ∧
    (∀ i ∈ items, ∃ u vs v, i.2 = u :: vs ∧ f u = some v ∧ Takes left (next v) vs i.1 Q) ∧
    ts = us ++ items.flatMap Prod.snd ∧ a = (items.map Prod.fst).foldl combine b

namespace Chained

variable {α β γ : Type} {first : Parse α} {f : Token → Option γ} {next : γ → Parse β}
  {combine : α → β → α} {Q R : Token → Prop} {ts us : List Token} {a : α} {b : β}

theorem single (h : Takes left first ts a Q) : Chained first f next combine Q ts a :=
  ⟨a, ts, [], h, nofun, (List.append_nil ts).symm, rfl⟩

theorem snoc {t : Token} {v : γ} (h : Chained first f next combine Q ts a) (ht : f t = some v)
    (hnext : Takes left (next v) us b Q) :
    Chained first f next combine Q (ts ++ t :: us) (combine a b) := by
  obtain ⟨c, vs, items, hfirst, hitems, rfl, rfl⟩ := h
  refine ⟨c, vs, items ++ [(b, t :: us)], hfirst, ?_, by simp, by simp⟩
  intro i hi
  rcases List.mem_append.mp hi with hi | hi
  · exact hitems i hi
  · rw [List.mem_singleton.mp hi]
    exact ⟨t, us, v, rfl, ht, hnext⟩

theorem takes (h : Chained first f next combine Q ts a) (hloop : ∀ t v, f t = some v → Q t)
    (hstop : ∀ t, R t → f t = none ∧ Q t) :
    Takes left (do
      let b ← first
      let rest ← whileEat f next
      return rest.foldl combine b) ts a R := by
  obtain ⟨b, us, items, hfirst, hitems, rfl, rfl⟩ := h
  have hrest : Takes left (whileEat f next) (items.flatMap Prod.snd) (items.map Prod.fst) R :=
    whileEat_takes hitems (fun _ _ => hloop) fun t ht => ⟨(hstop t ht).1, fun _ _ => (hstop t ht).2⟩
  refine hfirst.bind (hrest.map fun rest => rest.foldl combine b) fun t ht => ?_
  cases items with
  | nil => exact (hstop t ht).2
  | cons i items =>
      obtain ⟨u, vs, v, hi, hu, -⟩ := hitems i List.mem_cons_self
      rw [List.flatMap_cons, hi]
      exact hloop u v hu

end Chained

theorem only_eq_some {t t' : Token} {v : Unit} (h : only t t' = some v) : t' = t :=
  (Option.ite_none_right_eq_some.mp h).1

section Levels

variable {d : Token → String} {w : Parse Expr}

/-- What an expression of a level is read by, inside any others. -/
def Reads (d : Token → String) (w : Parse Expr) : Nat → List Token → Expr → Prop
  | 0 => Chained (parseAnd d w) (only .or) (fun _ => parseAnd d w) (.binaryOp .or) (endsAt 1)
  | 1 => Chained (parseComparison d w) (only .and) (fun _ => parseComparison d w)
      (.binaryOp .and) (endsAt 2)
  | 2 => fun ts e => Takes left (parseComparison d w) ts e (endsAt 2)
  | _ => Chained (parseOperand d w) arrowOf
      (fun asText => do
        let path ← take pathOf fun other => "expected JSON path after arrow, found " ++ d other
        return (path, asText))
      (fun expr (path, asText) => .jsonExtract expr path asText) (endsAt 4)

namespace Reads

variable {ts : List Token} {e : Expr}

theorem parseOr (h : Reads d w 0 ts e) : Takes left (parseOr d w) ts e (endsAt 0) :=
  Chained.takes h (fun _ _ ht => only_eq_some ht ▸ (by decide : endsAt 1 .or)) fun _ ht =>
    ⟨if_neg (ht.2.2.2.2.resolve_left (by decide)), ht.mono (by decide)⟩

theorem parseAnd (h : Reads d w 1 ts e) : Takes left (parseAnd d w) ts e (endsAt 1) :=
  Chained.takes h (fun _ _ ht => only_eq_some ht ▸ (by decide : endsAt 2 .and)) fun _ ht =>
    ⟨if_neg (ht.2.2.2.1.resolve_left (by decide)), ht.mono (by decide)⟩

theorem endsAt_of_arrowOf {t : Token} {asText : Bool} (h : arrowOf t = some asText) :
    endsAt 4 t := by
  cases t <;> cases h <;> decide

theorem parsePrimaryExpr (h : Reads d w 3 ts e) :
    Takes left (parsePrimaryExpr d w) ts e (endsAt 3) :=
  Chained.takes h (fun _ _ => endsAt_of_arrowOf) fun _ ht =>
    ⟨ht.2.1.resolve_left (by decide), ht.mono (by decide)⟩

theorem parseComparison (h : Reads d w 3 ts e) : Reads d w 2 ts e := by
  have hrest : Takes left (Parser.parseComparison d w) (ts ++ []) e (endsAt 2) := by
    refine h.parsePrimaryExpr.bind ?_ fun t ht => ht.mono (by decide)
    have hnone : ∀ t, endsAt 2 t → comparisonOf t = none ∧ t ≠ .is ∧ t ≠ .«in» ∧ t ≠ .like ∧
        t ≠ .not := fun t ht => ht.2.2.1.resolve_left (by decide)
    refine alt_miss (fun t ht => (hnone t ht).1) ?_
    refine alt_miss (fun t ht => if_neg (hnone t ht).2.1) ?_
    refine alt_miss (fun t ht => if_neg (hnone t ht).2.2.1) ?_
    refine alt_miss (fun t ht => if_neg (hnone t ht).2.2.2.1) ?_
    exact alt_miss (fun t ht => if_neg (hnone t ht).2.2.2.2) (Takes.pure e)
  rwa [List.append_nil] at hrest

/-- What binds stronger stands wherever something weaker may. -/
theorem weaken {j k : Nat} (h : Reads d w k ts e) (hjk : j ≤ k) (hk : k ≤ 3) :
    Reads d w j ts e := by
  induction hjk using Nat.decreasingInduction with
  | self => exact h
  | of_succ j hj ih =>
      have hj' : j = 0 ∨ j = 1 ∨ j = 2 := by omega
      rcases hj' with rfl | rfl | rfl
      · exact Chained.single ih.parseAnd
      · exact Chained.single ih
      · exact ih.parseComparison

/-! ### Operands -/

theorem literal {t : Token} (ht : literalOf t = some e) : Reads d w 3 [t] e :=
  Chained.single (offset_takes fun _ => alt_hit ht (Takes.pure e))

/-- What is no keyword and no parenthesis is a name. -/
theorem name {name : String} {us : List Token}
    (h : Takes left (parseName d (fail fun other => "expected an expression, found " ++ d other))
      (.identifier name :: us) e (endsAt 4)) : Reads d w 3 (.identifier name :: us) e :=
  Chained.single <| offset_takes fun _ =>
    alt_miss (fun _ _ => rfl) <| alt_miss (fun _ _ => rfl) <| alt_miss (fun _ _ => rfl) <|
    alt_miss (fun _ _ => rfl) <| alt_miss (fun _ _ => rfl) <| alt_miss (fun _ _ => rfl) <|
    alt_miss (fun _ _ => rfl) <| alt_miss (fun _ _ => rfl) <| alt_miss (fun _ _ => rfl) <|
    alt_miss (fun _ _ => rfl) h

theorem column (column : String) : Reads d w 3 [.identifier column] (.column column) := by
  refine name ?_
  have hend : Takes left (alt (only .dot) (fun _ => parseQualified d column)
      (return .column column)) [] (.column column) (endsAt 4) :=
    alt_miss (fun t ht => if_neg ht.1) (Takes.pure _)
  have hend' : Takes left (alt (only .dot)
      (fun _ => alt (wordOf "uid")
        (fun _ => do
          emptyCall d
          return .authUid)
        (parseQualified d column))
      (return .column column)) [] (.column column) (endsAt 4) :=
    alt_miss (fun t ht => if_neg ht.1) (Takes.pure _)
  cases hauth : wordOf "auth" (.identifier column) with
  | none => exact alt_miss (fun _ _ => hauth) (alt_hit rfl hend)
  | some other =>
      have hother : other = column := by
        simp only [wordOf, identifierOf, Option.filter_eq_some_iff, Option.some.injEq] at hauth
        exact hauth.1.symm
      exact alt_hit hauth (hother ▸ hend')

theorem qualifiedColumn {table : String} (htable : eqIgnoreAsciiCase table "auth" = false)
    (column : String) :
    Reads d w 3 [.identifier table, .dot, .identifier column] (.qualifiedColumn table column) := by
  have hauth : wordOf "auth" (.identifier table) = none := by
    simp [wordOf, identifierOf, htable]
  have hcolumn : Takes left (parseQualified d table) [.identifier column]
      (.qualifiedColumn table column) (endsAt 4) :=
    (take_takes (f := nameOf) rfl).map (Expr.qualifiedColumn table)
  exact name (alt_miss (fun _ _ => hauth) (alt_hit rfl (alt_hit rfl hcolumn)))

theorem parens (h : Takes left w ts e (endsAt 0)) : Reads d w 3 (inParens ts) e := by
  have hclosed : Takes left (do
      let e ← w
      expect d .rParen
      return e) (ts ++ [.rParen]) e (endsAt 4) :=
    h.bind ((expect_takes d .rParen).map fun _ => e) fun _ _ =>
      (by decide : endsAt 0 .rParen)
  exact Chained.single <| offset_takes fun _ =>
    alt_miss (fun _ _ => rfl) <| alt_miss (fun _ _ => rfl) <| alt_miss (fun _ _ => rfl) <|
    alt_miss (fun _ _ => rfl) <| alt_miss (fun _ _ => rfl) <| alt_miss (fun _ _ => rfl) <|
    alt_miss (fun _ _ => rfl) <| alt_miss (fun _ _ => rfl) <| alt_miss (fun _ _ => rfl) <|
    alt_hit rfl hclosed

/-- An operand where level `k` is needed. -/
theorem operand {k : Nat} (hk : k ≤ 3) (h : Reads d w (level e) ts e)
    (hw : Takes left w ts e (endsAt 0)) : Reads d w k (atLevel k e ts) e := by
  unfold atLevel
  split
  case isTrue hlevel => exact h.weaken hlevel (level_le e)
  case isFalse => exact (parens hw).weaken hk (Nat.le_refl 3)

/-! ### Comparisons -/

theorem comparison {op : BinOp} {us : List Token} {l r : Expr} (hl : Reads d w 3 ts l)
    (hr : Reads d w 3 us r) (hop : comparisonOf (opToken op) = some op) :
    Reads d w 2 (ts ++ opToken op :: us) (.binaryOp op l r) := by
  have hright : Takes left (do
      let right ← Parser.parsePrimaryExpr d w
      return Expr.binaryOp op l right) us (.binaryOp op l r) (endsAt 3) :=
    hr.parsePrimaryExpr.map (Expr.binaryOp op l)
  have hend : endsAt 3 (opToken op) := by cases op <;> decide
  exact hl.parsePrimaryExpr.bind (alt_hit hop (hright.mono fun _ ht => ht.mono (by decide)))
    fun _ _ => hend

theorem isNull (h : Reads d w 3 ts e) (negated : Bool) :
    Reads d w 2 (ts ++ .is :: (notTokens negated ++ [.null])) (.isNull e negated) := by
  have hnull : Takes left (do
      expect d .null
      return Expr.isNull e negated) [.null] (.isNull e negated) (endsAt 2) :=
    (expect_takes d .null).map fun _ => Expr.isNull e negated
  have hnot : Takes left (alt (only .not) (fun _ => return true) (return false))
      (notTokens negated) negated fun t => t = .null := by
    cases negated with
    | false => exact alt_miss (fun t ht => if_neg (by simp [notTokens, ht])) (Takes.pure false)
    | true => exact alt_hit rfl (Takes.pure true)
  exact h.parsePrimaryExpr.bind
    (alt_miss (fun _ _ => rfl) (alt_hit rfl (hnot.bind hnull fun _ _ => rfl)))
    fun _ _ => (by decide : endsAt 3 .is)

theorem like (h : Reads d w 3 ts e) (pattern : String) (negated : Bool) :
    Reads d w 2 (ts ++ (notTokens negated ++ [.like, .stringLiteral pattern]))
      (.like e pattern negated) := by
  have hpattern : Takes left (parseLike d e negated) [.stringLiteral pattern]
      (.like e pattern negated) (endsAt 2) :=
    (take_takes (f := stringOf) rfl).map fun pattern => Expr.like e pattern negated
  cases negated with
  | false =>
      exact h.parsePrimaryExpr.bind (alt_miss (fun _ _ => rfl) <| alt_miss (fun _ _ => rfl) <|
        alt_miss (fun _ _ => rfl) <| alt_hit rfl hpattern) fun _ _ =>
        (by decide : endsAt 3 .like)
  | true =>
      exact h.parsePrimaryExpr.bind (alt_miss (fun _ _ => rfl) <| alt_miss (fun _ _ => rfl) <|
        alt_miss (fun _ _ => rfl) <| alt_miss (fun _ _ => rfl) <| alt_hit rfl <|
        alt_miss (fun _ _ => rfl) <| alt_hit rfl hpattern) fun _ _ =>
        (by decide : endsAt 3 .not)

/-- What stands in the parentheses after `IN`, if it is no subquery. -/
theorem parseIn_takes {list : List Expr} (hne : list ≠ [])
    (hlist : ∀ x ∈ list, Printable x ∧ Takes left w (tokensOf x) x (endsAt 0)) (negated : Bool) :
    Takes left (parseIn d w e negated)
      (inParens ([Token.comma].intercalate (listTokens list))) (.inList e list negated)
      (endsAt 2) := by
  have hitems : Takes left (commaList w) ([Token.comma].intercalate (listTokens list)) list
      fun t => t = .rParen := by
    have hpairs : Takes left (commaList w)
        ([Token.comma].intercalate ((list.map fun x => (x, tokensOf x)).map Prod.snd))
        ((list.map fun x => (x, tokensOf x)).map Prod.fst) fun t => t = .rParen := by
      refine commaList_takes (Q := fun _ => endsAt 0) (by simpa using hne) (fun i hi => ?_)
        (fun _ _ => (by decide : endsAt 0 .comma)) fun t ht => ?_
      case refine_2 =>
        subst ht
        exact ⟨by decide, fun _ _ => by decide⟩
      obtain ⟨x, hx, rfl⟩ := List.mem_map.mp hi
      exact (hlist x hx).2
    simpa [List.map_map, Function.comp_def, listTokens_eq_map] using hpairs
  have hclosed : Takes left (do
      let list ← commaList w
      endList "expected ',' or ')' in IN list" d
      return Expr.inList e list negated)
      ([Token.comma].intercalate (listTokens list) ++ [Token.rParen]) (.inList e list negated)
      (endsAt 2) :=
    hitems.bind ((endList_takes _ d).map fun _ => Expr.inList e list negated) fun _ _ => rfl
  obtain ⟨x, rest, rfl⟩ := List.exists_cons_of_ne_nil hne
  have hselect : ∀ t : Token, Form.can (only .select)
      (([Token.comma].intercalate (listTokens (x :: rest)) ++ [Token.rParen]).headD t) = false := by
    obtain ⟨u, us, hu, hne⟩ := head_tokensOf (hlist x List.mem_cons_self).1 0
    rw [atLevel, if_pos (Nat.zero_le _)] at hu
    intro t
    rw [listTokens, intercalate_comma_cons, hu]
    simp [Form.can, only, hne]
  exact (expect_takes (Q := fun _ => True) d .lParen).bind
    (whenNext_takes false (fun t _ => hselect t) hclosed) fun _ _ => trivial

theorem inList {list : List Expr} (h : Reads d w 3 ts e) (hne : list ≠ [])
    (hlist : ∀ x ∈ list, Printable x ∧ Takes left w (tokensOf x) x (endsAt 0)) (negated : Bool) :
    Reads d w 2 (ts ++ (notTokens negated ++
      .«in» :: inParens ([Token.comma].intercalate (listTokens list))))
      (.inList e list negated) := by
  have hin := parseIn_takes (d := d) (e := e) hne hlist negated
  cases negated with
  | false =>
      exact h.parsePrimaryExpr.bind (alt_miss (fun _ _ => rfl) <| alt_miss (fun _ _ => rfl) <|
        alt_hit rfl hin) fun _ _ => (by decide : endsAt 3 .«in»)
  | true =>
      exact h.parsePrimaryExpr.bind (alt_miss (fun _ _ => rfl) <| alt_miss (fun _ _ => rfl) <|
        alt_miss (fun _ _ => rfl) <| alt_miss (fun _ _ => rfl) <| alt_hit rfl <|
        alt_hit rfl hin) fun _ _ => (by decide : endsAt 3 .not)

theorem jsonExtract (h : Reads d w 3 ts e) (path : String) (asText : Bool) :
    Reads d w 3 (ts ++ [if asText then .arrowText else .arrow, .stringLiteral path])
      (.jsonExtract e path asText) := by
  have hpath : Takes left (do
      let path ← take pathOf fun other => "expected JSON path after arrow, found " ++ d other
      return (path, asText)) [.stringLiteral path] (path, asText) (endsAt 4) :=
    (take_takes (f := pathOf) rfl).map fun path => (path, asText)
  have harrow : arrowOf (if asText then .arrowText else .arrow) = some asText := by
    cases asText <;> rfl
  exact Chained.snoc h harrow hpath

end Reads

theorem length_le_atLevel (k : Nat) (e : Expr) (ts : List Token) :
    ts.length ≤ (atLevel k e ts).length := by
  unfold atLevel inParens
  split
  · exact Nat.le_refl _
  · simp only [List.length_cons, List.length_append]
    omega

theorem length_le_intercalate {us : List Token} {list : List (List Token)} (h : us ∈ list) :
    us.length ≤ ([Token.comma].intercalate list).length := by
  obtain ⟨first, rest, rfl⟩ := List.exists_cons_of_ne_nil (List.ne_nil_of_mem h)
  rw [intercalate_comma_cons, List.length_append]
  rcases List.mem_cons.mp h with rfl | h
  · exact Nat.le_add_right _ _
  · have hsub : (Token.comma :: us).Sublist (rest.flatMap (Token.comma :: ·)) :=
      List.sublist_flatten_of_mem (List.mem_map.mpr ⟨us, h, rfl⟩)
    have := hsub.length_le
    rw [List.length_cons] at this
    omega

theorem reads_tokensOf {n : Nat}
    (hw : ∀ e, Printable e → (tokensOf e).length < n → Takes left w (tokensOf e) e (endsAt 0))
    {e : Expr} (h : Printable e) (hn : (tokensOf e).length ≤ n) :
    Reads d w (level e) (tokensOf e) e := by
  have hoperand {x : Expr} {k : Nat} (hk : k ≤ 3) (hx : Printable x)
      (ih : (tokensOf x).length ≤ n → Reads d w (level x) (tokensOf x) x)
      (hlt : (atLevel k x (tokensOf x)).length < n) :
      Reads d w k (atLevel k x (tokensOf x)) x := by
    have hlength := length_le_atLevel k x (tokensOf x)
    exact (ih (by omega)).operand hk (hw x hx (by omega))
  induction h with
  | column name => exact Reads.column name
  | qualifiedColumn htable name => exact Reads.qualifiedColumn htable name
  | intLiteral n => exact Reads.literal rfl
  | stringLiteral s => exact Reads.literal rfl
  | boolLiteral b => exact Reads.literal (by cases b <;> rfl)
  | null => exact Reads.literal rfl
  | binaryOp op hl hr ihl ihr =>
      simp only [tokensOf, List.length_append, List.length_cons] at hn
      have hlevels : (operandLevels op).1 ≤ 3 ∧ (operandLevels op).2 ≤ 3 := by
        cases op <;> decide
      have hleft := hoperand hlevels.1 hl ihl (by omega)
      have hright := hoperand hlevels.2 hr ihr (by omega)
      cases op with
      | or =>
          exact Chained.snoc hleft (f := only .or) rfl hright.parseAnd
      | and => exact Chained.snoc hleft (f := only .and) rfl hright
      | _ => exact hleft.comparison hright rfl
  | isNull hx negated ih =>
      simp only [tokensOf, List.length_append, List.length_cons] at hn
      exact (hoperand (Nat.le_refl 3) hx ih (by omega)).isNull negated
  | inList hx hne hlist negated ih ihlist =>
      simp only [tokensOf, inParens, List.length_append, List.length_cons] at hn
      refine (hoperand (Nat.le_refl 3) hx ih (by omega)).inList hne (fun y hy => ?_) negated
      have hlength := length_le_intercalate
        (listTokens_eq_map _ ▸ List.mem_map.mpr ⟨y, hy, rfl⟩)
      exact ⟨hlist y hy, hw y (hlist y hy) (by omega)⟩
  | like hx pattern negated ih =>
      simp only [tokensOf, List.length_append, List.length_cons] at hn
      exact (hoperand (Nat.le_refl 3) hx ih (by omega)).like pattern negated
  | jsonExtract hx path asText ih =>
      simp only [tokensOf, List.length_append, List.length_cons] at hn
      exact (hoperand (Nat.le_refl 3) hx ih (by omega)).jsonExtract path asText

end Levels

theorem parseWhereExpr_takes (d : Token → String) {e : Expr} (h : Printable e) {fuel : Nat}
    (hfuel : (tokensOf e).length ≤ fuel) :
    Takes left (parseWhereExpr d fuel) (tokensOf e) e (endsAt 0) := by
  induction fuel generalizing e with
  | zero =>
      obtain ⟨t, r, ht, -⟩ := head_tokensOf h 0
      rw [atLevel, if_pos (Nat.zero_le _)] at ht
      rw [ht] at hfuel
      exact absurd hfuel (Nat.not_succ_le_zero _)
  | succ fuel ih =>
      have hread : Reads d (parseWhereExpr d fuel) (level e) (tokensOf e) e :=
        reads_tokensOf (fun x hx hlt => ih hx (by omega)) h hfuel
      exact (hread.weaken (Nat.zero_le _) (level_le e)).parseOr

/-- A condition is read back from its tokens, up to what may follow a condition. -/
theorem parseWhereExpr_tokensOf (d : Token → String) {e : Expr} (h : Printable e)
    {next : Token} (hnext : next = .eof ∨ next = .comma ∨ next = .rParen) {more : List Token}
    {p : Parser} (hp : left p = tokensOf e ++ next :: more) {fuel : Nat}
    (hfuel : (tokensOf e).length ≤ fuel) :
    ∃ p', parseWhereExpr d fuel p = (.ok e, p') ∧ left p' = next :: more := by
  refine parseWhereExpr_takes d h hfuel p next more hp ?_
  rcases hnext with rfl | rfl | rfl <;> decide

/-- `(a = 1 OR b IS NULL) AND c IN (2)` -/
theorem parseWhereExpr_or_in_and :
    ∃ p', parseWhereExpr (fun _ => "") 20
        ⟨⟨.lParen, 0⟩, [.identifier "a", .eq, .intLiteral 1, .or, .identifier "b", .is, .null,
          .rParen, .and, .identifier "c", .«in», .lParen, .intLiteral 2, .rParen, .eof].map
            (⟨·, 0⟩)⟩ =
      (.ok (.binaryOp .and
        (.binaryOp .or (.binaryOp .eq (.column "a") (.intLiteral 1)) (.isNull (.column "b") false))
        (.inList (.column "c") [.intLiteral 2] false)), p') ∧
      left p' = [.eof] :=
  parseWhereExpr_tokensOf _
    (.binaryOp .and
      (.binaryOp .or (.binaryOp .eq (.column "a") (.intLiteral 1)) (.isNull (.column "b") false))
      (.inList (.column "c") (List.cons_ne_nil _ _)
        (fun _ hx => List.mem_singleton.mp hx ▸ .intLiteral 2) false))
    (.inl rfl) rfl (by decide)

end ChocoBase.Sql.Parser
