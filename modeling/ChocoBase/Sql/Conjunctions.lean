import ChocoBase.Foundation.Refused
import ChocoBase.Sql.PrintedExprs

/-!
# Conditions side by side

Conditions with `AND` or `OR` between them are read one after the other, and the whole is
refused where one of them is.
-/

namespace ChocoBase.Sql.Parser

open ChocoBase.Foundation

/-- Conditions combined from left to right. -/
def combined (op : BinOp) : List Expr → Option Expr
  | [] => none
  | e :: es => some (es.foldl (.binaryOp op) e)

theorem intercalate_cons (t : Token) (us : List Token) (rest : List (List Token)) :
    [t].intercalate (us :: rest) = us ++ rest.flatMap (t :: ·) := by
  induction rest generalizing us with
  | nil => simp
  | cons vs rest ih => rw [List.intercalate_cons_cons, ih, List.flatMap_cons]; simp

theorem intercalate_ne_nil (t : Token) (front : List (List Token)) (u : Token)
    (us : List Token) (more : List (List Token)) :
    [t].intercalate (front ++ (u :: us) :: more) ≠ [] := by
  cases front with
  | nil => rw [List.nil_append, intercalate_cons]; simp
  | cons vs front => rw [List.cons_append, intercalate_cons]; simp

theorem combined_isSome (op : BinOp) (list : List Expr) :
    (combined op list).isSome = !list.isEmpty := by
  cases list <;> rfl

section Chains

variable {α β γ : Type} {first : Parse α} {f : Token → Option γ} {combine : α → α → α}
  {Q : Token → Prop} {t : Token} {v : γ}

theorem Chained.joined (ht : f t = some v) {i : α × List Token} {rest : List (α × List Token)}
    (h : ∀ j ∈ i :: rest, Takes left first j.2 j.1 Q) :
    Chained first f (fun _ => first) combine Q ([t].intercalate ((i :: rest).map Prod.snd))
      ((rest.map Prod.fst).foldl combine i.1) := by
  refine ⟨i.1, i.2, rest.map fun j => (j.1, t :: j.2), h i List.mem_cons_self, ?_, ?_, ?_⟩
  · intro k hk
    obtain ⟨j, hj, rfl⟩ := List.mem_map.mp hk
    exact ⟨t, j.2, v, rfl, ht, h j (List.mem_cons_of_mem _ hj)⟩
  · rw [List.map_cons, intercalate_cons, List.flatMap_map, List.flatMap_map]
  · rw [List.map_map]
    rfl

theorem whileEat_refuses {q : γ → Parse β} {items : List (β × List Token)} {u : Token}
    {us : List Token}
    (hitem : ∀ i ∈ items, ∃ w ws v, i.2 = w :: ws ∧ f w = some v ∧ Takes left (q v) ws i.1 Q)
    (hnext : ∀ w v, f w = some v → Q w) (ht : f t = some v)
    (hlast : Refuses left (q v) (u :: us)) :
    Refuses left (whileEat f q) (items.flatMap Prod.snd ++ t :: u :: us) := by
  intro s r hview
  have hitems : items.length ≤ (items.flatMap Prod.snd).length := by
    clear hview
    induction items with
    | nil => exact Nat.le_refl 0
    | cons i items ih =>
        obtain ⟨w, ws, -, hi, -⟩ := hitem i List.mem_cons_self
        have hrest := ih fun j hj => hitem j (List.mem_cons_of_mem _ hj)
        rw [List.flatMap_cons, hi, List.length_append, List.length_cons, List.length_cons]
        omega
  have hlength := congrArg List.length hview
  simp only [left, List.length_cons, List.length_map, List.length_append] at hlength
  exact Refuses.loop (takesNext f) hitem hnext ht hlast (by omega) s r hview

/-- Some parts are taken and the next is refused. -/
theorem Chained.refused (ht : f t = some v) (hloop : ∀ t v, f t = some v → Q t)
    {taken : List (α × List Token)} (h : ∀ j ∈ taken, Takes left first j.2 j.1 Q) {u : Token}
    {us : List Token} (hrefused : Refuses left first (u :: us)) (more : List (List Token)) :
    Refuses left (do
      let b ← first
      let rest ← whileEat f fun _ => first
      return rest.foldl combine b)
      ([t].intercalate (taken.map Prod.snd ++ (u :: us) :: more)) := by
  cases taken with
  | nil =>
      rw [List.map_nil, List.nil_append, intercalate_cons]
      exact hrefused.bind.append _
  | cons i rest =>
      have htokens : [t].intercalate ((i :: rest).map Prod.snd ++ (u :: us) :: more) =
          i.2 ++ ((rest.map fun j => (j.1, t :: j.2)).flatMap Prod.snd ++ t :: u :: us) ++
            more.flatMap (t :: ·) := by
        simp [intercalate_cons, List.flatMap_map]
      have hitems : ∀ k ∈ rest.map fun j => (j.1, t :: j.2), ∃ w ws v, k.2 = w :: ws ∧
          f w = some v ∧ Takes left first ws k.1 Q := by
        intro k hk
        obtain ⟨j, hj, rfl⟩ := List.mem_map.mp hk
        exact ⟨t, j.2, v, rfl, ht, h j (List.mem_cons_of_mem _ hj)⟩
      have hrest : Refuses left (whileEat f fun _ => first)
          ((rest.map fun j => (j.1, t :: j.2)).flatMap Prod.snd ++ t :: u :: us) :=
        whileEat_refuses hitems hloop ht hrefused
      have hmore : ∃ w ws, (rest.map fun j => (j.1, t :: j.2)).flatMap Prod.snd ++ t :: u :: us =
          w :: ws ∧ Q w := by
        cases rest with
        | nil => exact ⟨t, u :: us, rfl, hloop t v ht⟩
        | cons j rest => exact ⟨t, _, rfl, hloop t v ht⟩
      obtain ⟨w, ws, hws, hw⟩ := hmore
      rw [hws] at hrest
      rw [htokens, hws]
      exact (Refuses.after (h i List.mem_cons_self) hrest.bind hw).append _

end Chains

section Levels

variable {d : Token → String} {w : Parse Expr} {ts us : List Token} {e : Expr} {t u : Token}

/-- Conditions with the operator between them. -/
theorem Reads.combined {op : BinOp} (hop : op = .and ∨ op = .or) {list : List (Expr × List Token)}
    (hne : list ≠ []) (h : ∀ j ∈ list, Reads d w 2 j.2 j.1) :
    ∃ e, Parser.combined op (list.map Prod.fst) = some e ∧
      Reads d w 0 ([opToken op].intercalate (list.map Prod.snd)) e := by
  obtain ⟨i, rest, rfl⟩ := List.exists_cons_of_ne_nil hne
  refine ⟨_, rfl, ?_⟩
  rcases hop with rfl | rfl
  · have hand : Reads d w 1 ([Token.and].intercalate ((i :: rest).map Prod.snd))
        ((rest.map Prod.fst).foldl (.binaryOp .and) i.1) := Chained.joined (v := ()) rfl h
    exact hand.weaken (Nat.zero_le 1) (by decide)
  · exact Chained.joined (v := ()) rfl fun j hj =>
      ((h j hj).weaken (Nat.le_succ 1) (by decide)).parseAnd

theorem parseAnd_refuses {taken : List (Expr × List Token)}
    (h : ∀ j ∈ taken, Reads d w 2 j.2 j.1) (hrefused : Refuses left (parseComparison d w) (u :: us))
    (more : List (List Token)) :
    Refuses left (parseAnd d w)
      ([Token.and].intercalate (taken.map Prod.snd ++ (u :: us) :: more)) :=
  Chained.refused (v := ()) rfl (fun _ _ ht => only_eq_some ht ▸ (by decide : endsAt 2 .and)) h
    hrefused more

theorem parseOr_refuses {taken : List (Expr × List Token)}
    (h : ∀ j ∈ taken, Reads d w 2 j.2 j.1) (hrefused : Refuses left (parseComparison d w) (u :: us))
    (more : List (List Token)) :
    Refuses left (parseOr d w)
      ([Token.or].intercalate (taken.map Prod.snd ++ (u :: us) :: more)) :=
  Chained.refused (v := ()) rfl (fun _ _ ht => only_eq_some ht ▸ (by decide : endsAt 1 .or))
    (fun j hj => ((h j hj).weaken (Nat.le_succ 1) (by decide)).parseAnd) hrefused.bind more

/-! ## Operands -/

theorem offset_refuses {g : Nat → Parse Expr} (h : ∀ offset, Refuses left (g offset) ts) :
    Refuses left (peekOffset >>= g) ts :=
  fun s r hview => h _ s r hview

/-- No condition begins with `NOT` in front of anything but `EXISTS`. -/
theorem parseComparison_refuses_not (ht : t ≠ .exists) :
    Refuses left (parseComparison d w) [.not, t] := by
  refine Refuses.bind (Refuses.bind (offset_refuses fun offset => ?_))
  refine Refuses.miss (takesNext literalOf) rfl <| Refuses.miss (takesNext metricOf) rfl <|
    Refuses.miss (takesNext searchOf) rfl <| Refuses.miss (takesNext (only .exists)) rfl <|
    Refuses.hit (takesNext (only .not)) rfl <|
    Refuses.miss (takesNext (only .exists)) (if_neg ht) ?_
  exact fun s r hview => ⟨_, s, rfl⟩

theorem parseComparison_refuses_parens (h : Refuses left w (u :: us)) :
    Refuses left (parseComparison d w) (.lParen :: u :: us) := by
  refine Refuses.bind (Refuses.bind (offset_refuses fun offset => ?_))
  exact Refuses.miss (takesNext literalOf) rfl <| Refuses.miss (takesNext metricOf) rfl <|
    Refuses.miss (takesNext searchOf) rfl <| Refuses.miss (takesNext (only .exists)) rfl <|
    Refuses.miss (takesNext (only .not)) rfl <| Refuses.miss (takesNext (only .count)) rfl <|
    Refuses.miss (takesNext aggregateOf) rfl <| Refuses.miss (takesNext (only .jsonExtract)) rfl <|
    Refuses.miss (takesNext (only .authUid)) rfl <| Refuses.hit (takesNext (only .lParen)) rfl h.bind

theorem parseCallWith_takes (h : Takes left w ts e (endsAt 0)) (query expected : String) :
    Takes left (parseCallWith d w expected)
      (.lParen :: (ts ++ [.comma, .stringLiteral query, .rParen])) (e, query) (endsAt 4) := by
  have hclose : Takes left (do
      expect d .rParen
      return (e, query)) [.rParen] (e, query) (endsAt 4) :=
    (expect_takes d .rParen).map fun _ => (e, query)
  have hquery : Takes left (do
      let s ← take stringOf fun other => "expected " ++ expected ++ ", found " ++ d other
      expect d .rParen
      return (e, s)) [.stringLiteral query, .rParen] (e, query) (endsAt 4) :=
    (take_takes (f := stringOf) (Q := fun _ => True) rfl).bind hclose fun _ _ => trivial
  have hcomma : Takes left (do
      expect d .comma
      let s ← take stringOf fun other => "expected " ++ expected ++ ", found " ++ d other
      expect d .rParen
      return (e, s)) [.comma, .stringLiteral query, .rParen] (e, query) (endsAt 4) :=
    (expect_takes (Q := fun _ => True) d .comma).bind hquery fun _ _ => trivial
  exact (expect_takes (Q := fun _ => True) d .lParen).bind
    (h.bind hcomma fun _ _ => (by decide : endsAt 0 .comma)) fun _ _ => trivial

theorem Reads.ftsMatch (h : Takes left w ts e (endsAt 0)) (query : String) :
    Reads d w 3 (.ftsMatch :: .lParen :: (ts ++ [.comma, .stringLiteral query, .rParen]))
      (.ftsMatch e query) :=
  Chained.single <| offset_takes fun _ =>
    alt_miss (fun _ _ => rfl) <| alt_miss (fun _ _ => rfl) <| alt_hit rfl <|
      (parseCallWith_takes h query _).map fun call => Expr.ftsMatch call.1 call.2

end Levels

end ChocoBase.Sql.Parser
