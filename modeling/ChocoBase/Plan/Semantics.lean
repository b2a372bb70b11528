import ChocoBase.Plan.Aggregate

/-!
# What expressions mean

The value that an expression denotes on a row, by rules, and the evaluator against
them.  A comparison of two values of different kinds has no value: there the evaluator
panics, and so do sorting and the aggregates `MIN` and `MAX`.
-/

namespace ChocoBase.Plan

open ChocoBase.Foundation ChocoBase.Sql ChocoBase.Types ChocoBase.Auth

/-! ## Values that can be compared -/

/-- The kinds of values that compare with each other. -/
inductive Kind where
  | number
  | text
  | json
  | boolean
  | vector
  deriving DecidableEq

def kindOf : Value → Option Kind
  | .integer _ | .float _ => some .number
  | .text _ => some .text
  | .json _ => some .json
  | .boolean _ => some .boolean
  | .vector _ => some .vector
  | .null => none

/-- One of the values is null, or they are of one kind. -/
def Comparable (v w : Value) : Prop := v.isNull ∨ w.isNull ∨ kindOf v = kindOf w

instance (v w : Value) : Decidable (Comparable v w) :=
  inferInstanceAs (Decidable (_ ∨ _))

theorem sqlCmp_isSome_iff {v w : Value} (hv : v.isNull = false) (hw : w.isNull = false) :
    (sqlCmp v w).isSome ↔ kindOf v = kindOf w := by
  cases v <;> cases w <;> simp_all [sqlCmp, kindOf, Value.isNull]

theorem sqlCmpNullable_isSome_iff {v w : Value} : (sqlCmpNullable v w).isSome ↔ Comparable v w := by
  cases v <;> cases w <;> simp [sqlCmpNullable, Comparable, sqlCmp, kindOf, Value.isNull]

/-- The operators that compare. -/
def Compares (op : BinOp) : Prop := op ≠ .and ∧ op ≠ .or

/-! ## Denotations -/

section Denotations

variable (lib : Library) (schema : TableSchema) (row : Row) (ctx : ExecutionContext)

mutual

inductive Denotes : Expr → Value → Prop
  | authUid : Denotes .authUid (ctx.userId.elim .null .integer)
  | column {name idx v} (hidx : schema.columnIndex name = some idx) (hv : row[idx]? = some v) :
      Denotes (.column name) v
  | qualifiedColumn {table column idx v}
      (hidx : ((schema.columnIndex (table ++ "." ++ column)).orElse
        fun _ => schema.columnIndex column) = some idx) (hv : row[idx]? = some v) :
      Denotes (.qualifiedColumn table column) v
  | intLiteral {n} : Denotes (.intLiteral n) (.integer n)
  | floatLiteral {x} : Denotes (.floatLiteral x) (.float x)
  | stringLiteral {s} : Denotes (.stringLiteral s) (.text s)
  | boolLiteral {b} : Denotes (.boolLiteral b) (.boolean b)
  | null : Denotes .null .null
  | isNull {e negated v} (h : Denotes e v) :
      Denotes (.isNull e negated) (.boolean (v.isNull != negated))
  | and {l r v w} (hl : Denotes l v) (hr : Denotes r w) :
      Denotes (.binaryOp .and l r) (.boolean (isTruthy v && isTruthy w))
  | or {l r v w} (hl : Denotes l v) (hr : Denotes r w) :
      Denotes (.binaryOp .or l r) (.boolean (isTruthy v || isTruthy w))
  | compareNull {op l r v w} (hop : Compares op) (hl : Denotes l v) (hr : Denotes r w)
      (hnull : (v.isNull || w.isNull) = true) : Denotes (.binaryOp op l r) (.boolean false)
  | compare {op l r v w ord} (hop : Compares op) (hl : Denotes l v) (hr : Denotes r w)
      (hnull : (v.isNull || w.isNull) = false) (hord : sqlCmp v w = some ord) :
      Denotes (.binaryOp op l r) (.boolean (compares op ord))
  | inNull {e list negated v} (h : Denotes e v) (hnull : v.isNull = true) :
      Denotes (.inList e list negated) .null
  | inList {e list negated v found} (h : Denotes e v) (hnull : v.isNull = false)
      (hlist : Finds v list found) : Denotes (.inList e list negated) (.boolean (found != negated))
  | like {e pattern negated v} (h : Denotes e v) :
      Denotes (.like e pattern negated) (evalLike v pattern negated)
  | jsonExtract {e path asText v} (h : Denotes e v) :
      Denotes (.jsonExtract e path asText) (evalJsonExtract lib v path asText)
  | vectorDistance {metric l r v w} (hl : Denotes l v) (hr : Denotes r w) :
      Denotes (.vectorDistance metric l r) (evalVectorDistance lib metric v w)
  | ftsMatch {e query v} (h : Denotes e v) : Denotes (.ftsMatch e query)
      (.boolean ((ftsText v).elim false fun s => ftsMatches lib s query))
  | ftsRank {e query v} (h : Denotes e v) : Denotes (.ftsRank e query)
      (.float ((ftsText v).elim 0.0 fun s => ftsRank lib s query))
  | ftsSnippet {e query v} (h : Denotes e v) : Denotes (.ftsSnippet e query)
      (.text ((ftsText v).elim "" fun s => ftsSnippet lib s query))

/-- Whether the target is among the values of the list, read up to the first that is. -/
inductive Finds : Value → List Expr → Bool → Prop
  | nil {target} : Finds target [] false
  | here {target item list v} (h : Denotes item v) (heq : target.eq v = true) :
      Finds target (item :: list) true
  | later {target item list v found} (h : Denotes item v) (hne : target.eq v = false)
      (hlist : Finds target list found) : Finds target (item :: list) found

end

mutual

/-- No index is out of range, and no two values of different kinds are compared. -/
def Safe : Expr → Prop
  | .column name => ∀ idx, schema.columnIndex name = some idx → idx < row.length
  | .qualifiedColumn table column =>
      ∀ idx, ((schema.columnIndex (table ++ "." ++ column)).orElse
        fun _ => schema.columnIndex column) = some idx → idx < row.length
  | .binaryOp op l r =>
      Safe l ∧ ∀ v, Denotes lib schema row ctx l v →
        Safe r ∧ (Compares op → ∀ w, Denotes lib schema row ctx r w → Comparable v w)
  | .inList e list _ =>
      Safe e ∧ ∀ v, Denotes lib schema row ctx e v → v.isNull = false → SafeUpTo v list
  | .vectorDistance _ l r => Safe l ∧ ∀ v, Denotes lib schema row ctx l v → Safe r
  | .isNull e _ | .like e _ _ | .jsonExtract e _ _ | .ftsMatch e _ | .ftsRank e _
  | .ftsSnippet e _ => Safe e
  | .authUid | .intLiteral _ | .floatLiteral _ | .stringLiteral _ | .boolLiteral _ | .null
  | .inSubquery .. | .exists .. | .aggregate _ => True

def SafeUpTo (target : Value) : List Expr → Prop
  | [] => True
  | item :: list =>
      Safe item ∧ ∀ v, Denotes lib schema row ctx item v → target.eq v = false →
        SafeUpTo target list

end

end Denotations

/-! ## The evaluator -/

section Evaluator

variable {lib : Library} {schema : TableSchema} {row : Row} {ctx : ExecutionContext}

theorem evalColumn_eq_ok {found : Option Nat} {name : String} {v : Value} :
    evalColumn row found name = .ok v ↔ ∃ idx, found = some idx ∧ row[idx]? = some v := by
  cases found with
  | none => simp [evalColumn]
  | some idx => cases h : row[idx]? <;> simp [evalColumn, Outcome.unwrap, h]

theorem stops_evalColumn {found : Option Nat} {name : String} :
    (evalColumn row found name).Stops ↔ ∃ idx, found = some idx ∧ ¬idx < row.length := by
  cases found with
  | none => simp [evalColumn]
  | some idx => simp [evalColumn, Outcome.stops_unwrap]

/-- An operator that compares. -/
theorem evalBinop_of_compares {op : BinOp} (hop : Compares op) {v w : Value} :
    evalBinop op v w = if v.isNull || w.isNull then .ok (.boolean false)
      else (Outcome.unwrap (sqlCmp v w)).bind fun ord => .ok (.boolean (compares op ord)) := by
  cases op with
  | and => exact absurd rfl hop.1
  | or => exact absurd rfl hop.2
  | eq | notEq | lt | ltEq | gt | gtEq => rfl

theorem stops_evalBinop {op : BinOp} {v w : Value} :
    (evalBinop op v w).Stops ↔ Compares op ∧ ¬Comparable v w := by
  by_cases hop : Compares op
  · rw [evalBinop_of_compares hop]
    by_cases hnull : (v.isNull || w.isNull) = true
    · have hcomparable : Comparable v w := by
        rcases Bool.or_eq_true_iff.mp hnull with h | h
        · exact .inl h
        · exact .inr (.inl h)
      simp [hnull, hcomparable]
    · obtain ⟨hv, hw⟩ := Bool.or_eq_false_iff.mp (Bool.eq_false_iff.mpr hnull)
      have hkind := sqlCmp_isSome_iff hv hw
      rw [if_neg hnull, Outcome.stops_bind, Outcome.stops_unwrap]
      simp [hop, Comparable, hv, hw, ← hkind]
  · cases op <;> simp_all [evalBinop, Compares]

/-- The value of an operator, given those of its operands. -/
theorem denotes_binaryOp_iff {op : BinOp} {l r : Expr} {u : Value} :
    Denotes lib schema row ctx (.binaryOp op l r) u ↔
      ∃ v, Denotes lib schema row ctx l v ∧ ∃ w, Denotes lib schema row ctx r w ∧
        evalBinop op v w = .ok u := by
  constructor
  · intro h
    cases h with
    | and hl hr => exact ⟨_, hl, _, hr, rfl⟩
    | or hl hr => exact ⟨_, hl, _, hr, rfl⟩
    | compareNull hop hl hr hnull =>
        exact ⟨_, hl, _, hr, by rw [evalBinop_of_compares hop, if_pos hnull]⟩
    | compare hop hl hr hnull hord =>
        refine ⟨_, hl, _, hr, ?_⟩
        rw [evalBinop_of_compares hop, if_neg (by simp [hnull]), hord]
        rfl
  · rintro ⟨v, hl, w, hr, h⟩
    by_cases hop : Compares op
    · rw [evalBinop_of_compares hop] at h
      by_cases hnull : (v.isNull || w.isNull) = true
      · rw [if_pos hnull] at h
        cases h
        exact .compareNull hop hl hr hnull
      · rw [if_neg hnull] at h
        cases hord : sqlCmp v w with
        | none =>
            rw [hord] at h
            cases h
        | some ord =>
            rw [hord] at h
            cases h
            exact .compare hop hl hr (Bool.eq_false_iff.mpr hnull) hord
    · cases op with
      | and =>
          cases h
          exact .and hl hr
      | or =>
          cases h
          exact .or hl hr
      | eq | notEq | lt | ltEq | gt | gtEq => exact absurd ⟨nofun, nofun⟩ hop

theorem bind_ok_eq_ok {ε α β : Type} {x : Outcome ε α} {f : α → β} {b : β} :
    (x.bind fun a => .ok (f a)) = .ok b ↔ ∃ a, x = .ok a ∧ f a = b := by
  cases x <;> simp [Outcome.bind]

variable (lib schema row ctx)

mutual

/-- The evaluator gives the value that the expression denotes. -/
theorem denotes_iff (e : Expr) (v : Value) :
    Denotes lib schema row ctx e v ↔ evalWithContext lib schema row ctx e = .ok v := by
  cases e with
  | column name =>
      rw [evalWithContext, evalColumn_eq_ok]
      constructor
      · intro h
        cases h with
        | column hidx hv => exact ⟨_, hidx, hv⟩
      · rintro ⟨idx, hidx, hv⟩
        exact .column hidx hv
  | qualifiedColumn table column =>
      rw [evalWithContext, evalColumn_eq_ok]
      constructor
      · intro h
        cases h with
        | qualifiedColumn hidx hv => exact ⟨_, hidx, hv⟩
      · rintro ⟨idx, hidx, hv⟩
        exact .qualifiedColumn hidx hv
  | authUid =>
      have heval : evalWithContext lib schema row ctx .authUid =
          .ok (ctx.userId.elim .null .integer) := by
        rw [evalWithContext]
        cases ctx.userId <;> rfl
      rw [heval]
      exact ⟨fun h => by cases h; rfl, fun h => by cases h; exact .authUid⟩
  | intLiteral n =>
      rw [evalWithContext]
      exact ⟨fun h => by cases h; rfl, fun h => by cases h; exact .intLiteral⟩
  | floatLiteral x =>
      rw [evalWithContext]
      exact ⟨fun h => by cases h; rfl, fun h => by cases h; exact .floatLiteral⟩
  | stringLiteral s =>
      rw [evalWithContext]
      exact ⟨fun h => by cases h; rfl, fun h => by cases h; exact .stringLiteral⟩
  | boolLiteral b =>
      rw [evalWithContext]
      exact ⟨fun h => by cases h; rfl, fun h => by cases h; exact .boolLiteral⟩
  | null =>
      rw [evalWithContext]
      exact ⟨fun h => by cases h; rfl, fun h => by cases h; exact .null⟩
  | binaryOp op l r =>
      rw [denotes_binaryOp_iff, evalWithContext]
      constructor
      · rintro ⟨a, ha, b, hb, h⟩
        rw [(denotes_iff l a).mp ha, Outcome.bind, (denotes_iff r b).mp hb, Outcome.bind, h]
      · intro h
        obtain ⟨a, ha, h⟩ := Outcome.bind_eq_ok.mp h
        obtain ⟨b, hb, h⟩ := Outcome.bind_eq_ok.mp h
        exact ⟨a, (denotes_iff l a).mpr ha, b, (denotes_iff r b).mpr hb, h⟩
  | inList e list negated =>
      rw [evalWithContext]
      constructor
      · intro h
        cases h with
        | inNull h hnull => rw [(denotes_iff e _).mp h, Outcome.bind, if_pos hnull]
        | inList h hnull hlist =>
            rw [(denotes_iff e _).mp h, Outcome.bind, if_neg (Bool.eq_false_iff.mp hnull),
              (finds_iff _ list _).mp hlist, Outcome.bind]
      · intro h
        obtain ⟨a, ha, h⟩ := Outcome.bind_eq_ok.mp h
        by_cases hnull : a.isNull = true
        · rw [if_pos hnull] at h
          cases h
          exact .inNull ((denotes_iff e a).mpr ha) hnull
        · rw [if_neg hnull] at h
          obtain ⟨found, hfound, rfl⟩ := bind_ok_eq_ok.mp h
          exact .inList ((denotes_iff e a).mpr ha) (Bool.eq_false_iff.mpr hnull)
            ((finds_iff a list found).mpr hfound)
  | vectorDistance metric l r =>
      rw [evalWithContext]
      constructor
      · intro h
        cases h with
        | vectorDistance hl hr =>
            rw [(denotes_iff l _).mp hl, Outcome.bind, (denotes_iff r _).mp hr, Outcome.bind]
      · intro h
        obtain ⟨a, ha, h⟩ := Outcome.bind_eq_ok.mp h
        obtain ⟨b, hb, rfl⟩ := bind_ok_eq_ok.mp h
        exact .vectorDistance ((denotes_iff l a).mpr ha) ((denotes_iff r b).mpr hb)
  | inSubquery e subquery negated =>
      rw [evalWithContext]
      exact ⟨nofun, nofun⟩
  | «exists» subquery negated =>
      rw [evalWithContext]
      exact ⟨nofun, nofun⟩
  | aggregate func =>
      rw [evalWithContext]
      exact ⟨nofun, nofun⟩
  | isNull e negated =>
      rw [evalWithContext]
      constructor
      · intro h
        cases h with
        | isNull h => rw [(denotes_iff e _).mp h, Outcome.bind]
      · intro h
        obtain ⟨a, ha, rfl⟩ := bind_ok_eq_ok.mp h
        exact .isNull ((denotes_iff e a).mpr ha)
  | like e pattern negated =>
      rw [evalWithContext]
      constructor
      · intro h
        cases h with
        | like h => rw [(denotes_iff e _).mp h, Outcome.bind]
      · intro h
        obtain ⟨a, ha, rfl⟩ := bind_ok_eq_ok.mp h
        exact .like ((denotes_iff e a).mpr ha)
  | jsonExtract e path asText =>
      rw [evalWithContext]
      constructor
      · intro h
        cases h with
        | jsonExtract h => rw [(denotes_iff e _).mp h, Outcome.bind]
      · intro h
        obtain ⟨a, ha, rfl⟩ := bind_ok_eq_ok.mp h
        exact .jsonExtract ((denotes_iff e a).mpr ha)
  | ftsMatch e query =>
      rw [evalWithContext]
      constructor
      · intro h
        cases h with
        | ftsMatch h => rw [(denotes_iff e _).mp h, Outcome.bind]
      · intro h
        obtain ⟨a, ha, rfl⟩ := bind_ok_eq_ok.mp h
        exact .ftsMatch ((denotes_iff e a).mpr ha)
  | ftsRank e query =>
      rw [evalWithContext]
      constructor
      · intro h
        cases h with
        | ftsRank h => rw [(denotes_iff e _).mp h, Outcome.bind]
      · intro h
        obtain ⟨a, ha, rfl⟩ := bind_ok_eq_ok.mp h
        exact .ftsRank ((denotes_iff e a).mpr ha)
  | ftsSnippet e query =>
      rw [evalWithContext]
      constructor
      · intro h
        cases h with
        | ftsSnippet h => rw [(denotes_iff e _).mp h, Outcome.bind]
      · intro h
        obtain ⟨a, ha, rfl⟩ := bind_ok_eq_ok.mp h
        exact .ftsSnippet ((denotes_iff e a).mpr ha)

theorem finds_iff (target : Value) (list : List Expr) (found : Bool) :
    Finds lib schema row ctx target list found ↔
      evalAnyEq lib schema row ctx target list = .ok found := by
  cases list with
  | nil =>
      rw [evalAnyEq]
      exact ⟨fun h => by cases h; rfl, fun h => by cases h; exact .nil⟩
  | cons item list =>
      rw [evalAnyEq]
      constructor
      · intro h
        cases h with
        | here h heq => rw [(denotes_iff item _).mp h, Outcome.bind, if_pos heq]
        | later h hne hlist =>
            rw [(denotes_iff item _).mp h, Outcome.bind, if_neg (Bool.eq_false_iff.mp hne),
              (finds_iff target list found).mp hlist]
      · intro h
        obtain ⟨a, ha, h⟩ := Outcome.bind_eq_ok.mp h
        by_cases heq : target.eq a = true
        · rw [if_pos heq] at h
          cases h
          exact .here ((denotes_iff item a).mpr ha) heq
        · rw [if_neg heq] at h
          exact .later ((denotes_iff item a).mpr ha) (Bool.eq_false_iff.mpr heq)
            ((finds_iff target list found).mpr h)

end

mutual

/-- The evaluator returns a value or an error exactly where the expression is safe. -/
theorem stops_iff (e : Expr) :
    (evalWithContext lib schema row ctx e).Stops ↔ ¬Safe lib schema row ctx e := by
  cases e with
  | column name | qualifiedColumn table column =>
      rw [evalWithContext, stops_evalColumn, Safe]
      push Not
      rfl
  | authUid | intLiteral n | floatLiteral x | stringLiteral s | boolLiteral b | null
  | inSubquery e subquery negated | «exists» subquery negated | aggregate func =>
      rw [evalWithContext, Safe]
      simp
  | binaryOp op l r =>
      rw [evalWithContext, Safe, Outcome.stops_bind, stops_iff l, not_and_or]
      refine or_congr_right ?_
      push Not
      refine exists_congr fun a => ?_
      rw [denotes_iff]
      refine and_congr_right fun _ => ?_
      have hop : (∃ b, evalWithContext lib schema row ctx r = .ok b ∧ (evalBinop op a b).Stops) ↔
          Compares op ∧ ∃ b, Denotes lib schema row ctx r b ∧ ¬Comparable a b := by
        simp only [stops_evalBinop, denotes_iff]
        exact ⟨fun ⟨b, hb, hop, hno⟩ => ⟨hop, b, hb, hno⟩, fun ⟨hop, b, hb, hno⟩ => ⟨b, hb, hop, hno⟩⟩
      rw [Outcome.stops_bind, stops_iff r, hop]
      exact or_iff_not_imp_left.trans (by rw [not_not])
  | inList e list negated =>
      rw [evalWithContext, Safe, Outcome.stops_bind, stops_iff e, not_and_or]
      refine or_congr_right ?_
      push Not
      refine exists_congr fun a => ?_
      rw [denotes_iff]
      refine and_congr_right fun _ => ?_
      have hlist := stopsUpTo_iff a list
      cases hnull : a.isNull with
      | true => simp
      | false => simp [Outcome.stops_bind, hlist]
  | vectorDistance metric l r =>
      rw [evalWithContext, Safe, Outcome.stops_bind, stops_iff l, not_and_or]
      refine or_congr_right ?_
      push Not
      refine exists_congr fun a => ?_
      rw [denotes_iff]
      refine and_congr_right fun _ => ?_
      rw [Outcome.stops_bind, stops_iff r]
      simp
  | isNull e negated | like e pattern negated | jsonExtract e path asText | ftsMatch e query
  | ftsRank e query | ftsSnippet e query =>
      rw [evalWithContext, Safe, Outcome.stops_bind, stops_iff e]
      simp

theorem stopsUpTo_iff (target : Value) (list : List Expr) :
    (evalAnyEq lib schema row ctx target list).Stops ↔
      ¬SafeUpTo lib schema row ctx target list := by
  cases list with
  | nil =>
      rw [evalAnyEq, SafeUpTo]
      simp
  | cons item list =>
      rw [evalAnyEq, SafeUpTo, Outcome.stops_bind, stops_iff item, not_and_or]
      refine or_congr_right ?_
      push Not
      refine exists_congr fun a => ?_
      rw [denotes_iff]
      refine and_congr_right fun _ => ?_
      have hlist := stopsUpTo_iff target list
      cases heq : target.eq a with
      | true => simp
      | false => simp [hlist]

end

end Evaluator

end ChocoBase.Plan
