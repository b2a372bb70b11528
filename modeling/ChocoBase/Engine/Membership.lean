import ChocoBase.Engine.Permissive
import ChocoBase.Plan.Semantics

/-!
# Membership and equality

`IN` looks for an identical value, while `=` also compares numbers of both types and takes
incomparable floats for equal.  The JSON documents and vectors of a subquery come back to
`IN` as texts.
-/

namespace ChocoBase.Engine

open ChocoBase.Foundation ChocoBase.Storage ChocoBase.Sql ChocoBase.Types ChocoBase.Auth
  ChocoBase.Catalog ChocoBase.Plan

/-! ## One value -/

/-- Where `=` is true. -/
def equals (v w : Value) : Bool := !v.isNull && !w.isNull && sqlCmp v w = some .eq

theorem evalBinop_eq_iff {v w : Value} :
    evalBinop .eq v w = .ok (.boolean true) ↔ equals v w = true := by
  have hcompares : Compares .eq := ⟨nofun, nofun⟩
  rw [evalBinop_of_compares hcompares, equals]
  cases v.isNull with
  | true => simp
  | false =>
      cases w.isNull with
      | true => simp
      | false =>
          cases h : sqlCmp v w with
          | none => simp [Outcome.unwrap, Outcome.bind]
          | some ord => cases ord <;> simp [Outcome.unwrap, Outcome.bind, compares]

theorem cmpText_eq_iff {s s' : String} : cmpText s s' = .eq ↔ s = s' := by
  unfold cmpText compareOfLessAndEq
  constructor
  · intro h
    split at h
    · cases h
    · split at h
      · next heq => exact utf8_injective heq
      · cases h
  · rintro rfl
    simp

/-- Values of which equality is not in question: no floats, alone or in vectors. -/
def Discrete : Value → Prop
  | .float _ | .vector _ => False
  | _ => True

theorem eq_iff_equals {v w : Value} (hv : Discrete v) (hnull : v.isNull = false)
    (hw : Discrete w) : v.eq w = true ↔ equals v w = true := by
  cases v with
  | null => cases hnull
  | float _ | vector _ => exact hv.elim
  | integer m =>
      cases w with
      | float _ | vector _ => exact hw.elim
      | integer n =>
          change (m == n) = true ↔ decide (some (compare m n) = some .eq) = true
          simp
      | _ => exact Iff.rfl
  | boolean m =>
      cases w with
      | float _ | vector _ => exact hw.elim
      | boolean n =>
          change (m == n) = true ↔ decide (some (compare m n) = some .eq) = true
          simp
      | _ => exact Iff.rfl
  | text s =>
      cases w with
      | float _ | vector _ => exact hw.elim
      | text s' =>
          change (s == s') = true ↔ decide (some (cmpText s s') = some .eq) = true
          simp [cmpText_eq_iff]
      | _ => exact Iff.rfl
  | json s =>
      cases w with
      | float _ | vector _ => exact hw.elim
      | json s' =>
          change (s == s') = true ↔ decide (some (cmpText s s') = some .eq) = true
          simp [cmpText_eq_iff]
      | _ => exact Iff.rfl

/-! ## A list of values -/

/-- The value of an item for `IN` and for `=`, unless it fails. -/
abbrev Item : Type := Outcome PlanError (Value × Value)

def SomeEqual (target : Value) (items : List Item) : Prop :=
  ∃ v w, .ok (v, w) ∈ items ∧ equals target w = true

/-- No item fails before one that is identical. -/
def Hits (target : Value) : List Item → Prop
  | .ok (v, _) :: rest => target.eq v = true ∨ Hits target rest
  | _ => False

/--
An item that fails stands before no equal one, and an item that is only equal before an
identical one.
-/
def Agrees (target : Value) : List Item → Prop
  | [] => True
  | .ok (v, w) :: rest =>
      if target.eq v then equals target w = true ∨ SomeEqual target rest
      else if equals target w then Hits target rest
      else Agrees target rest
  | _ :: rest => ¬SomeEqual target rest

variable {target : Value} {items : List Item}

theorem someEqual_cons {item : Item} : SomeEqual target (item :: items) ↔
    (∃ v w, item = .ok (v, w) ∧ equals target w = true) ∨ SomeEqual target items := by
  unfold SomeEqual
  constructor
  · rintro ⟨v, w, hmem, hw⟩
    rcases List.mem_cons.mp hmem with rfl | hmem
    · exact .inl ⟨v, w, rfl, hw⟩
    · exact .inr ⟨v, w, hmem, hw⟩
  · rintro (⟨v, w, rfl, hw⟩ | ⟨v, w, hmem, hw⟩)
    · exact ⟨v, w, List.mem_cons_self, hw⟩
    · exact ⟨v, w, List.mem_cons_of_mem _ hmem, hw⟩

theorem agrees_iff : Agrees target items ↔ (Hits target items ↔ SomeEqual target items) := by
  induction items with
  | nil => simp [Agrees, Hits, SomeEqual]
  | cons item items ih =>
      rw [someEqual_cons]
      match item with
      | .ok (v, w) =>
          rw [Agrees, Hits]
          by_cases hidentical : target.eq v = true
          · simp [hidentical]
          · by_cases hequal : equals target w = true
            · simp [hidentical, hequal]
            · simp [hidentical, hequal, ih]
      | .error reason => simp [Agrees, Hits]
      | .stop why => simp [Agrees, Hits]

/-- Without floats and failures, `IN` and `=` agree. -/
theorem agrees_of_discrete (htarget : Discrete target) (hnull : target.isNull = false)
    (h : ∀ item ∈ items, ∃ v, item = .ok (v, v) ∧ Discrete v) : Agrees target items := by
  induction items with
  | nil => trivial
  | cons item items ih =>
      obtain ⟨v, rfl, hv⟩ := h item List.mem_cons_self
      have hsame := eq_iff_equals htarget hnull hv
      rw [Agrees]
      by_cases hidentical : target.eq v = true
      · rw [if_pos hidentical]
        exact .inl (hsame.mp hidentical)
      · rw [if_neg hidentical, if_neg fun h => hidentical (hsame.mpr h)]
        exact ih fun item hmem => h item (List.mem_cons_of_mem _ hmem)

/-! ## IN on rows -/

section Rows

variable (lib : Library) (schema : TableSchema) (row : Row) (ctx : ExecutionContext)

def Truthy (e : Expr) : Prop := evalWithContext lib schema row ctx e = .ok (.boolean true)

/-- The items of a list in parentheses. -/
def listItems (list : List Expr) : List Item :=
  list.map fun item => (evalWithContext lib schema row ctx item).bind fun v => .ok (v, v)

variable {lib schema row ctx} {x : Expr} {a : Value}

theorem hits_listItems {list : List Expr} : Hits a (listItems lib schema row ctx list) ↔
    evalAnyEq lib schema row ctx a list = .ok true := by
  induction list with
  | nil => simp [listItems, Hits, evalAnyEq]
  | cons item list ih =>
      rw [listItems, List.map_cons, evalAnyEq]
      cases hitem : evalWithContext lib schema row ctx item with
      | ok v =>
          change a.eq v = true ∨ Hits a (listItems lib schema row ctx list) ↔ _
          rw [ih, Outcome.bind]
          by_cases hidentical : a.eq v = true <;> simp [hidentical]
      | error reason => simp [Hits, Outcome.bind]
      | stop why => simp [Hits, Outcome.bind]

theorem truthy_inList {list : List Expr} : Truthy lib schema row ctx (.inList x list false) ↔
    ∃ a, evalWithContext lib schema row ctx x = .ok a ∧ a.isNull = false ∧
      Hits a (listItems lib schema row ctx list) := by
  unfold Truthy
  rw [evalWithContext]
  refine Outcome.bind_eq_ok.trans (exists_congr fun a => and_congr_right fun _ => ?_)
  rw [hits_listItems]
  cases a.isNull with
  | true => simp
  | false =>
      cases evalAnyEq lib schema row ctx a list with
      | ok found => cases found <;> simp [Outcome.bind]
      | error reason => simp [Outcome.bind]
      | stop why => simp [Outcome.bind]

theorem truthy_eq {item : Expr} : Truthy lib schema row ctx (.binaryOp .eq x item) ↔
    ∃ a, evalWithContext lib schema row ctx x = .ok a ∧
      ∃ v, evalWithContext lib schema row ctx item = .ok v ∧ equals a v = true := by
  unfold Truthy
  rw [evalWithContext]
  refine Outcome.bind_eq_ok.trans (exists_congr fun a => and_congr_right fun _ => ?_)
  refine Outcome.bind_eq_ok.trans ?_
  exact exists_congr fun v => and_congr_right fun _ => evalBinop_eq_iff

theorem not_equals_of_isNull {v : Value} (h : a.isNull = true) : ¬equals a v = true := by
  simp [equals, h]

/-- Two ways to ask about the items agree for a target if they do for its value. -/
theorem agree_for_value {P : Value → Prop} {Q : Value → Prop}
    (hnull : ∀ a, a.isNull = true → ¬Q a) :
    ((∃ a, evalWithContext lib schema row ctx x = .ok a ∧ a.isNull = false ∧ P a) ↔
        ∃ a, evalWithContext lib schema row ctx x = .ok a ∧ Q a) ↔
      ∀ a, evalWithContext lib schema row ctx x = .ok a → a.isNull = false → (P a ↔ Q a) := by
  cases hx : evalWithContext lib schema row ctx x with
  | ok a =>
      cases hisNull : a.isNull with
      | true => simp [hisNull, hnull a hisNull]
      | false => simp [hisNull]
  | error reason => simp
  | stop why => simp

theorem inList_agrees_iff {list : List Expr} :
    (Truthy lib schema row ctx (.inList x list false) ↔
        ∃ item ∈ list, Truthy lib schema row ctx (.binaryOp .eq x item)) ↔
      ∀ a, evalWithContext lib schema row ctx x = .ok a → a.isNull = false →
        Agrees a (listItems lib schema row ctx list) := by
  have hequal : (∃ item ∈ list, Truthy lib schema row ctx (.binaryOp .eq x item)) ↔
      ∃ a, evalWithContext lib schema row ctx x = .ok a ∧
        SomeEqual a (listItems lib schema row ctx list) := by
    simp only [truthy_eq, SomeEqual, listItems, List.mem_map]
    constructor
    · rintro ⟨item, hmem, a, ha, v, hv, h⟩
      exact ⟨a, ha, v, v, ⟨item, hmem, by rw [hv, Outcome.bind]⟩, h⟩
    · rintro ⟨a, ha, v, w, ⟨item, hmem, hitem⟩, h⟩
      obtain ⟨u, hu, heq⟩ := Outcome.bind_eq_ok.mp hitem
      cases heq
      exact ⟨item, hmem, a, ha, _, hu, h⟩
  rw [truthy_inList, hequal, agree_for_value]
  · simp only [agrees_iff]
  · rintro a hnull ⟨v, w, -, h⟩
    exact not_equals_of_isNull hnull h

/-! ## IN on subqueries -/

/-- The values of a query that `IN` looks at. -/
def firstValues : ExecResult → List Value
  | .rows _ rows => rows.filterMap List.head?
  | _ => []

/-- A value as the literal stands for it. -/
def readBack (lib : Library) : Value → Value
  | .json s => .text s
  | .vector xs => .text ((lib.vectorText xs).getD "")
  | v => v

theorem eval_valueLiteral (v : Value) :
    evalWithContext lib schema row ctx (valueLiteral lib v) = .ok (readBack lib v) := by
  cases v <;> simp [valueLiteral, readBack, evalWithContext]

theorem firstLiterals_eq (res : ExecResult) :
    firstLiterals lib res = (firstValues res).map (valueLiteral lib) := by
  cases res with
  | rows columns rows => simp [firstLiterals, firstValues, List.map_filterMap]
  | modified count => rfl
  | ok => rfl

/-- The items of a subquery: none of them fails. -/
def queryItems (lib : Library) (res : ExecResult) : List Item :=
  (firstValues res).map fun v => .ok (readBack lib v, v)

theorem hits_firstLiterals {res : ExecResult} :
    Hits a (listItems lib schema row ctx (firstLiterals lib res)) ↔
      Hits a (queryItems lib res) := by
  rw [firstLiterals_eq, queryItems]
  induction firstValues res with
  | nil => rfl
  | cons v values ih =>
      simp only [listItems, List.map_cons, eval_valueLiteral, Outcome.bind] at ih ⊢
      exact or_congr_right ih

theorem inSubquery_agrees_iff {res : ExecResult} :
    (Truthy lib schema row ctx (.inList x (firstLiterals lib res) false) ↔
        ∃ v ∈ firstValues res, ∃ a, evalWithContext lib schema row ctx x = .ok a ∧
          evalBinop .eq a v = .ok (.boolean true)) ↔
      ∀ a, evalWithContext lib schema row ctx x = .ok a → a.isNull = false →
        Agrees a (queryItems lib res) := by
  have hequal : (∃ v ∈ firstValues res, ∃ a, evalWithContext lib schema row ctx x = .ok a ∧
        evalBinop .eq a v = .ok (.boolean true)) ↔
      ∃ a, evalWithContext lib schema row ctx x = .ok a ∧ SomeEqual a (queryItems lib res) := by
    simp only [evalBinop_eq_iff, SomeEqual, queryItems, List.mem_map]
    constructor
    · rintro ⟨v, hmem, a, ha, h⟩
      exact ⟨a, ha, _, v, ⟨v, hmem, rfl⟩, h⟩
    · rintro ⟨a, ha, _, w, ⟨v, hmem, heq⟩, h⟩
      cases heq
      exact ⟨_, hmem, a, ha, h⟩
  simp only [truthy_inList, hits_firstLiterals]
  rw [hequal, agree_for_value]
  · simp only [agrees_iff]
  · rintro a hnull ⟨v, w, -, h⟩
    exact not_equals_of_isNull hnull h

/-- `IN` and `=` agree on a list and on a subquery exactly where they do on its items. -/
theorem membership_agrees_iff (lib : Library) (schema : TableSchema) (row : Row)
    (ctx : ExecutionContext) (x : Expr) :
    (∀ list, (Truthy lib schema row ctx (.inList x list false) ↔
          ∃ item ∈ list, Truthy lib schema row ctx (.binaryOp .eq x item)) ↔
        ∀ a, evalWithContext lib schema row ctx x = .ok a → a.isNull = false →
          Agrees a (listItems lib schema row ctx list)) ∧
      ∀ (w : World) (execute : Statement → DbProg DbError ExecResult) (query : Statement)
        (x' : Expr) (res : ExecResult),
        w.outcome (resolveSubqueriesInExpr lib execute x) = .ok x' →
        w.outcome (execute query) = .ok res →
        w.outcome (resolveSubqueriesInExpr lib execute (.inSubquery x query false)) =
            .ok (.inList x' (firstLiterals lib res) false) ∧
          ((Truthy lib schema row ctx (.inList x' (firstLiterals lib res) false) ↔
              ∃ v ∈ firstValues res, ∃ a, evalWithContext lib schema row ctx x' = .ok a ∧
                evalBinop .eq a v = .ok (.boolean true)) ↔
            ∀ a, evalWithContext lib schema row ctx x' = .ok a → a.isNull = false →
              Agrees a (queryItems lib res)) := by
  refine ⟨fun list => inList_agrees_iff, fun w execute query x' res hx hres => ⟨?_, ?_⟩⟩
  · rw [resolveSubqueriesInExpr]
    simp only [World.outcome_bind, World.outcome_pure, hx, hres, Outcome.bind]
  · exact inSubquery_agrees_iff

end Rows

/-! ## Documents -/

/-- The one document below is `null`. -/
def docsLibrary : Library := { plainLibrary with
  parseJson := fun s => if s = "null" then .ok .null else .error "expected value" }

def docsSchema : TableSchema :=
  ⟨"docs", [⟨"id", .integer, true, true⟩, ⟨"j", .json, false, false⟩], 3, false⟩

def docs : Database :=
  Database.runAll docsLibrary plainEnvironment
    [.createTable "docs" [⟨"id", .integer, true, true⟩, ⟨"j", .json, false, false⟩],
      .insert "docs" none [[.intLiteral 1, .stringLiteral "null"]] none]
    (Database.created plainEnvironment).2.sorting

/-- `SELECT j FROM docs` -/
def selectDocuments : Statement :=
  .select (.items [.expr (.column "j") none]) "docs" (some (.table "docs" none)) none none none
    none none

theorem outcome_selectDocuments : (World.ofDatabase plainEnvironment docs).outcome
    (executeStatement docsLibrary .anonymous 1 selectDocuments) =
      .ok (.rows ["j"] [[.json "null"]]) := by decide +kernel

/-- A text, which the document comes back as. -/
theorem membership_agrees_text :
    let row := [Value.integer 1, .json "null"]
    let res := ExecResult.rows ["j"] [[.json "null"]]
    (World.ofDatabase plainEnvironment docs).outcome (resolveSubqueriesInExpr docsLibrary
        (executeStatement docsLibrary .anonymous 1)
        (.inSubquery (.stringLiteral "null") selectDocuments false)) =
      .ok (.inList (.stringLiteral "null") (firstLiterals docsLibrary res) false) ∧
    ((Truthy docsLibrary docsSchema row .anonymous
          (.inList (.stringLiteral "null") (firstLiterals docsLibrary res) false) ↔
        ∃ v ∈ firstValues res, ∃ a, evalWithContext docsLibrary docsSchema row .anonymous
          (.stringLiteral "null") = .ok a ∧ evalBinop .eq a v = .ok (.boolean true)) ↔
      ∀ a, evalWithContext docsLibrary docsSchema row .anonymous (.stringLiteral "null") = .ok a →
        a.isNull = false → Agrees a (queryItems docsLibrary res)) :=
  (membership_agrees_iff docsLibrary docsSchema [.integer 1, .json "null"] .anonymous
    (.stringLiteral "null")).2 (.ofDatabase plainEnvironment docs)
      (executeStatement docsLibrary .anonymous 1) selectDocuments (.stringLiteral "null")
      (.rows ["j"] [[.json "null"]])
      (by rw [resolveSubqueriesInExpr]; rfl) outcome_selectDocuments

/-- `j IN (SELECT j FROM docs)` and `1 IN (missing, 1)`, each with an equal value. -/
theorem document_not_in_documents :
    let w := World.ofDatabase plainEnvironment docs
    let execute := executeStatement docsLibrary .anonymous 1
    let row := [Value.integer 1, .json "null"]
    (w.outcome (execute selectDocuments) = .ok (.rows ["j"] [[.json "null"]]) ∧
      evalWithContext docsLibrary docsSchema row .anonymous (.column "j") = .ok (.json "null") ∧
      evalBinop .eq (.json "null") (.json "null") = .ok (.boolean true) ∧
      ∃ e', w.outcome (resolveSubqueriesInExpr docsLibrary execute
          (.inSubquery (.column "j") selectDocuments false)) = .ok e' ∧
        ¬Truthy docsLibrary docsSchema row .anonymous e') ∧
    Truthy docsLibrary docsSchema row .anonymous (.binaryOp .eq (.intLiteral 1) (.intLiteral 1)) ∧
      ¬Truthy docsLibrary docsSchema row .anonymous
        (.inList (.intLiteral 1) [.column "missing", .intLiteral 1] false) := by
  refine ⟨⟨outcome_selectDocuments, rfl, evalBinop_eq_iff.mpr (by decide),
      .inList (.column "j") (firstLiterals docsLibrary (.rows ["j"] [[.json "null"]])) false, ?_, ?_⟩,
    truthy_eq.mpr ⟨.integer 1, rfl, .integer 1, rfl, by decide⟩, ?_⟩
  · rw [resolveSubqueriesInExpr, World.outcome_bind, resolveSubqueriesInExpr, World.outcome_pure,
      Outcome.bind, World.outcome_bind, outcome_selectDocuments, Outcome.bind, World.outcome_pure]
  · rw [truthy_inList]
    rintro ⟨a, ha, -, h⟩
    cases ha
    rw [hits_firstLiterals] at h
    simp only [queryItems, firstValues, readBack, Hits] at h
    exact h.elim Bool.false_ne_true id
  · rw [truthy_inList]
    rintro ⟨a, ha, -, h⟩
    cases ha
    have hmissing : evalWithContext docsLibrary docsSchema [.integer 1, .json "null"] .anonymous
        (.column "missing") = .error (.noSuchColumn "missing") := rfl
    rw [listItems, List.map_cons, hmissing] at h
    exact h

end ChocoBase.Engine
