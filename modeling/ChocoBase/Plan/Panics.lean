import ChocoBase.Plan.Semantics

/-!
# Where queries panic

Sorting, `MIN`, `MAX` and grouping return exactly where the values they compare are of
one kind, and the evaluator where its expression is safe.
-/

namespace ChocoBase.Plan

open ChocoBase.Foundation ChocoBase.Sql ChocoBase.Types ChocoBase.Auth

/-! ## Sorting -/

/-- All rows have the key, and the keys compare with each other. -/
def Sortable (keyIndex : Nat) (rows : List Row) : Prop :=
  rows.length < 2 ∨ ∀ a ∈ rows, ∀ b ∈ rows, ∃ v w, a[keyIndex]? = some v ∧ b[keyIndex]? = some w ∧
    Comparable v w

theorem sortCmp_isSome_iff {keyIndex : Nat} {descending : Bool} {a b : Row} :
    (sortCmp keyIndex descending a b).isSome ↔ ∃ v w, a[keyIndex]? = some v ∧
      b[keyIndex]? = some w ∧ Comparable v w := by
  unfold sortCmp
  cases a[keyIndex]? with
  | none => simp
  | some v =>
      cases b[keyIndex]? with
      | none => simp
      | some w =>
          have hcmp := sqlCmpNullable_isSome_iff (v := v) (w := w)
          cases hord : sqlCmpNullable v w with
          | none => simpa [hord] using hcmp
          | some ord => simpa [hord] using hcmp

theorem stops_sortRows {keyIndex : Nat} {descending : Bool} {rows : List Row} :
    (sortRows keyIndex descending rows).Stops ↔ ¬Sortable keyIndex rows := by
  have hall : (rows.all fun a => rows.all fun b => (sortCmp keyIndex descending a b).isSome) = true ↔
      ∀ a ∈ rows, ∀ b ∈ rows, ∃ v w, a[keyIndex]? = some v ∧ b[keyIndex]? = some w ∧
        Comparable v w := by
    simp only [List.all_eq_true, sortCmp_isSome_iff]
  unfold sortRows Sortable
  by_cases hshort : rows.length < 2
  · simp [hshort]
  · rw [if_neg hshort, ← hall]
    split
    · next hsome => simp [hsome]
    · next hnone => simp [hshort, hnone]

/-! ## Minimum and maximum -/

/-- `update` with the values of one group, in order. -/
def accumulate (vals : List Value) (acc : Accumulator) : Outcome ExecError Accumulator :=
  vals.foldlM (fun acc v => acc.update (some v)) acc

/-- Any two of the values compare. -/
def MutuallyComparable (vals : List Value) : Prop := ∀ v ∈ vals, ∀ w ∈ vals, Comparable v w

/-- The best value so far, before the next ones. -/
def bestOf (keep : Ordering) (vals : List Value) (current : Option Value) :
    Outcome ExecError (Option Value) :=
  vals.foldlM (Accumulator.better keep) current

section Extremum

variable {keep : Ordering} {v existing : Value} {vals : List Value}

theorem accumulate_min : ∀ {current : Option Value}, accumulate vals (.min current) =
    (bestOf .lt vals current).bind fun best => .ok (.min best) := by
  induction vals with
  | nil => exact rfl
  | cons v vals ih =>
      intro current
      unfold accumulate bestOf at ih ⊢
      simp only [List.foldlM_cons, Accumulator.update]
      cases Accumulator.better .lt current v with
      | ok best => exact ih
      | error e => rfl
      | stop why => rfl

theorem accumulate_max : ∀ {current : Option Value}, accumulate vals (.max current) =
    (bestOf .gt vals current).bind fun best => .ok (.max best) := by
  induction vals with
  | nil => exact rfl
  | cons v vals ih =>
      intro current
      unfold accumulate bestOf at ih ⊢
      simp only [List.foldlM_cons, Accumulator.update]
      cases Accumulator.better .gt current v with
      | ok best => exact ih
      | error e => rfl
      | stop why => rfl

/-- A value of the same kind as the best one replaces it or not; another one panics. -/
theorem better_some (hexisting : existing.isNull = false) :
    (∃ best, Accumulator.better keep (some existing) v = .ok (some best) ∧
        best.isNull = false ∧ kindOf best = kindOf existing ∧ Comparable existing v) ∨
      (Accumulator.better keep (some existing) v).Stops ∧ ¬Comparable existing v := by
  unfold Accumulator.better
  cases hnull : v.isNull with
  | true => exact .inl ⟨existing, rfl, hexisting, rfl, .inr (.inl hnull)⟩
  | false =>
      have hkind := sqlCmp_isSome_iff hnull hexisting
      cases hord : sqlCmp v existing with
      | none =>
          refine .inr ⟨⟨.panic, by simp [hord, Outcome.unwrap, Outcome.bind]⟩, ?_⟩
          rintro (h | h | h)
          · rw [hexisting] at h
            cases h
          · rw [hnull] at h
            cases h
          · rw [hord] at hkind
            cases hkind.mpr h.symm
      | some ord =>
          rw [hord] at hkind
          have heq := hkind.mp rfl
          refine .inl ⟨if ord = keep then v else existing, ?_, ?_, ?_, .inr (.inr heq.symm)⟩
          · have hunwrap : (Outcome.unwrap (sqlCmp v existing) : Outcome ExecError Ordering) = .ok ord := by
              rw [hord]
              rfl
            by_cases hkeep : ord = keep <;> simp [hunwrap, Outcome.bind, hkeep]
          · by_cases hkeep : ord = keep <;> simp [hkeep, hnull, hexisting]
          · by_cases hkeep : ord = keep <;> simp [hkeep, heq]

theorem stops_bestOf_some (hexisting : existing.isNull = false) :
    (bestOf keep vals (some existing)).Stops ↔ ∃ v ∈ vals, ¬Comparable existing v := by
  induction vals generalizing existing with
  | nil => simp [bestOf, pure]
  | cons v vals ih =>
      have hcons : bestOf keep (v :: vals) (some existing) =
          (Accumulator.better keep (some existing) v).bind (bestOf keep vals) := rfl
      rw [hcons, Outcome.stops_bind]
      have hbetter : (∃ best, Accumulator.better keep (some existing) v = .ok (some best) ∧
          best.isNull = false ∧ kindOf best = kindOf existing ∧ Comparable existing v) ∨
        (Accumulator.better keep (some existing) v).Stops ∧ ¬Comparable existing v :=
        better_some hexisting
      rcases hbetter with ⟨best, hbest, hnull, hkind, hcomparable⟩ | ⟨hstops, hno⟩
      · rw [hbest]
        have hsame : ∀ w, Comparable best w ↔ Comparable existing w := fun w => by
          simp [Comparable, hnull, hexisting, hkind]
        simp [ih hnull, hcomparable, hsame]
      · simp [hstops, hno]

theorem stops_bestOf : (bestOf keep vals none).Stops ↔ ¬MutuallyComparable vals := by
  induction vals with
  | nil => simp [bestOf, MutuallyComparable, pure]
  | cons v vals ih =>
      have hcons : bestOf keep (v :: vals) none =
          (Accumulator.better keep none v).bind (bestOf keep vals) := rfl
      rw [hcons]
      cases hnull : v.isNull with
      | true =>
          have hbetter : Accumulator.better keep none v = .ok none := by
            simp [Accumulator.better, hnull]
          rw [hbetter, Outcome.bind, ih]
          refine not_congr ⟨fun h => ?_, fun h a ha b hb =>
            h a (List.mem_cons_of_mem _ ha) b (List.mem_cons_of_mem _ hb)⟩
          intro a ha b hb
          rcases List.mem_cons.mp ha with rfl | ha
          · exact .inl hnull
          · rcases List.mem_cons.mp hb with rfl | hb
            · exact .inr (.inl hnull)
            · exact h a ha b hb
      | false =>
          have hbetter : Accumulator.better keep none v = .ok (some v) := by
            simp [Accumulator.better, hnull]
          rw [hbetter, Outcome.bind, stops_bestOf_some hnull, ← not_iff_not, not_not]
          push Not
          constructor
          · intro h a ha b hb
            have hv : ∀ w ∈ v :: vals, w.isNull ∨ kindOf v = kindOf w := by
              intro w hw
              rcases List.mem_cons.mp hw with rfl | hw
              · exact .inr rfl
              · exact (h w hw).resolve_left (by simp [hnull])
            rcases hv a ha with hnull' | hkind
            · exact .inl hnull'
            · rcases hv b hb with hnull' | hkind'
              · exact .inr (.inl hnull')
              · exact .inr (.inr (hkind.symm.trans hkind'))
          · exact fun h w hw => h v List.mem_cons_self w (List.mem_cons_of_mem _ hw)

end Extremum

/-! ## Groups -/

/-- A key that is found again in the map of the groups: it holds no NaN. -/
def Findable (key : List Value) : Prop := ∀ v ∈ key, sameKey v v = true

theorem sameKeys_self_iff {key : List Value} : sameKeys key key = true ↔ Findable key := by
  unfold sameKeys Findable
  rw [decide_eq_true rfl, Bool.true_and, List.all_eq_true]
  constructor
  · intro h v hv
    obtain ⟨i, hi⟩ := List.mem_iff_getElem?.mp hv
    exact h (v, v) (List.mem_of_getElem? (i := i) (by simp [List.getElem?_zip_eq_some, hi]))
  · rintro h ⟨v, w⟩ hmem
    obtain ⟨i, hi⟩ := List.mem_iff_getElem?.mp hmem
    obtain ⟨hv, hw⟩ := List.getElem?_zip_eq_some.mp hi
    simp only at hv hw
    obtain rfl := Option.some.inj (hv.symm.trans hw)
    exact h v (List.mem_of_getElem? hv)

/-- The row of a group, of which `HAVING` is evaluated. -/
def Group.row (group : Group) : Row := group.key ++ group.accumulators.map Accumulator.finalize

section Groups

variable (lib : Library) (schema : TableSchema)

/-- Every key is found again, and `HAVING` is safe on every row, up to the first error. -/
def FinishesSafely (having : Option Expr) : List Group → Prop
  | [] => True
  | group :: groups =>
      Findable group.key ∧ match having with
        | none => FinishesSafely having groups
        | some cond => Safe lib schema group.row .anonymous cond ∧
            ∀ v, Denotes lib schema group.row .anonymous cond v → FinishesSafely having groups

theorem stops_finishGroups {having : Option Expr} {groups : List Group} :
    (finishGroups lib schema having groups).Stops ↔ ¬FinishesSafely lib schema having groups := by
  induction groups with
  | nil => simp [finishGroups, FinishesSafely]
  | cons group groups ih =>
      rw [finishGroups, FinishesSafely.eq_def]
      by_cases hfind : sameKeys group.key group.key = true
      · have hfindable := sameKeys_self_iff.mp hfind
        cases having with
        | none => simp [hfind, Outcome.stops_bind, ih, hfindable]
        | some cond =>
            have hdenotes := denotes_iff lib schema group.row .anonymous cond
            have hstops := stops_iff lib schema group.row .anonymous cond
            simp only [Group.row] at hdenotes hstops ⊢
            simp only [hfind, hfindable, eval, hdenotes]
            cases heval : evalWithContext lib schema
              (group.key ++ group.accumulators.map Accumulator.finalize) .anonymous cond with
            | ok v =>
                rw [heval] at hstops
                have hsafe := not_not.mp fun h => Outcome.not_stops_ok (hstops.mpr h)
                have hrest (keep : Bool) : ¬((finishGroups lib schema (some cond) groups).bind fun rows =>
                    (.ok (if keep then (group.key ++ group.accumulators.map Accumulator.finalize) ::
                      rows else rows) : Outcome ExecError (List Row))).Stops ↔
                    FinishesSafely lib schema (some cond) groups := by
                  simp [Outcome.stops_bind, ih]
                simp [Outcome.mapError, Outcome.bind, hsafe, ← hrest (isTruthy v)]
            | error reason =>
                rw [heval] at hstops
                have hsafe := not_not.mp fun h => Outcome.not_stops_error (hstops.mpr h)
                simp [Outcome.mapError, Outcome.bind, hsafe]
            | stop why =>
                rw [heval] at hstops
                simp [Outcome.mapError, Outcome.bind, hstops.mp ⟨why, rfl⟩]
      · have hlost : ¬Findable group.key := fun h => hfind (sameKeys_self_iff.mpr h)
        simp [hfind, hlost]

end Groups

/-! ## All of it -/

/--
Evaluation returns a value or an error exactly for safe expressions, sorting for keys
that compare, `MIN` and `MAX` for values that compare, and grouping for keys without NaN
and a `HAVING` that is safe.
-/
theorem returns_iff (lib : Library) (schema : TableSchema) (row : Row) (ctx : ExecutionContext)
    (e : Expr) (keyIndex : Nat) (descending : Bool) (rows : List Row) (vals : List Value)
    (having : Option Expr) (groups : List Group) :
    (¬(evalWithContext lib schema row ctx e).Stops ↔ Safe lib schema row ctx e) ∧
    (¬(sortRows keyIndex descending rows).Stops ↔ Sortable keyIndex rows) ∧
    (¬(accumulate vals (.new (.min e))).Stops ↔ MutuallyComparable vals) ∧
    (¬(accumulate vals (.new (.max e))).Stops ↔ MutuallyComparable vals) ∧
    (¬(finishGroups lib schema having groups).Stops ↔
      FinishesSafely lib schema having groups) := by
  refine ⟨?_, ?_, ?_, ?_, ?_⟩
  · rw [stops_iff, not_not]
  · rw [stops_sortRows, not_not]
  · rw [Accumulator.new, accumulate_min, Outcome.stops_bind]
    simp [stops_bestOf]
  · rw [Accumulator.new, accumulate_max, Outcome.stops_bind]
    simp [stops_bestOf]
  · rw [stops_finishGroups, not_not]

/-- A number against a text, in a comparison, a sort and a maximum. -/
theorem mixed_kinds_panic :
    (evalWithContext plainLibrary ⟨"t", [], 0, false⟩ [] .anonymous
      (.binaryOp .eq (.intLiteral 1) (.stringLiteral "one"))).Stops ∧
    (sortRows 0 false [[.integer 1], [.text "one"]]).Stops ∧
    (accumulate [.integer 1, .text "one"] (.new (.max .null))).Stops := by
  refine ⟨⟨.panic, ?_⟩, ⟨.panic, ?_⟩, ⟨.panic, ?_⟩⟩
  · decide
  · decide
  · rfl

end ChocoBase.Plan
