import ChocoBase.Foundation.PartialSums
import ChocoBase.Plan.Grouping

/-!
# Sums and averages

`SUM` and `AVG` add up the integers among the values one by one, and leave out floats.
-/

namespace ChocoBase.Plan

open ChocoBase.Foundation ChocoBase.Sql ChocoBase.Types ChocoBase.Auth

/-! ## The accumulators -/

def i64Min : Int := -2 ^ 63

def i64Max : Int := 2 ^ 63 - 1

def integersOf (vals : List Value) : List Int64 :=
  vals.filterMap fun
    | .integer n => some n
    | _ => none

def amounts (vals : List Value) : List Int := (integersOf vals).map Int64.toInt

section Accumulators

variable {v : Value} {vals : List Value} {s c : Int64} {acc : Accumulator}

theorem addChecked_eq_ok {m n k : Int64} : Accumulator.addChecked m n = .ok k ↔
    (i64Min ≤ m.toInt + n.toInt ∧ m.toInt + n.toInt ≤ i64Max) ∧ k.toInt = m.toInt + n.toInt := by
  unfold Accumulator.addChecked i64Min i64Max
  dsimp only
  split
  · next h =>
      have hsum : (m + n).toInt = m.toInt + n.toInt := by
        rw [Int64.toInt_add]
        exact Int.bmod_eq_of_le (by omega) (by omega)
      rw [Outcome.ok.injEq, ← Int64.toInt_inj, hsum]
      omega
  · next h =>
      simp only [reduceCtorEq, false_iff]
      omega

theorem addChecked_of_range {m n : Int64}
    (h : i64Min ≤ m.toInt + n.toInt ∧ m.toInt + n.toInt ≤ i64Max) :
    Accumulator.addChecked m n = .ok (m + n) := by
  unfold i64Min i64Max at h
  exact if_pos ⟨h.1, by omega⟩

theorem update_ne_error {val : Option Value} {reason : ExecError} :
    acc.update val ≠ .error reason := by
  have hadd (m n : Int64) (f : Int64 → Outcome ExecError Accumulator) (hf : ∀ k, f k ≠ .error reason) :
      (Accumulator.addChecked m n).bind f ≠ .error reason := by
    unfold Accumulator.addChecked
    dsimp only
    split
    · exact hf _
    · rintro ⟨⟩
  have hbetter (keep : Ordering) (current : Option Value) (v : Value)
      (f : Option Value → Accumulator) :
      (Accumulator.better keep current v).bind (fun best => .ok (f best)) ≠ .error reason := by
    unfold Accumulator.better
    split
    · rintro ⟨⟩
    · cases current with
      | none => rintro ⟨⟩
      | some existing =>
          cases hord : sqlCmp v existing <;> simp [hord, Outcome.unwrap, Outcome.bind]
  unfold Accumulator.update
  split
  · exact hadd _ _ _ fun _ => by rintro ⟨⟩
  · split
    · rintro ⟨⟩
    · rintro ⟨⟩
    · exact hadd _ _ _ fun _ => by rintro ⟨⟩
  · split
    · exact hadd _ _ _ fun _ => by rintro ⟨⟩
    · rintro ⟨⟩
  · split
    · exact hadd _ _ _ fun _ => hadd _ _ _ fun _ => by rintro ⟨⟩
    · rintro ⟨⟩
  · split
    · exact hbetter _ _ _ _
    · rintro ⟨⟩
  · split
    · exact hbetter _ _ _ _
    · rintro ⟨⟩

theorem accumulate_cons : accumulate (v :: vals) acc =
    (acc.update (some v)).bind (accumulate vals) := rfl

theorem accumulate_ne_error {reason : ExecError} : accumulate vals acc ≠ .error reason := by
  induction vals generalizing acc with
  | nil => nofun
  | cons v vals ih =>
      rw [accumulate_cons]
      cases hupdate : acc.update (some v) with
      | ok acc => exact ih
      | error e => exact absurd hupdate update_ne_error
      | stop why => nofun

/-- A value that is no integer changes nothing. -/
theorem amounts_cons_of_ne (h : ∀ n, v ≠ .integer n) : amounts (v :: vals) = amounts vals := by
  unfold amounts integersOf
  cases v <;> simp_all

theorem amounts_cons (n : Int64) : amounts (.integer n :: vals) = n.toInt :: amounts vals := rfl

theorem accumulate_sum_of_ne (h : ∀ n, v ≠ .integer n) :
    accumulate (v :: vals) (.sum s) = accumulate vals (.sum s) := by
  rw [accumulate_cons]
  cases v <;> first | rfl | exact absurd rfl (h _)

theorem accumulate_avg_of_ne (h : ∀ n, v ≠ .integer n) :
    accumulate (v :: vals) (.avg s c) = accumulate vals (.avg s c) := by
  rw [accumulate_cons]
  cases v <;> first | rfl | exact absurd rfl (h _)

theorem integer_or_ne (v : Value) : (∃ n, v = .integer n) ∨ ∀ n, v ≠ .integer n := by
  cases v <;> simp

theorem accumulate_sum_eq_ok : accumulate vals (.sum s) = .ok acc ↔
    SumsWithin i64Min i64Max s.toInt (amounts vals) ∧
      ∃ total, acc = .sum total ∧ total.toInt = s.toInt + (amounts vals).sum := by
  induction vals generalizing s with
  | nil => simp [accumulate, amounts, integersOf, SumsWithin, Int64.toInt_inj, pure, eq_comm]
  | cons v vals ih =>
      rcases integer_or_ne v with ⟨n, rfl⟩ | hv
      · have hcons : accumulate (.integer n :: vals) (.sum s) =
            (Accumulator.addChecked s n).bind fun s => accumulate vals (.sum s) := by
          rw [accumulate_cons, Accumulator.update, Outcome.bind_assoc]
          rfl
        rw [hcons, amounts_cons, SumsWithin, List.sum_cons]
        refine Outcome.bind_eq_ok.trans ?_
        constructor
        · rintro ⟨s', hs', h⟩
          obtain ⟨hrange, hs'⟩ := addChecked_eq_ok.mp hs'
          obtain ⟨hsums, total, rfl, htotal⟩ := ih.mp h
          exact ⟨⟨hrange, hs' ▸ hsums⟩, total, rfl, by omega⟩
        · rintro ⟨⟨hrange, hsums⟩, total, rfl, htotal⟩
          have hs' := addChecked_of_range hrange
          have hadd := (addChecked_eq_ok.mp hs').2
          exact ⟨s + n, hs', ih.mpr ⟨hadd ▸ hsums, total, rfl, by omega⟩⟩
      · rw [accumulate_sum_of_ne hv, amounts_cons_of_ne hv, ih]

theorem accumulate_avg_eq_ok : accumulate vals (.avg s c) = .ok acc ↔
    SumsWithin i64Min i64Max s.toInt (amounts vals) ∧
      c.toInt + (amounts vals).length ≤ i64Max ∧
        ∃ total count, acc = .avg total count ∧ total.toInt = s.toInt + (amounts vals).sum ∧
          count.toInt = c.toInt + (amounts vals).length := by
  induction vals generalizing s c with
  | nil =>
      have hc := c.toInt_lt
      simp [accumulate, amounts, integersOf, SumsWithin, Int64.toInt_inj, pure, eq_comm, i64Max]
      omega
  | cons v vals ih =>
      rcases integer_or_ne v with ⟨n, rfl⟩ | hv
      · have hcons : accumulate (.integer n :: vals) (.avg s c) =
            (Accumulator.addChecked s n).bind fun s => (Accumulator.addChecked c 1).bind fun c =>
              accumulate vals (.avg s c) := by
          rw [accumulate_cons, Accumulator.update, Outcome.bind_assoc]
          refine congrArg _ (funext fun s => ?_)
          rw [Outcome.bind_assoc]
          rfl
        have hone : (1 : Int64).toInt = 1 := rfl
        rw [hcons, amounts_cons, SumsWithin, List.sum_cons, List.length_cons]
        refine Outcome.bind_eq_ok.trans ?_
        constructor
        · rintro ⟨s', hs', h⟩
          obtain ⟨c', hc', h⟩ := Outcome.bind_eq_ok.mp h
          obtain ⟨hrange, hs'⟩ := addChecked_eq_ok.mp hs'
          obtain ⟨-, hc'⟩ := addChecked_eq_ok.mp hc'
          obtain ⟨hsums, hcount, total, count, rfl, htotal, hcount'⟩ := ih.mp h
          exact ⟨⟨hrange, hs' ▸ hsums⟩, by omega, total, count, rfl, by omega, by omega⟩
        · rintro ⟨⟨hrange, hsums⟩, hcount, total, count, rfl, htotal, hcount'⟩
          have hmin := c.le_toInt
          have hs' := addChecked_of_range hrange
          have hc' : Accumulator.addChecked c 1 = .ok (c + 1) :=
            addChecked_of_range ⟨by unfold i64Min; omega, by omega⟩
          have hsum := (addChecked_eq_ok.mp hs').2
          have hadd := (addChecked_eq_ok.mp hc').2
          refine ⟨s + n, hs', Outcome.bind_eq_ok.mpr ⟨c + 1, hc', ih.mpr ?_⟩⟩
          exact ⟨hsum ▸ hsums, by omega, total, count, rfl, by omega, by omega⟩
      · rw [accumulate_avg_of_ne hv, amounts_cons_of_ne hv, ih]

end Accumulators

/-! ## One group -/

section Queries

variable (lib : Library) (schema : TableSchema)

/-- The value of the argument on a row. -/
def argument (e : Expr) (row : Row) : Value :=
  match evalForGroup lib schema row e with
  | .ok v => v
  | _ => .null

/-- The answer of an aggregate without `GROUP BY`. -/
def answer (func : AggregateFunc) (rows : List Row) : Outcome ExecError (List Row) :=
  (aggregate lib schema none [func] none ⟨rows, .ok ()⟩).outcome

variable {lib schema} {e : Expr} {func : AggregateFunc} {rows : List Row}

theorem groupRows_ungrouped : ∀ {acc : Accumulator},
    groupRows lib schema none [func] rows [⟨[], [acc]⟩] =
      (rows.foldlM (fun acc row => updateOne lib schema row acc func) acc).bind fun acc =>
        .ok [⟨[], [acc]⟩] := by
  induction rows with
  | nil => exact rfl
  | cons row rows ih =>
      intro acc
      have hstep : updateGroup lib schema [func] row [] [⟨[], [acc]⟩] =
          (updateOne lib schema row acc func).bind fun acc => .ok [⟨[], [acc]⟩] := by
        rw [updateGroup, if_pos (show sameKeys [] [] = true from rfl), updateAll, Outcome.bind_assoc]
        rfl
      change (updateGroup lib schema [func] row [] [⟨[], [acc]⟩]).bind
        (groupRows lib schema none [func] rows) = _
      rw [hstep, List.foldlM_cons, Outcome.bind_assoc]
      change _ = ((updateOne lib schema row acc func).bind fun acc =>
        rows.foldlM (fun acc row => updateOne lib schema row acc func) acc).bind _
      rw [Outcome.bind_assoc]
      exact congrArg _ (funext fun acc => ih)

theorem answer_eq : answer lib schema func rows =
    (aggregated lib schema rows func).bind fun acc => .ok [[acc.finalize]] := by
  unfold answer aggregate
  rw [outcome_ofOutcome]
  cases rows with
  | nil => rfl
  | cons row rows =>
      have hfirst : groupRows lib schema none [func] (row :: rows) [] =
          groupRows lib schema none [func] (row :: rows) [⟨[], [.new func]⟩] := by
        rfl
      rw [hfirst, groupRows_ungrouped, Outcome.bind_assoc]
      rfl

/-- The aggregates that take the value of an argument. -/
theorem aggregated_eq_accumulate
    (hfunc : ∀ row acc, updateOne lib schema row acc func =
      (evalForGroup lib schema row e).bind fun v => acc.update (some v))
    (h : ∀ row ∈ rows, evalForGroup lib schema row e = .ok (argument lib schema e row)) :
    aggregated lib schema rows func = accumulate (rows.map (argument lib schema e)) (.new func) := by
  unfold aggregated
  generalize Accumulator.new func = acc
  induction rows generalizing acc with
  | nil => rfl
  | cons row rows ih =>
      obtain ⟨hrow, hrows⟩ := List.forall_mem_cons.mp h
      rw [List.foldlM_cons, hfunc, hrow, List.map_cons, accumulate_cons]
      exact congrArg _ (funext fun acc => ih hrows acc)

/-! ## Right answers -/

def Numeric : Value → Prop
  | .integer _ | .float _ | .null => True
  | _ => False

/-- The sum of values: all that are not null are integers, and it adds them up. -/
def IsSum (vals : List Value) (v : Value) : Prop :=
  ∃ ns : List Int64, vals.filter (fun v => !v.isNull) = ns.map .integer ∧
    ∃ total : Int64, v = .integer total ∧ total.toInt = (ns.map Int64.toInt).sum

/-- Their average, without a remainder. -/
def IsAverage (vals : List Value) (v : Value) : Prop :=
  ∃ ns : List Int64, vals.filter (fun v => !v.isNull) = ns.map .integer ∧
    (ns = [] ∧ v = .null ∨ ns ≠ [] ∧ ∃ q : Int64, v = .integer q ∧
      q.toInt * ns.length = (ns.map Int64.toInt).sum)

/-- A right value, or an error where there is none. -/
def AnswersWith (right : Value → Prop) (outcome : Outcome ExecError (List Row)) : Prop :=
  (∃ v, outcome = .ok [[v]] ∧ right v) ∨ (∃ reason, outcome = .error reason) ∧ ∀ v, ¬right v

/-- No floats, and both the positive and the negative ones alone fit. -/
def SumFits (vals : List Value) : Prop :=
  (∀ x, .float x ∉ vals) ∧ i64Min ≤ negativeSum (amounts vals) ∧
    positiveSum (amounts vals) ≤ i64Max

def AverageFits (vals : List Value) : Prop :=
  SumFits vals ∧ (amounts vals).length ≤ i64Max ∧
    ((amounts vals).length : Int) ∣ (amounts vals).sum

section Values

variable {vals : List Value} {ns : List Int64}

theorem eq_integersOf (h : vals.filter (fun v => !v.isNull) = ns.map .integer) :
    ns = integersOf vals := by
  have hfilter : integersOf vals = integersOf (vals.filter fun v => !v.isNull) := by
    unfold integersOf
    rw [List.filterMap_filter]
    refine List.filterMap_congr fun v _ => ?_
    cases v <;> rfl
  rw [hfilter, h]
  simp [integersOf, List.filterMap_map]

theorem floatless_iff (hnumeric : ∀ v ∈ vals, Numeric v) :
    (∀ x, .float x ∉ vals) ↔
      vals.filter (fun v => !v.isNull) = (integersOf vals).map .integer := by
  constructor
  · intro h
    induction vals with
    | nil => rfl
    | cons v vals ih =>
        obtain ⟨hv, hvals⟩ := List.forall_mem_cons.mp hnumeric
        have hrest := ih hvals fun x hx => h x (List.mem_cons_of_mem _ hx)
        unfold integersOf at hrest ⊢
        cases v with
        | float x => exact absurd List.mem_cons_self (h x)
        | integer n => exact congrArg (List.cons (Value.integer n)) hrest
        | null => exact hrest
        | text s | boolean b | json s | vector xs => exact hv.elim
  · intro h x hx
    have hmem : Value.float x ∈ vals.filter fun v => !v.isNull :=
      List.mem_filter.mpr ⟨hx, rfl⟩
    rw [h] at hmem
    simp at hmem

theorem isSum_iff (hnumeric : ∀ v ∈ vals, Numeric v) {v : Value} : IsSum vals v ↔
    (∀ x, .float x ∉ vals) ∧ ∃ total : Int64, v = .integer total ∧
      total.toInt = (amounts vals).sum := by
  rw [floatless_iff hnumeric]
  constructor
  · rintro ⟨ns, hns, h⟩
    obtain rfl := eq_integersOf hns
    exact ⟨hns, h⟩
  · rintro ⟨hns, h⟩
    exact ⟨_, hns, h⟩

theorem isAverage_iff (hnumeric : ∀ v ∈ vals, Numeric v) {v : Value} : IsAverage vals v ↔
    (∀ x, .float x ∉ vals) ∧ (amounts vals = [] ∧ v = .null ∨ amounts vals ≠ [] ∧
      ∃ q : Int64, v = .integer q ∧ q.toInt * (amounts vals).length = (amounts vals).sum) := by
  rw [floatless_iff hnumeric]
  simp only [amounts, List.map_eq_nil_iff, List.length_map, ne_eq]
  constructor
  · rintro ⟨ns, hns, h⟩
    obtain rfl := eq_integersOf hns
    exact ⟨hns, h⟩
  · rintro ⟨hns, h⟩
    exact ⟨_, hns, h⟩

theorem amounts_filter {p : Int → Bool} {q : Value → Bool} (h : ∀ n, q (.integer n) = p n.toInt) :
    amounts (vals.filter q) = (amounts vals).filter p := by
  induction vals with
  | nil => rfl
  | cons v vals ih =>
      rcases integer_or_ne v with ⟨n, rfl⟩ | hv
      · rw [amounts_cons, List.filter_cons, List.filter_cons, h]
        split
        · rw [amounts_cons, ih]
        · exact ih
      · rw [amounts_cons_of_ne hv, List.filter_cons]
        split
        · rw [amounts_cons_of_ne hv, ih]
        · exact ih

theorem amounts_append {vals' : List Value} :
    amounts (vals ++ vals') = amounts vals ++ amounts vals' := by
  simp [amounts, integersOf]

/-- If the values may be added up in every order of the rows, they have the envelope. -/
theorem envelope_of_orders {f : Row → Value}
    (h : ∀ rows' : List Row, rows'.Perm rows →
      SumsWithin i64Min i64Max 0 (amounts (rows'.map f))) :
    i64Min ≤ negativeSum (amounts (rows.map f)) ∧
      positiveSum (amounts (rows.map f)) ≤ i64Max := by
  refine envelope_of_sumsWithin (by decide) (by decide) fun p => ?_
  let q : Value → Bool
    | .integer n => p n.toInt
    | _ => false
  have hfilter (q : Value → Bool) :
      (rows.filter fun row => q (f row)).map f = (rows.map f).filter q :=
    List.filter_map.symm
  have hsums := h _ (List.filter_append_perm (fun row => q (f row)) rows)
  rw [List.map_append, amounts_append, hfilter q, hfilter fun v => !q v,
    amounts_filter (p := p) fun _ => rfl, amounts_filter (p := fun x => !p x) fun _ => rfl] at hsums
  exact hsums

end Values

/-! ## The answers -/

variable (lib schema) in
/-- Right answers, in whatever order the rows come. -/
def AnswersInOrder (func : AggregateFunc) (right : List Value → Value → Prop) (e : Expr)
    (rows : List Row) : Prop :=
  ∀ rows' : List Row, rows'.Perm rows →
    AnswersWith (right (rows'.map (argument lib schema e))) (answer lib schema func rows')

variable (lib schema) in
/-- The argument has a number or null on each row. -/
def NumericOn (e : Expr) (rows : List Row) : Prop :=
  ∀ row ∈ rows, evalForGroup lib schema row e = .ok (argument lib schema e row) ∧
    Numeric (argument lib schema e row)

section Answers

variable {rows' : List Row} (hrows : NumericOn lib schema e rows)
include hrows

theorem numeric_of_perm (hperm : rows'.Perm rows) :
    ∀ v ∈ rows'.map (argument lib schema e), Numeric v := by
  intro v hv
  obtain ⟨row, hrow, rfl⟩ := List.mem_map.mp hv
  exact (hrows row (hperm.mem_iff.mp hrow)).2

theorem answer_sum (hperm : rows'.Perm rows) : answer lib schema (.sum e) rows' =
    (accumulate (rows'.map (argument lib schema e)) (.sum 0)).bind fun acc =>
      .ok [[acc.finalize]] := by
  rw [answer_eq, aggregated_eq_accumulate (e := e) (fun _ _ => rfl) fun row hrow =>
    (hrows row (hperm.mem_iff.mp hrow)).1]
  rfl

theorem answer_avg (hperm : rows'.Perm rows) : answer lib schema (.avg e) rows' =
    (accumulate (rows'.map (argument lib schema e)) (.avg 0 0)).bind fun acc =>
      .ok [[acc.finalize]] := by
  rw [answer_eq, aggregated_eq_accumulate (e := e) (fun _ _ => rfl) fun row hrow =>
    (hrows row (hperm.mem_iff.mp hrow)).1]
  rfl

omit hrows in
theorem amounts_perm (hperm : rows'.Perm rows) :
    (amounts (rows'.map (argument lib schema e))).Perm
      (amounts (rows.map (argument lib schema e))) :=
  ((hperm.map _).filterMap _).map _

omit hrows in
theorem sumsWithin_of_perm (hperm : rows'.Perm rows)
    (hfits : SumFits (rows.map (argument lib schema e))) :
    SumsWithin i64Min i64Max 0 (amounts (rows'.map (argument lib schema e))) :=
  (sumsWithin_everyOrder_iff (by decide) (by decide)).mpr hfits.2 _ (amounts_perm hperm)

omit hrows in
/-- A sum that stays within the bounds is an `i64`. -/
theorem exists_total {xs : List Int} (h : SumsWithin i64Min i64Max 0 xs) :
    ∃ total : Int64, total.toInt = xs.sum := by
  have hsum := h.sum (by decide) (by decide)
  rw [Int.zero_add] at hsum
  unfold i64Min i64Max at hsum
  exact ⟨.ofInt xs.sum, Int64.toInt_ofInt_of_le hsum.1 (by omega)⟩

theorem sum_answers_iff : AnswersInOrder lib schema (.sum e) IsSum e rows ↔
    SumFits (rows.map (argument lib schema e)) := by
  constructor
  · intro h
    have hok (rows' : List Row) (hperm : rows'.Perm rows) :
        SumsWithin i64Min i64Max 0 (amounts (rows'.map (argument lib schema e))) ∧
          ∃ v, IsSum (rows'.map (argument lib schema e)) v := by
      have hanswer := h rows' hperm
      rw [answer_sum hrows hperm] at hanswer
      rcases hanswer with ⟨v, hv, hright⟩ | ⟨⟨reason, hreason⟩, -⟩
      · obtain ⟨acc, hacc, -⟩ := Outcome.bind_eq_ok.mp hv
        exact ⟨(accumulate_sum_eq_ok.mp hacc).1, v, hright⟩
      · cases hacc : accumulate (rows'.map (argument lib schema e)) (.sum 0) with
        | ok acc => simp [hacc, Outcome.bind] at hreason
        | error e => exact absurd hacc accumulate_ne_error
        | stop why => simp [hacc, Outcome.bind] at hreason
    obtain ⟨v, hv⟩ := (hok rows (.refl _)).2
    exact ⟨((isSum_iff (numeric_of_perm hrows (.refl _))).mp hv).1,
      envelope_of_orders fun rows' hperm => (hok rows' hperm).1⟩
  · intro hfits rows' hperm
    have hsums := sumsWithin_of_perm hperm hfits
    obtain ⟨total, htotal⟩ := exists_total hsums
    have hacc : accumulate (rows'.map (argument lib schema e)) (.sum 0) = .ok (.sum total) :=
      accumulate_sum_eq_ok.mpr ⟨hsums, total, rfl, by simpa using htotal⟩
    refine .inl ⟨.integer total, ?_, (isSum_iff (numeric_of_perm hrows hperm)).mpr
      ⟨fun x hx => hfits.1 x ((hperm.map _).mem_iff.mp hx), total, rfl, htotal⟩⟩
    rw [answer_sum hrows hperm, hacc]
    rfl

omit hrows in
theorem toInt_eq_zero_iff {c : Int64} : c = 0 ↔ c.toInt = 0 := by
  rw [← Int64.toInt_inj]
  rfl

omit hrows in
/-- The quotient is exact if there is no remainder. -/
theorem finalize_avg {xs : List Int} {total count : Int64} (htotal : total.toInt = xs.sum)
    (hcount : count.toInt = xs.length) (hdvd : (xs.length : Int) ∣ xs.sum) :
    xs = [] ∧ (Accumulator.avg total count).finalize = .null ∨ xs ≠ [] ∧
      ∃ q : Int64, (Accumulator.avg total count).finalize = .integer q ∧
        q.toInt * xs.length = xs.sum := by
  unfold Accumulator.finalize
  dsimp only
  by_cases hzero : count = 0
  · rw [if_pos hzero]
    rw [toInt_eq_zero_iff, hcount] at hzero
    exact .inl ⟨List.length_eq_zero_iff.mp (by omega), rfl⟩
  · rw [if_neg hzero]
    rw [toInt_eq_zero_iff, hcount] at hzero
    refine .inr ⟨fun h => hzero (by simp [h]), total / count, rfl, ?_⟩
    have hne : count ≠ -1 := by
      rintro rfl
      have hminus : (-1 : Int64).toInt = -1 := rfl
      omega
    rw [Int64.toInt_div_of_ne_right _ _ hne, htotal, hcount]
    exact Int.tdiv_mul_cancel hdvd

theorem average_answers_iff : AnswersInOrder lib schema (.avg e) IsAverage e rows ↔
    AverageFits (rows.map (argument lib schema e)) := by
  constructor
  · intro h
    have hok (rows' : List Row) (hperm : rows'.Perm rows) :
        (SumsWithin i64Min i64Max 0 (amounts (rows'.map (argument lib schema e))) ∧
          (amounts (rows'.map (argument lib schema e))).length ≤ i64Max) ∧
          ∃ v, IsAverage (rows'.map (argument lib schema e)) v := by
      have hanswer := h rows' hperm
      rw [answer_avg hrows hperm] at hanswer
      rcases hanswer with ⟨v, hv, hright⟩ | ⟨⟨reason, hreason⟩, -⟩
      · obtain ⟨acc, hacc, -⟩ := Outcome.bind_eq_ok.mp hv
        obtain ⟨hsums, hcount, -⟩ := accumulate_avg_eq_ok.mp hacc
        exact ⟨⟨hsums, by simpa using hcount⟩, v, hright⟩
      · cases hacc : accumulate (rows'.map (argument lib schema e)) (.avg 0 0) with
        | ok acc => simp [hacc, Outcome.bind] at hreason
        | error e => exact absurd hacc accumulate_ne_error
        | stop why => simp [hacc, Outcome.bind] at hreason
    obtain ⟨⟨-, hcount⟩, v, hv⟩ := hok rows (.refl _)
    obtain ⟨hfloatless, hv⟩ := (isAverage_iff (numeric_of_perm hrows (.refl _))).mp hv
    refine ⟨⟨hfloatless, envelope_of_orders fun rows' hperm => (hok rows' hperm).1.1⟩, hcount, ?_⟩
    rcases hv with ⟨hnil, -⟩ | ⟨-, q, -, hq⟩
    · simp [hnil]
    · exact ⟨q.toInt, by rw [← hq, Int.mul_comm]⟩
  · intro ⟨hfits, hcount, hdvd⟩ rows' hperm
    have hsums := sumsWithin_of_perm hperm hfits
    have hamounts : (amounts (rows'.map (argument lib schema e))).Perm
        (amounts (rows.map (argument lib schema e))) := amounts_perm hperm
    rw [← hamounts.length_eq] at hcount hdvd
    rw [← hamounts.sum_eq] at hdvd
    obtain ⟨total, htotal⟩ := exists_total hsums
    have hlength : (Int64.ofInt (amounts (rows'.map (argument lib schema e))).length).toInt =
        (amounts (rows'.map (argument lib schema e))).length := by
      unfold i64Max at hcount
      exact Int64.toInt_ofInt_of_le (by omega) (by omega)
    have hacc : accumulate (rows'.map (argument lib schema e)) (.avg 0 0) =
        .ok (.avg total (.ofInt (amounts (rows'.map (argument lib schema e))).length)) :=
      accumulate_avg_eq_ok.mpr ⟨hsums, by simpa using hcount, total, _, rfl, by simpa using htotal,
        by simpa using hlength⟩
    refine .inl ⟨_, ?_, (isAverage_iff (numeric_of_perm hrows hperm)).mpr
      ⟨fun x hx => hfits.1 x ((hperm.map _).mem_iff.mp hx), finalize_avg htotal hlength hdvd⟩⟩
    rw [answer_avg hrows hperm, hacc]
    rfl

end Answers

/-- In a grouped query, each group has the answers of its own rows. -/
theorem forall₂_answer {groupBy : Option (List Expr)} {funcs : List AggregateFunc}
    {group : Group} (h : Aggregates lib schema (rowsOf lib schema (groupBy.getD []) group.key rows)
      funcs group.accumulators) :
    List.Forall₂ (fun func v => answer lib schema func
      (rowsOf lib schema (groupBy.getD []) group.key rows) = .ok [[v]]) funcs
        (group.accumulators.map Accumulator.finalize) := by
  rw [List.forall₂_map_right_iff]
  refine h.imp fun func acc hacc => ?_
  rw [answer_eq, hacc]
  rfl

/--
`SUM` and `AVG` have right answers in every order of the rows exactly if there is no float
and the positive values and the negative ones alone fit, and for `AVG` nothing remains; a
grouped query has for each group the answers of its rows.
-/
theorem sums_answer_iff (lib : Library) (schema : TableSchema) (e : Expr) (rows : List Row)
    (hrows : NumericOn lib schema e rows) :
    (AnswersInOrder lib schema (.sum e) IsSum e rows ↔
      SumFits (rows.map (argument lib schema e))) ∧
    (AnswersInOrder lib schema (.avg e) IsAverage e rows ↔
      AverageFits (rows.map (argument lib schema e))) ∧
    ∀ groupBy funcs having input out,
      (aggregate lib schema groupBy funcs having input).outcome = .ok out →
        ∃ groups : List Group, (∀ row, row ∈ out → ∃ group ∈ groups, row = group.row) ∧
          (∀ key, key ∈ groups.map Group.key ↔ IsKey lib schema groupBy input.rows key) ∧
          ∀ group ∈ groups, List.Forall₂ (fun func v => answer lib schema func
            (rowsOf lib schema (groupBy.getD []) group.key input.rows) = .ok [[v]]) funcs
              (group.accumulators.map Accumulator.finalize) := by
  refine ⟨sum_answers_iff hrows, average_answers_iff hrows, ?_⟩
  intro groupBy funcs having input out h
  obtain ⟨-, groups, hgroups, -, rfl⟩ := groupsOf_aggregate h
  refine ⟨groups, fun row hrow => ?_, hgroups.mem_iff, fun group hgroup =>
    forall₂_answer (hgroups.aggregates group hgroup)⟩
  obtain ⟨group, hgroup, rfl⟩ := List.mem_map.mp hrow
  exact ⟨group, List.mem_of_mem_filter hgroup, rfl⟩

end Queries

/-! ## Overflow on the way, and floats -/

def amountSchema : TableSchema := ⟨"sales", [⟨"amount", .integer, false, false⟩], 3, false⟩

theorem sums_answer_two :
    AnswersInOrder plainLibrary amountSchema (.sum (.column "amount")) IsSum (.column "amount")
        [[.integer 1], [.integer 3]] ∧
      AnswersInOrder plainLibrary amountSchema (.avg (.column "amount")) IsAverage
        (.column "amount") [[.integer 1], [.integer 3]] := by
  have hrows : NumericOn plainLibrary amountSchema (.column "amount")
      [[.integer 1], [.integer 3]] := by
    intro row hrow
    simp only [List.mem_cons, List.not_mem_nil, or_false] at hrow
    rcases hrow with rfl | rfl <;> exact ⟨rfl, trivial⟩
  have hanswers := sums_answer_iff plainLibrary amountSchema (.column "amount")
    [[.integer 1], [.integer 3]] hrows
  have hfits : SumFits [.integer 1, .integer 3] := ⟨by simp, by decide, by decide⟩
  exact ⟨hanswers.1.mpr hfits, hanswers.2.1.mpr ⟨hfits, by decide, by decide⟩⟩

/-- The sum of all fits, and the sum of the first two does not; floats are no part of a sum. -/
theorem partial_sum_overflows :
    let e := Expr.column "amount"
    let sum := answer plainLibrary amountSchema (.sum e)
    let avg := answer plainLibrary amountSchema (.avg e)
    (sum [[.integer Int64.maxValue], [.integer 1], [.integer (-1)]] = .stop .overflow ∧
      sum [[.integer 1], [.integer (-1)], [.integer Int64.maxValue]] =
        .ok [[.integer Int64.maxValue]] ∧
      ¬AnswersInOrder plainLibrary amountSchema (.sum e) IsSum e
        [[.integer 1], [.integer (-1)], [.integer Int64.maxValue]]) ∧
    (sum [[.float 1.5], [.integer 1]] = .ok [[.integer 1]] ∧
      avg [[.float 1.5], [.integer 1]] = .ok [[.integer 1]] ∧
      avg [[.integer 1], [.integer 2]] = .ok [[.integer 1]]) := by
  have hoverflow : answer plainLibrary amountSchema (.sum (.column "amount"))
      [[.integer Int64.maxValue], [.integer 1], [.integer (-1)]] = .stop .overflow := by decide
  refine ⟨⟨hoverflow, by decide, fun h => ?_⟩, rfl, rfl, rfl⟩
  have hperm : [[Value.integer Int64.maxValue], [.integer 1], [.integer (-1)]].Perm
      [[.integer 1], [.integer (-1)], [.integer Int64.maxValue]] := by decide
  rcases h _ hperm with ⟨v, hv, -⟩ | ⟨⟨reason, hreason⟩, -⟩
  · cases hoverflow.symm.trans hv
  · cases hoverflow.symm.trans hreason

end ChocoBase.Plan
