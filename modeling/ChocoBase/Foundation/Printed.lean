import ChocoBase.Foundation.Yields

/-!
# Readers of printed values

A reader takes the tokens that a value is printed as, and stops in front of the token
that follows, as long as that is one of those that may follow.
-/

namespace ChocoBase.Foundation

variable {σ ε α β τ : Type} {view : σ → List τ}

/-- The reader takes `ts` in front of any token of `Q`, and returns `a`. -/
def Takes (view : σ → List τ) (x : Exec σ ε α) (ts : List τ) (a : α) (Q : τ → Prop) : Prop :=
  ∀ s t r, view s = ts ++ t :: r → Q t → ∃ s', x s = (.ok a, s') ∧ view s' = t :: r

/-- Take the next token if the pattern matches; behind it there are more. -/
structure TakesNext (view : σ → List τ) (f : τ → Option α) (eat : Exec σ ε (Option α)) :
    Prop where
  hit : ∀ {s t u r v}, view s = t :: u :: r → f t = some v →
    ∃ s', eat s = (.ok (some v), s') ∧ view s' = u :: r
  miss : ∀ {s t r}, view s = t :: r → f t = none → eat s = (.ok none, s)

namespace Takes

variable {x : Exec σ ε α} {ts us : List τ} {a : α} {b : β} {Q R : τ → Prop}

theorem mono (h : Takes view x ts a Q) (hle : ∀ t, R t → Q t) : Takes view x ts a R :=
  fun s t r hview ht => h s t r hview (hle t ht)

theorem pure (a : α) : Takes view (Pure.pure a : Exec σ ε α) [] a Q :=
  fun s _ _ hview _ => ⟨s, rfl, hview⟩

/-- The first reader stops in front of what the second takes, or of what follows that. -/
theorem bind {f : α → Exec σ ε β} (hx : Takes view x ts a Q) (hf : Takes view (f a) us b R)
    (hnext : ∀ t, R t → Q (us.headD t)) : Takes view (x >>= f) (ts ++ us) b R := by
  intro s t r hview ht
  rw [List.append_assoc] at hview
  have hstop : ∃ u v, us ++ t :: r = u :: v ∧ Q u := by
    cases us with
    | nil => exact ⟨t, r, rfl, hnext t ht⟩
    | cons u us => exact ⟨u, us ++ t :: r, rfl, hnext t ht⟩
  obtain ⟨u, v, huv, hu⟩ := hstop
  obtain ⟨s₁, hs₁, hview₁⟩ := hx s u v (huv ▸ hview) hu
  rw [← huv] at hview₁
  obtain ⟨s₂, hs₂, hview₂⟩ := hf s₁ t r hview₁ ht
  exact ⟨s₂, (Exec.bind_ok hs₁).trans hs₂, hview₂⟩

theorem map (hx : Takes view x ts a Q) (k : α → β) :
    Takes view (x >>= fun v => Pure.pure (k v)) ts (k a) Q := by
  have h := hx.bind (f := fun v => Pure.pure (k v)) (R := Q) (Takes.pure (k a)) fun t ht => ht
  rwa [List.append_nil] at h

/-- A test of the next token that takes nothing. -/
theorem look {c : τ → Bool} {test : Exec σ ε Bool} {p q : Exec σ ε α} (yes : Bool)
    (htest : ∀ s t r, view s = t :: r → test s = (.ok (c t), s))
    (hc : ∀ t, R t → c (ts.headD t) = yes)
    (hx : Takes view (if yes = true then p else q) ts a R) :
    Takes view (test >>= fun yes => if yes = true then p else q) ts a R := by
  intro s t r hview ht
  have hhead : ∃ v, view s = ts.headD t :: v := by
    cases ts with
    | nil => exact ⟨r, hview⟩
    | cons u ts => exact ⟨ts ++ t :: r, hview⟩
  obtain ⟨v, hv⟩ := hhead
  rw [Exec.bind_ok (htest s _ v hv), hc t ht]
  exact hx s t r hview ht

section Eat

variable {γ : Type} {f : τ → Option γ} {eat : Exec σ ε (Option γ)} {q : γ → Exec σ ε β}
  {p : Exec σ ε β}

theorem hit (heat : TakesNext view f eat) {t : τ} {v : γ} (ht : f t = some v)
    (hq : Takes view (q v) ts b R) :
    Takes view (eat >>= fun o => match o with
      | some v => q v
      | none => p) (t :: ts) b R := by
  intro s u r hview hu
  have hmore : ∃ w l, ts ++ u :: r = w :: l := List.exists_cons_of_ne_nil (by simp)
  obtain ⟨w, l, hwl⟩ := hmore
  rw [List.cons_append, hwl] at hview
  obtain ⟨s', hs', hview'⟩ := heat.hit hview ht
  rw [Exec.bind_ok hs']
  exact hq s' u r (hwl ▸ hview') hu

theorem miss (heat : TakesNext view f eat) (hmiss : ∀ t, R t → f (ts.headD t) = none)
    (hp : Takes view p ts b R) :
    Takes view (eat >>= fun o => match o with
      | some v => q v
      | none => p) ts b R := by
  intro s t r hview ht
  have hhead : ∃ v, view s = ts.headD t :: v := by
    cases ts with
    | nil => exact ⟨r, hview⟩
    | cons u ts => exact ⟨ts ++ t :: r, hview⟩
  obtain ⟨v, hv⟩ := hhead
  rw [Exec.bind_ok (heat.miss hv (hmiss t ht))]
  exact hp s t r hview ht

/--
Items that each begin with a token that the loop takes; what may follow an item is the
item's own.
-/
theorem loop (heat : TakesNext view f eat) {body : γ → Exec σ ε β} {items : List (β × List τ)}
    {Q : β × List τ → τ → Prop}
    (hitem : ∀ i ∈ items, ∃ u us v, i.2 = u :: us ∧ f u = some v ∧
      Takes view (body v) us i.1 (Q i))
    (hnext : ∀ i ∈ items, ∀ u v, f u = some v → Q i u)
    (hstop : ∀ t, R t → f t = none ∧ ∀ i ∈ items.getLast?, Q i t) {fuel : Nat}
    (hfuel : items.length < fuel) :
    Takes view (whileSome eat body fuel) (items.flatMap Prod.snd) (items.map Prod.fst) R := by
  induction items generalizing fuel with
  | nil =>
      obtain ⟨fuel, rfl⟩ := Nat.exists_eq_succ_of_ne_zero (Nat.ne_of_gt hfuel)
      exact miss heat (fun t ht => (hstop t ht).1) (Takes.pure [])
  | cons i items ih =>
      obtain ⟨fuel, rfl⟩ := Nat.exists_eq_succ_of_ne_zero (Nat.ne_of_gt (Nat.zero_lt_of_lt hfuel))
      obtain ⟨u, us, v, hi, hu, hbody⟩ := hitem i List.mem_cons_self
      have hlast : ∀ t, R t → f t = none ∧ ∀ j ∈ items.getLast?, Q j t := by
        refine fun t ht => ⟨(hstop t ht).1, fun j hj => (hstop t ht).2 j ?_⟩
        cases items with
        | nil => cases hj
        | cons k items => rwa [List.getLast?_cons_cons]
      have hrest := ih (fun j hj => hitem j (List.mem_cons_of_mem _ hj))
        (fun j hj => hnext j (List.mem_cons_of_mem _ hj)) hlast (Nat.lt_of_succ_lt_succ hfuel)
      have hafter : ∀ t, R t → Q i ((items.flatMap Prod.snd).headD t) := by
        intro t ht
        cases items with
        | nil => exact (hstop t ht).2 i rfl
        | cons j items =>
            obtain ⟨w, ws, v', hj, hw, -⟩ := hitem j (.tail _ (.head _))
            rw [List.flatMap_cons, hj]
            exact hnext i List.mem_cons_self w v' hw
      rw [List.flatMap_cons, hi]
      exact hit heat hu (hbody.bind (hrest.map (i.1 :: ·)) hafter)

end Eat

end Takes

end ChocoBase.Foundation
