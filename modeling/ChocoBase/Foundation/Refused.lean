import ChocoBase.Foundation.Printed

/-!
# Readers that refuse

A reader refuses a list of tokens when it stops with an error on everything that begins with
them.  What is refused behind a part that is taken makes the whole refused.
-/

namespace ChocoBase.Foundation

variable {σ ε α β γ τ : Type} {view : σ → List τ}

/-- The reader stops with an error on everything that begins with `ts`. -/
def Refuses (view : σ → List τ) (x : Exec σ ε α) (ts : List τ) : Prop :=
  ∀ s r, view s = ts ++ r → ∃ e s', x s = (.error e, s')

/-- What is taken is not refused. -/
theorem Takes.not_refuses {x : Exec σ ε α} {ts us : List τ} {a : α} {Q : τ → Prop} {t : τ}
    (h : Takes view x ts a Q) (ht : Q t) (s : σ) {r : List τ} (hview : view s = ts ++ t :: r)
    (hrefuses : Refuses view x us) (hstarts : us <+: ts) : False := by
  obtain ⟨vs, rfl⟩ := hstarts
  obtain ⟨s', hok, -⟩ := h s t r hview ht
  rw [List.append_assoc] at hview
  obtain ⟨e, s'', herror⟩ := hrefuses s _ hview
  rw [hok] at herror
  cases herror

namespace Refuses

variable {x : Exec σ ε α} {f : α → Exec σ ε β} {ts us : List τ} {u : τ} {a : α}
  {Q : τ → Prop}

theorem append (h : Refuses view x ts) (us : List τ) : Refuses view x (ts ++ us) := by
  intro s r hview
  rw [List.append_assoc] at hview
  exact h s _ hview

theorem bind (h : Refuses view x ts) : Refuses view (x >>= f) ts := by
  intro s r hview
  obtain ⟨e, s', hs⟩ := h s r hview
  exact ⟨e, s', Exec.bind_error hs⟩

/-- A part is taken, and what is behind it refused. -/
theorem after (hx : Takes view x ts a Q) (hf : Refuses view (f a) (u :: us)) (hu : Q u) :
    Refuses view (x >>= f) (ts ++ u :: us) := by
  intro s r hview
  rw [List.append_assoc, List.cons_append] at hview
  obtain ⟨s₁, hs₁, hview₁⟩ := hx s u (us ++ r) hview hu
  obtain ⟨e, s₂, hs₂⟩ := hf s₁ r hview₁
  exact ⟨e, s₂, (Exec.bind_ok hs₁).trans hs₂⟩

section Eat

variable {g : τ → Option γ} {eat : Exec σ ε (Option γ)} {q : γ → Exec σ ε β} {p : Exec σ ε β}
  {t : τ} {v : γ}

theorem hit (heat : TakesNext view g eat) (ht : g t = some v)
    (hq : Refuses view (q v) (u :: us)) :
    Refuses view (eat >>= fun o => match o with
      | some v => q v
      | none => p) (t :: u :: us) := by
  intro s r hview
  obtain ⟨s', hs', hview'⟩ := heat.hit hview ht
  rw [Exec.bind_ok hs']
  exact hq s' r hview'

theorem miss (heat : TakesNext view g eat) (ht : g t = none) (hp : Refuses view p (t :: us)) :
    Refuses view (eat >>= fun o => match o with
      | some v => q v
      | none => p) (t :: us) := by
  intro s r hview
  rw [Exec.bind_ok (heat.miss hview ht)]
  exact hp s r hview

/-- A loop takes some items and is refused in the next. -/
theorem loop (heat : TakesNext view g eat) {items : List (β × List τ)}
    (hitem : ∀ i ∈ items, ∃ w ws v, i.2 = w :: ws ∧ g w = some v ∧ Takes view (q v) ws i.1 Q)
    (hnext : ∀ w v, g w = some v → Q w) (ht : g t = some v)
    (hlast : Refuses view (q v) (u :: us)) {fuel : Nat} (hfuel : items.length < fuel) :
    Refuses view (whileSome eat q fuel) (items.flatMap Prod.snd ++ t :: u :: us) := by
  induction items generalizing fuel with
  | nil =>
      obtain ⟨fuel, rfl⟩ := Nat.exists_eq_succ_of_ne_zero (Nat.ne_of_gt hfuel)
      exact hit heat ht hlast.bind
  | cons i items ih =>
      obtain ⟨fuel, rfl⟩ := Nat.exists_eq_succ_of_ne_zero (Nat.ne_of_gt (Nat.zero_lt_of_lt hfuel))
      obtain ⟨w, ws, v', hi, hw, hbody⟩ := hitem i List.mem_cons_self
      have hrest := ih (fun j hj => hitem j (List.mem_cons_of_mem _ hj))
        (Nat.lt_of_succ_lt_succ hfuel)
      have hmore : ∃ y ys, items.flatMap Prod.snd ++ t :: u :: us = y :: ys ∧ Q y := by
        cases items with
        | nil => exact ⟨t, u :: us, rfl, hnext t v ht⟩
        | cons j items =>
            obtain ⟨y, ys, v'', hj, hy, -⟩ := hitem j (.tail _ (.head _))
            exact ⟨y, _, by rw [List.flatMap_cons, hj]; rfl, hnext y v'' hy⟩
      obtain ⟨y, ys, hyys, hy⟩ := hmore
      rw [hyys] at hrest
      rw [List.flatMap_cons, hi, List.append_assoc, hyys, List.cons_append]
      have hloop : Refuses view
          (q v' >>= fun value => whileSome eat q fuel >>= fun rest => pure (value :: rest))
          (ws ++ y :: ys) := after hbody hrest.bind hy
      intro s r hview
      obtain ⟨l, m, hlm⟩ : ∃ l m, (ws ++ y :: ys) ++ r = l :: m :=
        List.exists_cons_of_ne_nil (by simp)
      rw [List.cons_append, hlm] at hview
      obtain ⟨s', hs', hview'⟩ := heat.hit hview hw
      rw [whileSome, Exec.bind_ok hs']
      exact hloop s' r (hlm ▸ hview')

end Eat

end Refuses

end ChocoBase.Foundation
