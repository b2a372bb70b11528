/-!
# Traces of a labelled system

A system moves by actions; an action that is not possible in a state has no next
state.  A trace is a finite run in which every action is allowed in the state it
is taken in.
-/

namespace ChocoBase.Foundation

variable {σ α : Type}

inductive Trace (step : σ → α → Option σ) (allowed : σ → α → Prop) : σ → List α → σ → Prop
  | nil (s) : Trace step allowed s [] s
  | cons {s a s' as s''} (hallowed : allowed s a) (hstep : step s a = some s')
      (hrest : Trace step allowed s' as s'') : Trace step allowed s (a :: as) s''

namespace Trace

variable {step : σ → α → Option σ} {allowed allowed' : σ → α → Prop} {s s' : σ} {as : List α}

/-- What every allowed action keeps holds at the end of every trace. -/
theorem invariant {Inv : σ → Prop} (h : Trace step allowed s as s') (hs : Inv s)
    (hstep : ∀ s a s', Inv s → allowed s a → step s a = some s' → Inv s') : Inv s' := by
  induction h with
  | nil s => exact hs
  | cons hallowed hnext _ ih => exact ih (hstep _ _ _ hs hallowed hnext)

/-- What each action of the trace keeps, wherever it is taken, holds at its end. -/
theorem keeps {Inv : σ → Prop} (h : Trace step allowed s as s') (hs : Inv s)
    (hstep : ∀ a ∈ as, ∀ s s', Inv s → allowed s a → step s a = some s' → Inv s') : Inv s' := by
  induction h with
  | nil s => exact hs
  | cons hallowed hnext _ ih =>
      exact ih (hstep _ List.mem_cons_self _ _ hs hallowed hnext)
        fun a ha => hstep a (List.mem_cons_of_mem _ ha)

theorem weaken (h : Trace step allowed s as s') (hle : ∀ s a, allowed s a → allowed' s a) :
    Trace step allowed' s as s' := by
  induction h with
  | nil s => exact .nil s
  | cons hallowed hnext _ ih => exact .cons (hle _ _ hallowed) hnext ih

theorem append {s'' : σ} {as' : List α} (h : Trace step allowed s as s')
    (h' : Trace step allowed s' as' s'') : Trace step allowed s (as ++ as') s'' := by
  induction h with
  | nil s => exact h'
  | cons hallowed hnext _ ih => exact .cons hallowed hnext (ih h')

theorem of_append {as' : List α} (h : Trace step allowed s (as ++ as') s') :
    ∃ m, Trace step allowed s as m ∧ Trace step allowed m as' s' := by
  induction as generalizing s with
  | nil => exact ⟨s, .nil s, h⟩
  | cons a as ih =>
      cases h with
      | cons hallowed hnext hrest =>
          obtain ⟨m, hfirst, hlast⟩ := ih hrest
          exact ⟨m, .cons hallowed hnext hfirst, hlast⟩

/-- Under an invariant, what is allowed may be more than what was asked of each action. -/
theorem strengthen {Inv : σ → Prop} (h : Trace step allowed s as s') (hs : Inv s)
    (hstep : ∀ s a s', Inv s → allowed s a → step s a = some s' → allowed' s a ∧ Inv s') :
    Trace step allowed' s as s' := by
  induction h with
  | nil s => exact .nil s
  | cons hallowed hnext _ ih =>
      obtain ⟨hallowed', hs'⟩ := hstep _ _ _ hs hallowed hnext
      exact .cons hallowed' hnext (ih hs')

/-- A system that can do what another one does, step by step, can follow all of its traces. -/
theorem simulate {τ : Type} {next : τ → α → Option τ} {R : σ → τ → Prop} {t : τ}
    (h : Trace step allowed s as s') (hR : R s t)
    (hstep : ∀ s t a s', R s t → allowed s a → step s a = some s' →
      ∃ t', next t a = some t' ∧ R s' t') :
    ∃ t', Trace next (fun _ _ => True) t as t' ∧ R s' t' := by
  induction h generalizing t with
  | nil s => exact ⟨t, .nil t, hR⟩
  | cons hallowed hnext _ ih =>
      obtain ⟨t₁, hnext', hR'⟩ := hstep _ _ _ _ hR hallowed hnext
      obtain ⟨t', htrace, hR''⟩ := ih hR'
      exact ⟨t', .cons trivial hnext' htrace, hR''⟩

variable (step allowed) in
/-- The state that a run reaches, if all of its actions are possible and allowed. -/
def follow [∀ s a, Decidable (allowed s a)] : σ → List α → Option σ
  | s, [] => some s
  | s, a :: as => if allowed s a then (step s a).bind fun next => follow next as else none

theorem of_follow [∀ s a, Decidable (allowed s a)] (h : follow step allowed s as = some s') :
    Trace step allowed s as s' := by
  induction as generalizing s with
  | nil =>
      cases h
      exact .nil _
  | cons a as ih =>
      obtain ⟨hallowed, h⟩ := Option.ite_none_right_eq_some.mp h
      obtain ⟨s₁, hstep, h⟩ := Option.bind_eq_some_iff.mp h
      exact .cons hallowed hstep (ih h)

/-- A run that can be followed, and ends in a state that can be tested. -/
theorem exists_of_follow [∀ s a, Decidable (allowed s a)] {P : σ → Prop} [DecidablePred P]
    (h : ((follow step allowed s as).any fun s' => decide (P s')) = true) :
    ∃ s', Trace step allowed s as s' ∧ P s' := by
  obtain ⟨s', hs', hP⟩ := (Option.any_eq_true _ _).mp h
  exact ⟨s', of_follow hs', of_decide_eq_true hP⟩

theorem to_follow [∀ s a, Decidable (allowed s a)] (h : Trace step allowed s as s') :
    follow step allowed s as = some s' := by
  induction h with
  | nil s => rfl
  | cons hallowed hnext _ ih => rw [follow, if_pos hallowed, hnext, Option.bind_some, ih]

end Trace

end ChocoBase.Foundation
