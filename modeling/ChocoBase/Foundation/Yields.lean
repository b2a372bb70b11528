import ChocoBase.Foundation.Grammar

/-!
# What a computation yields

Whatever state it starts from, every value that the computation returns is of this kind.
-/

namespace ChocoBase.Foundation.Exec

variable {σ ε α β : Type} {P : α → Prop} {Q : β → Prop}

def Yields (P : α → Prop) (x : Exec σ ε α) : Prop := ∀ s a s', x s = (.ok a, s') → P a

theorem yields_pure {a : α} (h : P a) : Yields P (pure a : Exec σ ε α) := by
  intro s a' s' heq
  cases heq
  exact h

theorem yields_throw (e : ε) : Yields P (Exec.throw e : Exec σ ε α) := fun _ _ _ heq => by
  cases heq

theorem yields_halt (why : Stop) : Yields P (Exec.halt why : Exec σ ε α) := fun _ _ _ heq => by
  cases heq

theorem yields_any (x : Exec σ ε α) : Yields (fun _ => True) x := fun _ _ _ _ => trivial

/-- A sequence that returns consists of two parts that do. -/
theorem exists_of_bind_ok {x : Exec σ ε α} {f : α → Exec σ ε β} {s s'' : σ} {b : β}
    (h : (x >>= f) s = (.ok b, s'')) : ∃ a s', x s = (.ok a, s') ∧ f a s' = (.ok b, s'') := by
  rw [bind_apply] at h
  split at h
  · next a s' hrun => exact ⟨a, s', hrun, h⟩
  · cases h
  · cases h

theorem Yields.bind {x : Exec σ ε α} {f : α → Exec σ ε β} (hx : Yields P x)
    (hf : ∀ a, P a → Yields Q (f a)) : Yields Q (x >>= f) := by
  intro s b s' heq
  obtain ⟨a, s₁, hrun, heq⟩ := exists_of_bind_ok heq
  exact hf a (hx s a s₁ hrun) _ _ _ heq

/-- What does not matter for the value. -/
theorem yields_seq {x : Exec σ ε α} {f : α → Exec σ ε β} (hf : ∀ a, Yields Q (f a)) :
    Yields Q (x >>= f) :=
  (yields_any x).bind fun a _ => hf a

theorem Yields.mono {P' : α → Prop} {x : Exec σ ε α} (hx : Yields P x) (h : ∀ a, P a → P' a) :
    Yields P' x := fun s a s' heq => h a (hx s a s' heq)

theorem Yields.whileSome {eat : Exec σ ε (Option α)} {body : α → Exec σ ε β}
    (hbody : ∀ a, Yields Q (body a)) (fuel : Nat) :
    Yields (fun bs => ∀ b ∈ bs, Q b) (whileSome eat body fuel) := by
  induction fuel with
  | zero => exact yields_halt _
  | succ fuel ih =>
      refine yields_seq fun next => ?_
      cases next with
      | none => exact yields_pure (by simp)
      | some a =>
          refine (hbody a).bind fun b hb => ih.bind fun rest hrest => yields_pure ?_
          rintro b' (_ | ⟨_, hmem⟩)
          · exact hb
          · exact hrest b' hmem

end ChocoBase.Foundation.Exec
