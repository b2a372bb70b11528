import ChocoBase.Foundation.Contract

/-!
# What a program may return

`Returns` says which value a program returns after which requests, whoever answers
them.  What is true of every return is true of every run.
-/

namespace ChocoBase.Foundation.Prog

variable {I : Interface} {σ ε ε' α β : Type}

/-- With some answers to its requests, which are these, the program returns the value. -/
def Returns : Prog I ε α → List I.Op → α → Prop
  | .pure value, ops, a => ops = [] ∧ value = a
  | .throw _, _, _ => False
  | .halt _, _, _ => False
  | .call op next, ops, a => ∃ r rest, ops = op :: rest ∧ (next r).Returns rest a

theorem returns_of_run {H : Handler I σ} {x : Prog I ε α} {s s' : σ} {a : α}
    (h : x.run H s = (.ok a, s')) : x.Returns (x.calls H s) a := by
  induction x generalizing s with
  | pure value => cases h; exact ⟨rfl, rfl⟩
  | throw reason => cases h
  | halt why => cases h
  | call op next ih =>
      simp only [run] at h
      rcases hop : H op s with ⟨value | reason | why, s₁⟩ <;> rw [hop] at h
      · exact ⟨.ok value, _, by simp only [calls, hop], ih _ h⟩
      · exact ⟨.error reason, _, by simp only [calls, hop], ih _ h⟩
      · cases h

theorem returns_bind {x : Prog I ε α} {f : α → Prog I ε β} {ops : List I.Op} {b : β}
    (h : (x >>= f).Returns ops b) :
    ∃ a first rest, ops = first ++ rest ∧ x.Returns first a ∧ (f a).Returns rest b := by
  change (x.bind f).Returns ops b at h
  induction x generalizing ops with
  | pure value => exact ⟨value, [], ops, rfl, ⟨rfl, rfl⟩, h⟩
  | throw reason => cases h
  | halt why => cases h
  | call op next ih =>
      obtain ⟨r, ops', rfl, hnext⟩ := h
      obtain ⟨a, first, rest, rfl, hx, hf⟩ := ih r hnext
      exact ⟨a, op :: first, rest, rfl, ⟨r, first, rfl, hx⟩, hf⟩

theorem returns_mapError {convert : ε → ε'} {x : Prog I ε α} {ops : List I.Op} {a : α}
    (h : (x.mapError convert).Returns ops a) : x.Returns ops a := by
  induction x generalizing ops with
  | pure value => exact h
  | throw reason => cases h
  | halt why => cases h
  | call op next ih =>
      obtain ⟨r, rest, rfl, hnext⟩ := h
      exact ⟨r, rest, rfl, ih r hnext⟩

theorem returns_attempt {x : Prog I ε α} {ops : List I.Op} {a : α}
    (h : (x.attempt : Prog I ε' (Except ε α)).Returns ops (.ok a)) : x.Returns ops a := by
  induction x generalizing ops with
  | pure value => exact ⟨h.1, Except.ok.inj h.2⟩
  | throw reason => cases h.2
  | halt why => cases h
  | call op next ih =>
      obtain ⟨r, rest, rfl, hnext⟩ := h
      exact ⟨r, rest, rfl, ih r hnext⟩

theorem returns_ofOutcome {o : Outcome ε α} {ops : List I.Op} {a : α}
    (h : (ofOutcome o : Prog I ε α).Returns ops a) : ops = [] ∧ o = .ok a := by
  cases o with
  | ok value => exact ⟨h.1, congrArg _ h.2⟩
  | error reason => cases h
  | stop why => cases h

theorem returns_unwrap {o : Option α} {ops : List I.Op} {a : α}
    (h : (unwrap o : Prog I ε α).Returns ops a) : ops = [] ∧ o = some a := by
  cases o with
  | some value => exact ⟨h.1, congrArg _ h.2⟩
  | none => cases h

theorem returns_request {convert : I.Err → ε} {op : I.Op} {ops : List I.Op} {a : I.Res op}
    (h : (request convert op).Returns ops a) : ops = [op] := by
  obtain ⟨r, rest, rfl, hnext⟩ := h
  cases r with
  | ok value => rw [hnext.1]
  | error reason => cases hnext

/-- A loop that returns has done its body for each item. -/
theorem returns_forEach {body : β → α → Prog I ε β} {items : List α} {state final : β}
    {ops : List I.Op} (h : (forEach body items state).Returns ops final) :
    ∀ item ∈ items, ∃ before after part, (body before item).Returns part after ∧ part ⊆ ops := by
  induction items generalizing state ops with
  | nil => simp
  | cons item items ih =>
      obtain ⟨next, first, rest, rfl, hfirst, hrest⟩ := returns_bind h
      rintro item' (_ | ⟨_, hmem⟩)
      · exact ⟨state, next, first, hfirst, List.subset_append_left _ _⟩
      · obtain ⟨before, after, part, hpart, hsub⟩ := ih hrest item' hmem
        exact ⟨before, after, part, hpart, List.Subset.trans hsub (List.subset_append_right _ _)⟩

end ChocoBase.Foundation.Prog
