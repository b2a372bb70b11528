import ChocoBase.Foundation.Prog

/-!
# Programs that never panic

Whatever the requests of a program are answered, within what is allowed.
-/

namespace ChocoBase.Foundation.Prog

variable {I : Interface} {ε ε' α β : Type}
  {allowed : (op : I.Op) → Except I.Err (I.Res op) → Prop}

def NeverPanics (allowed : (op : I.Op) → Except I.Err (I.Res op) → Prop) : Prog I ε α → Prop
  | .pure _ => True
  | .throw _ => True
  | .halt why => why ≠ .panic
  | .call op next => ∀ r, allowed op r → (next r).NeverPanics allowed

theorem NeverPanics.bind {x : Prog I ε α} {f : α → Prog I ε β} (hx : x.NeverPanics allowed)
    (hf : ∀ value, (f value).NeverPanics allowed) : (x >>= f).NeverPanics allowed := by
  change (x.bind f).NeverPanics allowed
  induction x with
  | pure value => exact hf value
  | throw reason => trivial
  | halt why => exact hx
  | call op next ih => exact fun r hr => ih r (hx r hr)

theorem neverPanics_request {convert : I.Err → ε} {op : I.Op} :
    (request convert op).NeverPanics allowed :=
  fun r _ => by cases r <;> trivial

/-- A request, and what is done with the values that it may be answered with. -/
theorem NeverPanics.request_bind {convert : I.Err → ε} {op : I.Op} {f : I.Res op → Prog I ε β}
    (hf : ∀ value, allowed op (.ok value) → (f value).NeverPanics allowed) :
    (request convert op >>= f).NeverPanics allowed := by
  intro r hr
  cases r with
  | ok value => exact hf value hr
  | error reason => trivial

theorem neverPanics_attempt {x : Prog I ε α} :
    (x.attempt : Prog I ε' (Except ε α)).NeverPanics allowed ↔ x.NeverPanics allowed := by
  induction x with
  | pure value => rfl
  | throw reason => rfl
  | halt why => rfl
  | call op next ih => exact forall₂_congr fun r _ => ih r

theorem NeverPanics.ite {c : Prop} [Decidable c] {x y : Prog I ε α} (hx : x.NeverPanics allowed)
    (hy : y.NeverPanics allowed) : (if c then x else y).NeverPanics allowed := by
  split
  · exact hx
  · exact hy

end ChocoBase.Foundation.Prog
