import ChocoBase.Foundation.Exec

/-!
# Programs over a request interface

A `Prog` is a program that talks to a component only through the requests of an
`Interface`.  The same program can be run on every handler of that interface, so
code written once runs on the real component and on its specification machine.

`Simulates` relates two handlers request by request; `run_simulates` lifts that
to whole programs.  `calls` lists the requests a run issues, and `wp` is the
weakest precondition of a program under an assumption on its requests.
-/

namespace ChocoBase.Foundation

structure Interface where
  Op : Type
  Res : Op → Type
  Err : Type

inductive Prog (I : Interface) (ε α : Type) : Type where
  | pure (value : α)
  | throw (reason : ε)
  | halt (why : Stop)
  | call (op : I.Op) (next : Except I.Err (I.Res op) → Prog I ε α)

abbrev Handler (I : Interface) (σ : Type) : Type :=
  (op : I.Op) → Exec σ I.Err (I.Res op)

namespace Prog

variable {I : Interface} {σ σ₁ σ₂ ε ε' α β : Type}

def bind : Prog I ε α → (α → Prog I ε β) → Prog I ε β
  | .pure value, f => f value
  | .throw reason, _ => .throw reason
  | .halt why, _ => .halt why
  | .call op next, f => .call op fun r => (next r).bind f

instance : Monad (Prog I ε) where
  pure := .pure
  bind := bind

/-- Issue a request and propagate its error, converted to the caller's type. -/
def request (convert : I.Err → ε) (op : I.Op) : Prog I ε (I.Res op) :=
  .call op fun
    | .ok value => .pure value
    | .error reason => .throw (convert reason)

def unwrap : Option α → Prog I ε α
  | some value => .pure value
  | none => .halt .panic

def ofOutcome : Outcome ε α → Prog I ε α
  | .ok value => .pure value
  | .error reason => .throw reason
  | .stop why => .halt why

def mapError (convert : ε → ε') : Prog I ε α → Prog I ε' α
  | .pure value => .pure value
  | .throw reason => .throw (convert reason)
  | .halt why => .halt why
  | .call op next => .call op fun r => (next r).mapError convert

/-- Turn the error of a program into a value, as a caller that ignores it does. -/
def attempt : Prog I ε α → Prog I ε' (Except ε α)
  | .pure value => .pure (.ok value)
  | .throw reason => .pure (.error reason)
  | .halt why => .halt why
  | .call op next => .call op fun r => (next r).attempt

def run (H : Handler I σ) : Prog I ε α → Exec σ ε α
  | .pure value => fun s => (.ok value, s)
  | .throw reason => fun s => (.error reason, s)
  | .halt why => fun s => (.stop why, s)
  | .call op next => fun s =>
      match H op s with
      | (.ok value, s') => (next (.ok value)).run H s'
      | (.error reason, s') => (next (.error reason)).run H s'
      | (.stop why, s') => (.stop why, s')

/-- The requests a run issues, in order. -/
def calls (H : Handler I σ) : Prog I ε α → σ → List I.Op
  | .pure _, _ => []
  | .throw _, _ => []
  | .halt _, _ => []
  | .call op next, s =>
      op :: match H op s with
        | (.ok value, s') => (next (.ok value)).calls H s'
        | (.error reason, s') => (next (.error reason)).calls H s'
        | (.stop _, _) => []

@[simp] theorem run_pure (H : Handler I σ) (value : α) (s : σ) :
    (pure value : Prog I ε α).run H s = (.ok value, s) := rfl

theorem run_request_ok {H : Handler I σ} {convert : I.Err → ε} {op : I.Op} {value : I.Res op}
    {s s' : σ} (h : H op s = (.ok value, s')) :
    (request convert op).run H s = (.ok value, s') := by
  simp only [request, run, h]

theorem run_bind (H : Handler I σ) (x : Prog I ε α) (f : α → Prog I ε β) :
    (x >>= f).run H = x.run H >>= fun value => (f value).run H := by
  change (x.bind f).run H = _
  induction x with
  | pure value => rfl
  | throw reason => rfl
  | halt why => rfl
  | call op next ih =>
      funext s
      rw [Exec.bind_apply]
      simp only [bind, run]
      rcases H op s with ⟨value | reason | why, s'⟩
      · exact congrFun (ih _) s'
      · exact congrFun (ih _) s'
      · rfl

theorem run_attempt (H : Handler I σ) (x : Prog I ε α) :
    (x.attempt : Prog I ε' (Except ε α)).run H = Exec.attempt (x.run H) := by
  induction x with
  | pure value => rfl
  | throw reason => rfl
  | halt why => rfl
  | call op next ih =>
      funext s
      simp only [attempt, Exec.attempt, run]
      rcases H op s with ⟨value | reason | why, s'⟩
      · exact congrFun (ih _) s'
      · exact congrFun (ih _) s'
      · rfl

theorem run_attempt_ok {H : Handler I σ} {x : Prog I ε α} {s s' : σ} {a : α}
    (h : (x.attempt : Prog I ε' (Except ε α)).run H s = (.ok (.ok a), s')) :
    x.run H s = (.ok a, s') := by
  rw [run_attempt, Exec.attempt] at h
  rcases hx : x.run H s with ⟨value | reason | why, s₁⟩
  · rw [hx] at h
    cases h
    rfl
  · rw [hx] at h
    cases h
  · rw [hx] at h
    cases h

theorem run_bind_ok {H : Handler I σ} {x : Prog I ε α} {f : α → Prog I ε β} {s s' : σ} {a : α}
    (h : x.run H s = (.ok a, s')) : (x >>= f).run H s = (f a).run H s' := by
  rw [run_bind, Exec.bind_ok h]

theorem run_bind_stop {H : Handler I σ} {x : Prog I ε α} {f : α → Prog I ε β} {s s' : σ}
    {why : Stop} (h : x.run H s = (.stop why, s')) : (x >>= f).run H s = (.stop why, s') := by
  rw [run_bind, Exec.bind_stop h]

theorem run_request_bind {H : Handler I σ} {convert : I.Err → ε} {op : I.Op} {value : I.Res op}
    {s s' : σ} (h : H op s = (.ok value, s')) (f : I.Res op → Prog I ε β) :
    (request convert op >>= f).run H s = (f value).run H s' := by
  rw [run_bind, Exec.bind_ok (run_request_ok h)]

/-- A sequence that ends well consists of two runs that do. -/
theorem exists_of_bind_ok {H : Handler I σ} {x : Prog I ε α} {f : α → Prog I ε β} {s s'' : σ}
    {b : β} (h : (x >>= f).run H s = (.ok b, s'')) :
    ∃ a s', x.run H s = (.ok a, s') ∧ (f a).run H s' = (.ok b, s'') ∧
      (x >>= f).calls H s = x.calls H s ++ (f a).calls H s' := by
  change (x.bind f).run H s = _ at h
  change ∃ a s', _ ∧ _ ∧ (x.bind f).calls H s = _
  induction x generalizing s with
  | pure value => exact ⟨value, s, rfl, h, rfl⟩
  | throw reason => cases h
  | halt why => cases h
  | call op next ih =>
      simp only [bind, calls, run] at h ⊢
      rcases hop : H op s with ⟨value | reason | why, s₁⟩
      · rw [hop] at h
        obtain ⟨a, s', hx, hf, hcalls⟩ := ih _ h
        exact ⟨a, s', hx, hf, by simp [hcalls]⟩
      · rw [hop] at h
        obtain ⟨a, s', hx, hf, hcalls⟩ := ih _ h
        exact ⟨a, s', hx, hf, by simp [hcalls]⟩
      · rw [hop] at h
        cases h

/-- A sequence that fails does so in its first part or in its second. -/
theorem cases_of_bind_error {H : Handler I σ} {x : Prog I ε α} {f : α → Prog I ε β} {s s'' : σ}
    {e : ε} (h : (x >>= f).run H s = (.error e, s'')) :
    x.run H s = (.error e, s'') ∨
      ∃ a s', x.run H s = (.ok a, s') ∧ (f a).run H s' = (.error e, s'') := by
  rw [run_bind, Exec.bind_apply] at h
  rcases hx : x.run H s with ⟨a | e' | why, s'⟩
  · rw [hx] at h
    exact .inr ⟨a, s', rfl, h⟩
  · rw [hx] at h
    cases h
    exact .inl rfl
  · rw [hx] at h
    cases h

/-- Every request that some run of the program may issue is in `P`. -/
def Only (P : I.Op → Prop) : Prog I ε α → Prop
  | .pure _ => True
  | .throw _ => True
  | .halt _ => True
  | .call op next => P op ∧ ∀ r, (next r).Only P

theorem Only.bind {P : I.Op → Prop} {x : Prog I ε α} {f : α → Prog I ε β} (hx : x.Only P)
    (hf : ∀ value, (f value).Only P) : (x >>= f).Only P := by
  change (x.bind f).Only P
  induction x with
  | pure value => exact hf value
  | throw reason => trivial
  | halt why => trivial
  | call op next ih => exact ⟨hx.1, fun r => ih r (hx.2 r)⟩

theorem only_request {P : I.Op → Prop} {convert : I.Err → ε} {op : I.Op} (h : P op) :
    (request convert op).Only P :=
  ⟨h, fun r => by cases r <;> trivial⟩

theorem only_unwrap {P : I.Op → Prop} (o : Option α) : (unwrap o : Prog I ε α).Only P := by
  cases o <;> trivial

theorem Only.calls {P : I.Op → Prop} {x : Prog I ε α} (h : x.Only P) (H : Handler I σ) (s : σ) :
    ∀ op ∈ x.calls H s, P op := by
  induction x generalizing s with
  | pure value => exact fun _ hop => by cases hop
  | throw reason => exact fun _ hop => by cases hop
  | halt why => exact fun _ hop => by cases hop
  | call op next ih =>
      intro op' hop
      simp only [Prog.calls, List.mem_cons] at hop
      cases hop with
      | inl heq => exact heq ▸ h.1
      | inr hrest =>
          rcases hresult : H op s with ⟨value | reason | why, s'⟩
          · rw [hresult] at hrest
            exact ih _ (h.2 _) s' op' hrest
          · rw [hresult] at hrest
            exact ih _ (h.2 _) s' op' hrest
          · rw [hresult] at hrest
            cases hrest

/-! ## Simulation -/

/--
The handler `H₁` does what the specification machine `H₂` does, on related
states, for every request to which the specification gives a meaning.
-/
def Simulates (R : σ₁ → σ₂ → Prop) (H₁ : Handler I σ₁) (H₂ : Handler I σ₂) : Prop :=
  ∀ op s₁ s₂, R s₁ s₂ → (H₂ op s₂).1 ≠ .stop .misuse →
    (H₁ op s₁).1 = (H₂ op s₂).1 ∧ R (H₁ op s₁).2 (H₂ op s₂).2

theorem run_simulates {R : σ₁ → σ₂ → Prop} {H₁ : Handler I σ₁} {H₂ : Handler I σ₂}
    (sim : Simulates R H₁ H₂) (x : Prog I ε α) {s₁ : σ₁} {s₂ : σ₂} (hR : R s₁ s₂)
    (hdefined : (x.run H₂ s₂).1 ≠ .stop .misuse) :
    (x.run H₁ s₁).1 = (x.run H₂ s₂).1 ∧ R (x.run H₁ s₁).2 (x.run H₂ s₂).2 ∧
      x.calls H₁ s₁ = x.calls H₂ s₂ := by
  induction x generalizing s₁ s₂ with
  | pure value => exact ⟨rfl, hR, rfl⟩
  | throw reason => exact ⟨rfl, hR, rfl⟩
  | halt why => exact ⟨rfl, hR, rfl⟩
  | call op next ih =>
      have step := sim op s₁ s₂ hR
      simp only [run, calls] at hdefined ⊢
      rcases h₂ : H₂ op s₂ with ⟨o₂, s₂'⟩
      rcases h₁ : H₁ op s₁ with ⟨o₁, s₁'⟩
      rw [h₂, h₁] at step
      simp only [h₂] at hdefined
      cases o₂ with
      | ok value =>
          obtain ⟨rfl, hR'⟩ := step (by simp)
          obtain ⟨hout, hR'', hcalls⟩ := ih (.ok value) hR' hdefined
          exact ⟨hout, hR'', by simp [hcalls]⟩
      | error reason =>
          obtain ⟨rfl, hR'⟩ := step (by simp)
          obtain ⟨hout, hR'', hcalls⟩ := ih (.error reason) hR' hdefined
          exact ⟨hout, hR'', by simp [hcalls]⟩
      | stop why =>
          obtain ⟨rfl, hR'⟩ := step (by simpa using hdefined)
          exact ⟨rfl, hR', rfl⟩

/-- The specification machine sees the same requests, as long as it gives them a meaning. -/
theorem calls_prefix {R : σ₁ → σ₂ → Prop} {H₁ : Handler I σ₁} {H₂ : Handler I σ₂}
    (sim : Simulates R H₁ H₂) (x : Prog I ε α) {s₁ : σ₁} {s₂ : σ₂} (hR : R s₁ s₂) :
    x.calls H₂ s₂ <+: x.calls H₁ s₁ := by
  induction x generalizing s₁ s₂ with
  | pure value => exact List.prefix_rfl
  | throw reason => exact List.prefix_rfl
  | halt why => exact List.prefix_rfl
  | call op next ih =>
      have step := sim op s₁ s₂ hR
      simp only [calls]
      rcases h₂ : H₂ op s₂ with ⟨o₂, s₂'⟩
      rcases h₁ : H₁ op s₁ with ⟨o₁, s₁'⟩
      rw [h₂, h₁] at step
      cases o₂ with
      | ok value =>
          obtain ⟨rfl, hR'⟩ := step (by simp)
          exact (List.prefix_cons_inj op).mpr (ih (.ok value) hR')
      | error reason =>
          obtain ⟨rfl, hR'⟩ := step (by simp)
          exact (List.prefix_cons_inj op).mpr (ih (.error reason) hR')
      | stop why => exact (List.prefix_cons_inj op).mpr List.nil_prefix

/-! ## Weakest preconditions under an assumption on the requests -/

open Exec (Post)

def wp (H : Handler I σ) (allowed : I.Op → Prop) : Prog I ε α → Post σ ε α → σ → Prop
  | .pure value, Q, s => Q.ok value s
  | .throw reason, Q, s => Q.error reason s
  | .halt why, Q, s => Q.stop why s
  | .call op next, Q, s => allowed op →
      match H op s with
      | (.ok value, s') => (next (.ok value)).wp H allowed Q s'
      | (.error reason, s') => (next (.error reason)).wp H allowed Q s'
      | (.stop why, s') => Q.stop why s'

section Rules

variable {H : Handler I σ} {allowed : I.Op → Prop}

@[simp] theorem wp_pure (value : α) (Q : Post σ ε α) (s : σ) :
    (pure value : Prog I ε α).wp H allowed Q s ↔ Q.ok value s := Iff.rfl

@[simp] theorem wp_pure' (value : α) (Q : Post σ ε α) (s : σ) :
    (Prog.pure value : Prog I ε α).wp H allowed Q s ↔ Q.ok value s := Iff.rfl

@[simp] theorem wp_throw (reason : ε) (Q : Post σ ε α) (s : σ) :
    (Prog.throw reason : Prog I ε α).wp H allowed Q s ↔ Q.error reason s := Iff.rfl

@[simp] theorem wp_halt (why : Stop) (Q : Post σ ε α) (s : σ) :
    (Prog.halt why : Prog I ε α).wp H allowed Q s ↔ Q.stop why s := Iff.rfl

@[simp] theorem wp_unwrap_some (value : α) (Q : Post σ ε α) (s : σ) :
    (unwrap (some value) : Prog I ε α).wp H allowed Q s ↔ Q.ok value s := Iff.rfl

@[simp] theorem wp_bind (x : Prog I ε α) (f : α → Prog I ε β) (Q : Post σ ε β) (s : σ) :
    (x >>= f).wp H allowed Q s ↔
      x.wp H allowed (Q.withOk fun value s' => (f value).wp H allowed Q s') s := by
  change (x.bind f).wp H allowed Q s ↔ _
  induction x generalizing s with
  | pure value => exact Iff.rfl
  | throw reason => exact Iff.rfl
  | halt why => exact Iff.rfl
  | call op next ih =>
      simp only [bind, wp]
      refine imp_congr_right fun _ => ?_
      rcases H op s with ⟨value | reason | why, s'⟩
      · exact ih _ s'
      · exact ih _ s'
      · exact Iff.rfl

theorem wp_mono {x : Prog I ε α} {Q R : Post σ ε α} {s : σ} (h : x.wp H allowed Q s)
    (hok : ∀ value s', Q.ok value s' → R.ok value s')
    (herror : ∀ reason s', Q.error reason s' → R.error reason s')
    (hstop : ∀ why s', Q.stop why s' → R.stop why s') : x.wp H allowed R s := by
  induction x generalizing s with
  | pure value => exact hok _ _ h
  | throw reason => exact herror _ _ h
  | halt why => exact hstop _ _ h
  | call op next ih =>
      intro hop
      have h := h hop
      revert h
      rcases H op s with ⟨value | reason | why, s'⟩
      · exact fun h => ih _ h
      · exact fun h => ih _ h
      · exact hstop _ _

/-- Sequencing rule: establish an intermediate condition, then continue from it. -/
theorem wp_seq {x : Prog I ε α} {f : α → Prog I ε β} {M : Post σ ε α} {Q : Post σ ε β}
    {s : σ} (h : x.wp H allowed M s)
    (hok : ∀ value s', M.ok value s' → (f value).wp H allowed Q s')
    (herror : ∀ reason s', M.error reason s' → Q.error reason s')
    (hstop : ∀ why s', M.stop why s' → Q.stop why s') : (x >>= f).wp H allowed Q s :=
  (wp_bind x f Q s).mpr (wp_mono h hok herror hstop)

theorem wp_mapError (convert : ε → ε') (x : Prog I ε α) (Q : Post σ ε' α) (s : σ) :
    (x.mapError convert).wp H allowed Q s ↔
      x.wp H allowed ⟨Q.ok, fun e s' => Q.error (convert e) s', Q.stop⟩ s := by
  induction x generalizing s with
  | pure value => exact Iff.rfl
  | throw reason => exact Iff.rfl
  | halt why => exact Iff.rfl
  | call op next ih =>
      simp only [mapError, wp]
      refine imp_congr_right fun _ => ?_
      rcases H op s with ⟨value | reason | why, s'⟩
      · exact ih _ s'
      · exact ih _ s'
      · exact Iff.rfl

theorem wp_attempt (x : Prog I ε α) (Q : Post σ ε' (Except ε α)) (s : σ) :
    (x.attempt).wp H allowed Q s ↔
      x.wp H allowed
        ⟨fun a s' => Q.ok (.ok a) s', fun e s' => Q.ok (.error e) s', Q.stop⟩ s := by
  induction x generalizing s with
  | pure value => exact Iff.rfl
  | throw reason => exact Iff.rfl
  | halt why => exact Iff.rfl
  | call op next ih =>
      simp only [attempt, wp]
      refine imp_congr_right fun _ => ?_
      rcases H op s with ⟨value | reason | why, s'⟩
      · exact ih _ s'
      · exact ih _ s'
      · exact Iff.rfl

/-- A request whose answer is known. -/
theorem wp_request_ok {convert : I.Err → ε} {op : I.Op} {value : I.Res op} {s s' : σ}
    (h : H op s = (.ok value, s')) (Q : Post σ ε (I.Res op)) :
    (request convert op).wp H allowed Q s ↔ (allowed op → Q.ok value s') := by
  simp [request, wp, h]

/-- What was proved under the assumption holds of a run whose requests meet it. -/
theorem wp_sound {x : Prog I ε α} {Q : Post σ ε α} {s : σ} (h : x.wp H allowed Q s)
    (hcalls : ∀ op ∈ x.calls H s, allowed op) : Exec.wp (x.run H) Q s := by
  induction x generalizing s with
  | pure value => exact h
  | throw reason => exact h
  | halt why => exact h
  | call op next ih =>
      have hnext := h (hcalls op (by simp [calls]))
      simp only [calls, List.mem_cons, forall_eq_or_imp] at hcalls
      have hrest := hcalls.2
      unfold Exec.wp
      simp only [run]
      revert hnext hrest
      rcases H op s with ⟨value | reason | why, s'⟩
      · exact fun hnext hrest => ih _ hnext hrest
      · exact fun hnext hrest => ih _ hnext hrest
      · exact fun hnext _ => hnext

end Rules

end Prog

end ChocoBase.Foundation
