import ChocoBase.Foundation.Prog

/-!
# Contracts of a component

A handler answers a request in one way.  A `Contract` says only what the answer
may be: it has a precondition for each request, and it may allow several
answers.  `sure` is the weakest precondition of a program whose requests are
answered in any way the contract allows.

A handler `Honours` a contract if each answer, from a state that the contract
describes, is one that the contract allows.  `sure_sound` then carries what was
proved from the contract over to the runs on the handler.
-/

namespace ChocoBase.Foundation

open Exec (Post)

structure Contract (I : Interface) (σ : Type) where
  pre : I.Op → σ → Prop
  post : (op : I.Op) → σ → Outcome I.Err (I.Res op) → σ → Prop

namespace Prog

variable {I : Interface} {σ σ₁ σ₂ ε ε' α β : Type}

/-- However the requests are answered, the program ends as `Q` says. -/
def sure (C : Contract I σ) : Prog I ε α → Post σ ε α → σ → Prop
  | .pure value, Q, s => Q.ok value s
  | .throw reason, Q, s => Q.error reason s
  | .halt why, Q, s => Q.stop why s
  | .call op next, Q, s => C.pre op s ∧
      (∀ value s', C.post op s (.ok value) s' → (next (.ok value)).sure C Q s') ∧
      (∀ reason s', C.post op s (.error reason) s' → (next (.error reason)).sure C Q s') ∧
      ∀ why s', C.post op s (.stop why) s' → Q.stop why s'

section Rules

variable {C : Contract I σ}

@[simp] theorem sure_pure (value : α) (Q : Post σ ε α) (s : σ) :
    (pure value : Prog I ε α).sure C Q s ↔ Q.ok value s := Iff.rfl

@[simp] theorem sure_pure' (value : α) (Q : Post σ ε α) (s : σ) :
    (Prog.pure value : Prog I ε α).sure C Q s ↔ Q.ok value s := Iff.rfl

@[simp] theorem sure_throw (reason : ε) (Q : Post σ ε α) (s : σ) :
    (Prog.throw reason : Prog I ε α).sure C Q s ↔ Q.error reason s := Iff.rfl

@[simp] theorem sure_halt (why : Stop) (Q : Post σ ε α) (s : σ) :
    (Prog.halt why : Prog I ε α).sure C Q s ↔ Q.stop why s := Iff.rfl

theorem sure_bind (x : Prog I ε α) (f : α → Prog I ε β) (Q : Post σ ε β) (s : σ) :
    (x >>= f).sure C Q s ↔
      x.sure C (Q.withOk fun value s' => (f value).sure C Q s') s := by
  change (x.bind f).sure C Q s ↔ _
  induction x generalizing s with
  | pure value => exact Iff.rfl
  | throw reason => exact Iff.rfl
  | halt why => exact Iff.rfl
  | call op next ih =>
      simp only [bind, sure, ih]
      exact Iff.rfl

theorem sure_mono {x : Prog I ε α} {Q R : Post σ ε α} {s : σ} (h : x.sure C Q s)
    (hok : ∀ value s', Q.ok value s' → R.ok value s')
    (herror : ∀ reason s', Q.error reason s' → R.error reason s')
    (hstop : ∀ why s', Q.stop why s' → R.stop why s') : x.sure C R s := by
  induction x generalizing s with
  | pure value => exact hok _ _ h
  | throw reason => exact herror _ _ h
  | halt why => exact hstop _ _ h
  | call op next ih =>
      obtain ⟨hpre, hvalue, hreason, hwhy⟩ := h
      exact ⟨hpre, fun value s' hpost => ih _ (hvalue value s' hpost),
        fun reason s' hpost => ih _ (hreason reason s' hpost),
        fun why s' hpost => hstop why s' (hwhy why s' hpost)⟩

/-- Sequencing rule: establish an intermediate condition, then continue from it. -/
theorem sure_seq {x : Prog I ε α} {f : α → Prog I ε β} {M : Post σ ε α} {Q : Post σ ε β}
    {s : σ} (h : x.sure C M s)
    (hok : ∀ value s', M.ok value s' → (f value).sure C Q s')
    (herror : ∀ reason s', M.error reason s' → Q.error reason s')
    (hstop : ∀ why s', M.stop why s' → Q.stop why s') : (x >>= f).sure C Q s :=
  (sure_bind x f Q s).mpr (sure_mono h hok herror hstop)

theorem sure_mapError (convert : ε → ε') (x : Prog I ε α) (Q : Post σ ε' α) (s : σ) :
    (x.mapError convert).sure C Q s ↔
      x.sure C ⟨Q.ok, fun e s' => Q.error (convert e) s', Q.stop⟩ s := by
  induction x generalizing s with
  | pure value => exact Iff.rfl
  | throw reason => exact Iff.rfl
  | halt why => exact Iff.rfl
  | call op next ih => simp only [mapError, sure, ih]

theorem sure_attempt (x : Prog I ε α) (Q : Post σ ε' (Except ε α)) (s : σ) :
    (x.attempt).sure C Q s ↔
      x.sure C ⟨fun a s' => Q.ok (.ok a) s', fun e s' => Q.ok (.error e) s', Q.stop⟩ s := by
  induction x generalizing s with
  | pure value => exact Iff.rfl
  | throw reason => exact Iff.rfl
  | halt why => exact Iff.rfl
  | call op next ih => simp only [attempt, sure, ih]

theorem sure_request (convert : I.Err → ε) (op : I.Op) (Q : Post σ ε (I.Res op)) (s : σ) :
    (request convert op).sure C Q s ↔ C.pre op s ∧
      (∀ value s', C.post op s (.ok value) s' → Q.ok value s') ∧
      (∀ reason s', C.post op s (.error reason) s' → Q.error (convert reason) s') ∧
      ∀ why s', C.post op s (.stop why) s' → Q.stop why s' := Iff.rfl

theorem sure_and {x : Prog I ε α} {Q R : Post σ ε α} {s : σ} (hQ : x.sure C Q s)
    (hR : x.sure C R s) :
    x.sure C ⟨fun a s' => Q.ok a s' ∧ R.ok a s', fun e s' => Q.error e s' ∧ R.error e s',
      fun c s' => Q.stop c s' ∧ R.stop c s'⟩ s := by
  induction x generalizing s with
  | pure value => exact ⟨hQ, hR⟩
  | throw reason => exact ⟨hQ, hR⟩
  | halt why => exact ⟨hQ, hR⟩
  | call op next ih =>
      exact ⟨hQ.1, fun value s' hpost => ih _ (hQ.2.1 value s' hpost) (hR.2.1 value s' hpost),
        fun reason s' hpost => ih _ (hQ.2.2.1 reason s' hpost) (hR.2.2.1 reason s' hpost),
        fun why s' hpost => ⟨hQ.2.2.2 why s' hpost, hR.2.2.2 why s' hpost⟩⟩

end Rules

/-! ## Loops -/

/-- `for item in items { state = body(state, item)? }` -/
def forEach (body : β → α → Prog I ε β) : List α → β → Prog I ε β
  | [], state => return state
  | item :: items, state => do
      let state ← body state item
      forEach body items state

/-- The loop keeps an invariant on the items done, its state and the component's state. -/
theorem sure_forEach {C : Contract I σ} {body : β → α → Prog I ε β} {Q : Post σ ε β}
    (inv : List α → β → σ → Prop) {items : List α}
    (step : ∀ done item rest state s, items = done ++ item :: rest → inv done state s →
      (body state item).sure C (Q.withOk fun state' s' => inv (done ++ [item]) state' s') s)
    (last : ∀ state s, inv items state s → Q.ok state s) {state : β} {s : σ}
    (first : inv [] state s) : (forEach body items state).sure C Q s := by
  have main : ∀ rest done state s, items = done ++ rest → inv done state s →
      (forEach body rest state).sure C Q s := by
    intro rest
    induction rest with
    | nil =>
        intro done state s heq hinv
        rw [List.append_nil] at heq
        exact last state s (heq ▸ hinv)
    | cons item rest ih =>
        intro done state s heq hinv
        rw [forEach, sure_bind]
        refine sure_mono (step done item rest state s heq hinv) ?_ (fun _ _ h => h) fun _ _ h => h
        exact fun state' s' h => ih (done ++ [item]) state' s' (by simp [heq]) h
  exact main items [] state s rfl first

/-! ## Soundness -/

/-- Every request of the run is issued in a state that allows it. -/
def Along (H : Handler I σ) (allowed : I.Op → σ → Prop) : Prog I ε α → σ → Prop
  | .pure _, _ => True
  | .throw _, _ => True
  | .halt _, _ => True
  | .call op next, s => allowed op s ∧
      match H op s with
      | (.ok value, s') => (next (.ok value)).Along H allowed s'
      | (.error reason, s') => (next (.error reason)).Along H allowed s'
      | (.stop _, _) => True

instance Along.decidable {H : Handler I σ} {allowed : I.Op → σ → Prop}
    [∀ op s, Decidable (allowed op s)] : (x : Prog I ε α) → (s : σ) →
      Decidable (x.Along H allowed s)
  | .pure _, _ => .isTrue trivial
  | .throw _, _ => .isTrue trivial
  | .halt _, _ => .isTrue trivial
  | .call op next, s => by
      unfold Along
      refine @instDecidableAnd _ _ inferInstance ?_
      exact match H op s with
        | (.ok value, s') => Along.decidable (next (.ok value)) s'
        | (.error reason, s') => Along.decidable (next (.error reason)) s'
        | (.stop _, _) => .isTrue trivial

section Along

variable {H : Handler I σ} {allowed : I.Op → σ → Prop}

theorem along_bind {x : Prog I ε α} {f : α → Prog I ε β} {s : σ} :
    (x >>= f).Along H allowed s ↔ x.Along H allowed s ∧
      ∀ a s', x.run H s = (.ok a, s') → (f a).Along H allowed s' := by
  change (x.bind f).Along H allowed s ↔ _
  induction x generalizing s with
  | pure value =>
      refine ⟨fun h => ⟨trivial, ?_⟩, fun h => h.2 _ _ rfl⟩
      rintro a s' heq
      cases heq
      exact h
  | throw reason => exact ⟨fun _ => ⟨trivial, fun _ _ heq => by cases heq⟩, fun _ => trivial⟩
  | halt why => exact ⟨fun _ => ⟨trivial, fun _ _ heq => by cases heq⟩, fun _ => trivial⟩
  | call op next ih =>
      simp only [bind, Along, run, and_assoc]
      refine and_congr_right fun _ => ?_
      rcases H op s with ⟨value | reason | why, s'⟩
      · exact ih _
      · exact ih _
      · exact ⟨fun _ => ⟨trivial, fun _ _ heq => by cases heq⟩, fun _ => trivial⟩

theorem along_attempt {x : Prog I ε α} {s : σ} :
    (x.attempt : Prog I ε' (Except ε α)).Along H allowed s ↔ x.Along H allowed s := by
  induction x generalizing s with
  | pure value => exact Iff.rfl
  | throw reason => exact Iff.rfl
  | halt why => exact Iff.rfl
  | call op next ih =>
      simp only [attempt, Along]
      refine and_congr_right fun _ => ?_
      rcases H op s with ⟨value | reason | why, s'⟩
      · exact ih _
      · exact ih _
      · exact Iff.rfl

end Along

/--
On states that the contract describes, every allowed request is answered as the
contract says.  A request that stops the program need not leave such a state.
-/
def Honours (R : σ₁ → σ₂ → Prop) (allowed : I.Op → σ₁ → Prop) (H : Handler I σ₁)
    (C : Contract I σ₂) : Prop :=
  ∀ op s₁ s₂, R s₁ s₂ → allowed op s₁ → C.pre op s₂ →
    ∃ s₂', C.post op s₂ (H op s₁).1 s₂' ∧
      ((∃ why, (H op s₁).1 = .stop why) ∨ R (H op s₁).2 s₂')

/-- What is sure by the contract holds of the runs on a handler that honours it. -/
theorem sure_sound {R : σ₁ → σ₂ → Prop} {allowed : I.Op → σ₁ → Prop} {H : Handler I σ₁}
    {C : Contract I σ₂} (honours : Honours R allowed H C) {x : Prog I ε α} {Q : Post σ₂ ε α}
    {s₁ : σ₁} {s₂ : σ₂} (hR : R s₁ s₂) (hx : x.sure C Q s₂) (halong : x.Along H allowed s₁) :
    Exec.wp (x.run H)
      ⟨fun value s₁' => ∃ s₂', R s₁' s₂' ∧ Q.ok value s₂',
        fun reason s₁' => ∃ s₂', R s₁' s₂' ∧ Q.error reason s₂',
        fun why _ => ∃ s₂', Q.stop why s₂'⟩ s₁ := by
  induction x generalizing s₁ s₂ with
  | pure value => exact ⟨s₂, hR, hx⟩
  | throw reason => exact ⟨s₂, hR, hx⟩
  | halt why => exact ⟨s₂, hx⟩
  | call op next ih =>
      obtain ⟨hpre, hvalue, hreason, hwhy⟩ := hx
      rw [Along] at halong
      obtain ⟨hallowed, hrest⟩ := halong
      obtain ⟨s₂', hpost, hR'⟩ := honours op s₁ s₂ hR hallowed hpre
      unfold Exec.wp
      simp only [run]
      rcases hop : H op s₁ with ⟨value | reason | why, s₁'⟩
      · rw [hop] at hpost hR' hrest
        exact ih _ (hR'.resolve_left (by simp)) (hvalue _ _ hpost) hrest
      · rw [hop] at hpost hR' hrest
        exact ih _ (hR'.resolve_left (by simp)) (hreason _ _ hpost) hrest
      · rw [hop] at hpost
        exact ⟨s₂', hwhy _ _ hpost⟩

end Prog

end ChocoBase.Foundation
