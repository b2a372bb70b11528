import Mathlib.Logic.Basic
import Mathlib.Data.List.Basic

/-!
# Stateful computations that may fail or stop

A computation over a state `σ` returns a value, returns an error of type `ε`,
or stops without handing control back to its caller.  The state survives in all
three cases: a call that fails halfway leaves behind what it did so far.

The second half gives the weakest-precondition rules.  A postcondition says
what holds after each kind of ending, and a specification of a function is a
statement `wp (f x) Q s`.
-/

namespace ChocoBase.Foundation

/-- Ways a call can end without handing control back to its caller. -/
inductive Stop where
  | panic
  | overflow
  | diverges
  | misuse
  deriving DecidableEq, Repr

inductive Outcome (ε α : Type) where
  | ok (value : α)
  | error (reason : ε)
  | stop (why : Stop)
  deriving DecidableEq, Repr

namespace Outcome

variable {ε ε' α β : Type}

def bind : Outcome ε α → (α → Outcome ε β) → Outcome ε β
  | .ok value, f => f value
  | .error reason, _ => .error reason
  | .stop why, _ => .stop why

instance : Monad (Outcome ε) where
  pure := .ok
  bind := bind

instance : LawfulMonad (Outcome ε) :=
  LawfulMonad.mk' _ (fun x => by cases x <;> rfl) (fun _ _ => rfl) fun x _ _ => by cases x <;> rfl

/-- Unwrap a value whose absence makes the program panic. -/
def unwrap : Option α → Outcome ε α
  | some value => .ok value
  | none => .stop .panic

def mapError (convert : ε → ε') : Outcome ε α → Outcome ε' α
  | .ok value => .ok value
  | .error reason => .error (convert reason)
  | .stop why => .stop why

theorem mapError_eq_ok {convert : ε → ε'} {x : Outcome ε α} {a : α} :
    x.mapError convert = .ok a ↔ x = .ok a := by
  cases x <;> simp [mapError]

theorem bind_eq_ok {x : Outcome ε α} {f : α → Outcome ε β} {b : β} :
    (x >>= f) = .ok b ↔ ∃ a, x = .ok a ∧ f a = .ok b := by
  cases x with
  | ok a => simp [Bind.bind, bind]
  | error reason => simp [Bind.bind, bind]
  | stop why => simp [Bind.bind, bind]

theorem bind_assoc {γ : Type} {x : Outcome ε α} {f : α → Outcome ε β} {g : β → Outcome ε γ} :
    (x.bind f).bind g = x.bind fun a => (f a).bind g := by
  cases x <;> rfl

/-- The call does not hand control back. -/
def Stops (x : Outcome ε α) : Prop := ∃ why, x = .stop why

@[simp] theorem not_stops_ok {a : α} : ¬(ok a : Outcome ε α).Stops := nofun

@[simp] theorem not_stops_error {reason : ε} : ¬(error reason : Outcome ε α).Stops := nofun

@[simp] theorem stops_stop {why : Stop} : (stop why : Outcome ε α).Stops := ⟨why, rfl⟩

theorem stops_bind {x : Outcome ε α} {f : α → Outcome ε β} :
    (x.bind f).Stops ↔ x.Stops ∨ ∃ a, x = .ok a ∧ (f a).Stops := by
  cases x <;> simp [bind]

theorem unwrap_eq_ok {o : Option α} {a : α} : (unwrap o : Outcome ε α) = .ok a ↔ o = some a := by
  cases o <;> simp [unwrap]

theorem stops_unwrap {a : Option α} : (unwrap a : Outcome ε α).Stops ↔ a = none := by
  cases a <;> simp [unwrap]

theorem stops_mapError {convert : ε → ε'} {x : Outcome ε α} :
    (x.mapError convert).Stops ↔ x.Stops := by
  cases x <;> simp [mapError]

end Outcome

def Exec (σ ε α : Type) : Type := σ → Outcome ε α × σ

namespace Exec

variable {σ τ ε ε' α β : Type}

instance : Monad (Exec σ ε) where
  pure value := fun s => (.ok value, s)
  bind x f := fun s =>
    match x s with
    | (.ok value, s') => f value s'
    | (.error reason, s') => (.error reason, s')
    | (.stop why, s') => (.stop why, s')

def get : Exec σ ε σ := fun s => (.ok s, s)

def modify (f : σ → σ) : Exec σ ε Unit := fun s => (.ok (), f s)

def throw (reason : ε) : Exec σ ε α := fun s => (.error reason, s)

def halt (why : Stop) : Exec σ ε α := fun s => (.stop why, s)

/-- Unwrap a value whose absence makes the program panic. -/
def unwrap : Option α → Exec σ ε α
  | some value => pure value
  | none => halt .panic

/-- Run a computation on one component of a larger state. -/
def zoom (view : τ → σ) (update : τ → σ → τ) (x : Exec σ ε α) : Exec τ ε α :=
  fun t => ((x (view t)).1, update t (x (view t)).2)

/-- Turn the error of a computation into a value, as a caller that ignores it does. -/
def attempt (x : Exec σ ε α) : Exec σ ε' (Except ε α) := fun s =>
  match x s with
  | (.ok value, s') => (.ok (.ok value), s')
  | (.error reason, s') => (.ok (.error reason), s')
  | (.stop why, s') => (.stop why, s')

/-- Turn any ending of a computation into a value. -/
def capture (x : Exec σ ε α) : Exec σ ε' (Outcome ε α) := fun s => (.ok (x s).1, (x s).2)

@[simp] theorem pure_apply (value : α) (s : σ) :
    (pure value : Exec σ ε α) s = (.ok value, s) := rfl

theorem bind_apply (x : Exec σ ε α) (f : α → Exec σ ε β) (s : σ) :
    (x >>= f) s =
      match x s with
      | (.ok value, s') => f value s'
      | (.error reason, s') => (.error reason, s')
      | (.stop why, s') => (.stop why, s') := rfl

theorem bind_ok {x : Exec σ ε α} {f : α → Exec σ ε β} {s s' : σ} {value : α}
    (h : x s = (.ok value, s')) : (x >>= f) s = f value s' := by
  simp [bind_apply, h]

theorem eq_of_bind_pure {x : Exec σ ε α} {b b' : β} {s s' : σ}
    (h : (x >>= fun _ => pure b) s = (.ok b', s')) : b' = b := by
  rw [bind_apply] at h
  split at h
  · cases h; rfl
  · cases h
  · cases h

theorem bind_error {x : Exec σ ε α} {f : α → Exec σ ε β} {s s' : σ} {reason : ε}
    (h : x s = (.error reason, s')) : (x >>= f) s = (.error reason, s') := by
  simp [bind_apply, h]

theorem bind_stop {x : Exec σ ε α} {f : α → Exec σ ε β} {s s' : σ} {why : Stop}
    (h : x s = (.stop why, s')) : (x >>= f) s = (.stop why, s') := by
  simp [bind_apply, h]

private theorem bind_pure_self (x : Exec σ ε α) : (x >>= fun value => pure value) = x := by
  funext s
  rw [bind_apply]
  rcases h : x s with ⟨_ | _ | _, s'⟩ <;> rfl

private theorem bind_assoc_apply {γ : Type} (x : Exec σ ε α) (f : α → Exec σ ε β)
    (g : β → Exec σ ε γ) : (x >>= f) >>= g = x >>= fun value => f value >>= g := by
  funext s
  simp only [bind_apply]
  rcases h : x s with ⟨_ | _ | _, s'⟩ <;> rfl

instance : LawfulMonad (Exec σ ε) :=
  LawfulMonad.mk' _ bind_pure_self (fun _ _ => rfl) bind_assoc_apply

@[simp] theorem get_apply (s : σ) : (get : Exec σ ε σ) s = (.ok s, s) := rfl

@[simp] theorem modify_apply (f : σ → σ) (s : σ) :
    (modify f : Exec σ ε Unit) s = (.ok (), f s) := rfl

@[simp] theorem throw_apply (reason : ε) (s : σ) :
    (throw reason : Exec σ ε α) s = (.error reason, s) := rfl

@[simp] theorem halt_apply (why : Stop) (s : σ) :
    (halt why : Exec σ ε α) s = (.stop why, s) := rfl

/-! ## What a computation leaves alone -/

/-- The computation does not change this part of the state, however it ends. -/
def Preserves {γ : Type} (view : σ → γ) (x : Exec σ ε α) : Prop := ∀ s, view (x s).2 = view s

namespace Preserves

variable {γ : Type} {view : σ → γ} {x : Exec σ ε α} {f : α → Exec σ ε β}

theorem pure (value : α) : Preserves view (Pure.pure value : Exec σ ε α) := fun _ => rfl

theorem throw (reason : ε) : Preserves view (Exec.throw reason : Exec σ ε α) := fun _ => rfl

theorem halt (why : Stop) : Preserves view (Exec.halt why : Exec σ ε α) := fun _ => rfl

theorem unwrap (o : Option α) : Preserves view (Exec.unwrap o : Exec σ ε α) := by
  cases o <;> exact fun _ => rfl

theorem modify {g : σ → σ} (h : ∀ s, view (g s) = view s) :
    Preserves view (Exec.modify g : Exec σ ε Unit) := h

theorem bind (hx : Preserves view x) (hf : ∀ value, Preserves view (f value)) :
    Preserves view (x >>= f) := by
  intro s
  have hs := hx s
  rw [bind_apply]
  rcases hrun : x s with ⟨value | reason | why, s'⟩ <;> rw [hrun] at hs
  · exact (hf value s').trans hs
  · exact hs
  · exact hs

/-- The state is read first. -/
theorem get_bind {f : σ → Exec σ ε β} (hf : ∀ s, Preserves view (f s)) :
    Preserves view (Exec.get >>= f) := fun s => hf s s

theorem modify_bind {g : σ → σ} {f : Unit → Exec σ ε β} (h : ∀ s, view (g s) = view s)
    (hf : ∀ value, Preserves view (f value)) : Preserves view (Exec.modify g >>= f) :=
  bind (modify h) hf

theorem zoom {part : τ → σ} {update : τ → σ → τ} {x : Exec σ ε α} {view : τ → γ}
    (h : ∀ t s, view (update t s) = view t) : Preserves view (Exec.zoom part update x) :=
  fun t => h t _

theorem capture (hx : Preserves view x) : Preserves view (Exec.capture x : Exec σ ε' _) := hx

end Preserves

/-! ## What a computation does not see -/

/-- The computation does the same on changed states, and keeps the change. -/
def Commutes (g : σ → σ) (x : Exec σ ε α) : Prop := ∀ s, x (g s) = ((x s).1, g (x s).2)

namespace Commutes

variable {g : σ → σ} {x : Exec σ ε α} {f : α → Exec σ ε β}

theorem pure (value : α) : Commutes g (Pure.pure value : Exec σ ε α) := fun _ => rfl

theorem throw (reason : ε) : Commutes g (Exec.throw reason : Exec σ ε α) := fun _ => rfl

theorem halt (why : Stop) : Commutes g (Exec.halt why : Exec σ ε α) := fun _ => rfl

theorem unwrap (o : Option α) : Commutes g (Exec.unwrap o : Exec σ ε α) := by
  cases o <;> exact fun _ => rfl

theorem modify {change : σ → σ} (h : ∀ s, change (g s) = g (change s)) :
    Commutes g (Exec.modify change : Exec σ ε Unit) := fun s => by
  rw [modify_apply, modify_apply, h]

theorem bind (hx : Commutes g x) (hf : ∀ value, Commutes g (f value)) : Commutes g (x >>= f) := by
  intro s
  rw [bind_apply, bind_apply, hx s]
  rcases x s with ⟨value | reason | why, s'⟩
  · exact hf value s'
  · rfl
  · rfl

/-- The state is read first, and what follows does not depend on the change. -/
theorem get_bind {f : σ → Exec σ ε β} (h : ∀ s, f (g s) = f s) (hf : ∀ s, Commutes g (f s)) :
    Commutes g (Exec.get >>= f) := by
  intro s
  rw [bind_apply, bind_apply, get_apply, get_apply]
  dsimp only
  rw [h]
  exact hf s s

theorem attempt (hx : Commutes g x) : Commutes g (Exec.attempt x : Exec σ ε' _) := by
  intro s
  simp only [Exec.attempt, hx s]
  rcases x s with ⟨value | reason | why, s'⟩ <;> rfl

theorem ite {c : Prop} [Decidable c] {x y : Exec σ ε α} (hx : Commutes g x) (hy : Commutes g y) :
    Commutes g (if c then x else y) := by
  split
  · exact hx
  · exact hy

end Commutes

/-! ## Weakest preconditions -/

/-- What must hold after each way of ending. -/
structure Post (σ ε α : Type) where
  ok : α → σ → Prop
  error : ε → σ → Prop
  stop : Stop → σ → Prop

/-- The same condition on the state, however the computation ends. -/
def Post.always (P : σ → Prop) : Post σ ε α :=
  ⟨fun _ => P, fun _ => P, fun _ => P⟩

/-- Replace the condition on normal returns. -/
def Post.withOk (Q : Post σ ε α) (ok : β → σ → Prop) : Post σ ε β :=
  ⟨ok, Q.error, Q.stop⟩

@[simp] theorem Post.withOk_ok (Q : Post σ ε α) (f : β → σ → Prop) :
    (Q.withOk f).ok = f := rfl

@[simp] theorem Post.withOk_error (Q : Post σ ε α) (f : β → σ → Prop) :
    (Q.withOk f).error = Q.error := rfl

@[simp] theorem Post.withOk_stop (Q : Post σ ε α) (f : β → σ → Prop) :
    (Q.withOk f).stop = Q.stop := rfl

@[simp] theorem Post.withOk_withOk {γ : Type} (Q : Post σ ε α) (f : β → σ → Prop)
    (g : γ → σ → Prop) : (Q.withOk f).withOk g = Q.withOk g := rfl

def wp (x : Exec σ ε α) (Q : Post σ ε α) (s : σ) : Prop :=
  match x s with
  | (.ok value, s') => Q.ok value s'
  | (.error reason, s') => Q.error reason s'
  | (.stop why, s') => Q.stop why s'

@[simp] theorem wp_pure (value : α) (Q : Post σ ε α) (s : σ) :
    wp (pure value) Q s ↔ Q.ok value s := Iff.rfl

@[simp] theorem wp_get (Q : Post σ ε σ) (s : σ) : wp get Q s ↔ Q.ok s s := Iff.rfl

@[simp] theorem wp_modify (f : σ → σ) (Q : Post σ ε Unit) (s : σ) :
    wp (modify f) Q s ↔ Q.ok () (f s) := Iff.rfl

@[simp] theorem wp_throw (reason : ε) (Q : Post σ ε α) (s : σ) :
    wp (throw reason) Q s ↔ Q.error reason s := Iff.rfl

@[simp] theorem wp_halt (why : Stop) (Q : Post σ ε α) (s : σ) :
    wp (halt why) Q s ↔ Q.stop why s := Iff.rfl

theorem wp_bind (x : Exec σ ε α) (f : α → Exec σ ε β) (Q : Post σ ε β) (s : σ) :
    wp (x >>= f) Q s ↔ wp x (Q.withOk fun value s' => wp (f value) Q s') s := by
  unfold wp
  rw [bind_apply]
  rcases x s with ⟨_ | _ | _, s'⟩ <;> exact Iff.rfl

theorem wp_mono {x : Exec σ ε α} {Q R : Post σ ε α} {s : σ} (h : wp x Q s)
    (hok : ∀ value s', Q.ok value s' → R.ok value s')
    (herror : ∀ reason s', Q.error reason s' → R.error reason s')
    (hstop : ∀ why s', Q.stop why s' → R.stop why s') : wp x R s := by
  unfold wp at h ⊢
  revert h
  rcases x s with ⟨value | reason | why, s'⟩
  · exact hok value s'
  · exact herror reason s'
  · exact hstop why s'

/-- Sequencing rule: establish an intermediate condition, then continue from it. -/
theorem wp_seq {x : Exec σ ε α} {f : α → Exec σ ε β} {Q : Post σ ε β} {s : σ}
    {M : Post σ ε α} (h : wp x M s)
    (hok : ∀ value s', M.ok value s' → wp (f value) Q s')
    (herror : ∀ reason s', M.error reason s' → Q.error reason s')
    (hstop : ∀ why s', M.stop why s' → Q.stop why s') : wp (x >>= f) Q s :=
  (wp_bind x f Q s).mpr (wp_mono h hok herror hstop)

theorem wp_always_iff (x : Exec σ ε α) (P : σ → Prop) (s : σ) :
    wp x (Post.always P) s ↔ P (x s).2 := by
  unfold wp Post.always
  rcases x s with ⟨_ | _ | _, s'⟩ <;> exact Iff.rfl

theorem wp_and {x : Exec σ ε α} {Q R : Post σ ε α} {s : σ} (hQ : wp x Q s)
    (hR : wp x R s) :
    wp x ⟨fun a s' => Q.ok a s' ∧ R.ok a s', fun e s' => Q.error e s' ∧ R.error e s',
      fun c s' => Q.stop c s' ∧ R.stop c s'⟩ s := by
  unfold wp at *
  revert hQ hR
  rcases x s with ⟨_ | _ | _, s'⟩ <;> exact And.intro

/-- What a computation does is what it was run for. -/
theorem wp_self (x : Exec σ ε α) (s : σ) :
    wp x ⟨fun a s' => x s = (.ok a, s'), fun e s' => x s = (.error e, s'),
      fun why s' => x s = (.stop why, s')⟩ s := by
  unfold wp
  rcases x s with ⟨_ | _ | _, s'⟩ <;> rfl

theorem wp_of_ok {x : Exec σ ε α} {Q : Post σ ε α} {s s' : σ} {value : α}
    (h : x s = (.ok value, s')) (hQ : Q.ok value s') : wp x Q s := by
  unfold wp
  rw [h]
  exact hQ

/-- A computation that neither fails nor stops returns a value. -/
theorem exists_of_wp {x : Exec σ ε α} {P : α → σ → Prop} {s : σ}
    (h : wp x ⟨P, fun _ _ => False, fun _ _ => False⟩ s) :
    ∃ value s', x s = (.ok value, s') ∧ P value s' := by
  unfold wp at h
  revert h
  rcases x s with ⟨value | reason | why, s'⟩
  · exact fun h => ⟨value, s', rfl, h⟩
  · exact False.elim
  · exact False.elim

/-- What a specification says about a run that returned. -/
theorem wp_ok {x : Exec σ ε α} {Q : Post σ ε α} {s s' : σ} {value : α} (h : wp x Q s)
    (hrun : x s = (.ok value, s')) : Q.ok value s' := by
  unfold wp at h
  rwa [hrun] at h

theorem wp_error {x : Exec σ ε α} {Q : Post σ ε α} {s s' : σ} {reason : ε} (h : wp x Q s)
    (hrun : x s = (.error reason, s')) : Q.error reason s' := by
  unfold wp at h
  rwa [hrun] at h

theorem wp_zoom (view : τ → σ) (update : τ → σ → τ) (x : Exec σ ε α) (Q : Post τ ε α)
    (t : τ) :
    wp (zoom view update x) Q t ↔
      wp x ⟨fun a s => Q.ok a (update t s), fun e s => Q.error e (update t s),
        fun c s => Q.stop c (update t s)⟩ (view t) := by
  unfold wp zoom
  rcases x (view t) with ⟨_ | _ | _, s'⟩ <;> exact Iff.rfl

theorem wp_attempt (x : Exec σ ε α) (Q : Post σ ε' (Except ε α)) (s : σ) :
    wp (attempt x) Q s ↔
      wp x ⟨fun a s' => Q.ok (.ok a) s', fun e s' => Q.ok (.error e) s', Q.stop⟩ s := by
  unfold wp attempt
  rcases x s with ⟨_ | _ | _, s'⟩ <;> exact Iff.rfl

end Exec

end ChocoBase.Foundation
