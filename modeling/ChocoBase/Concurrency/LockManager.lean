import ChocoBase.Foundation.Trace
import Mathlib.Logic.Function.Basic

/-!
# The lock manager

Transactions ask for resources in shared or exclusive mode, wait, time out, and
give everything back when the last handle of their token is dropped.  Every
action below is one critical section of the code, so a run of the system is an
interleaving of the threads.
-/

namespace ChocoBase.Concurrency

open ChocoBase.Foundation

abbrev TxId : Type := UInt64

inductive LockMode where
  | shared
  | exclusive
  deriving DecidableEq, Repr

/-- The lock table: who holds a resource, and in which mode. -/
abbrev Owners : Type := String → List (TxId × LockMode)

namespace LockManager

def compatible (owners : Owners) (tx : TxId) (resource : String) (mode : LockMode) : Bool :=
  (owners resource).all fun (owner, held) =>
    owner = tx || (mode = .shared && held = .shared)

def grant (owners : Owners) (tx : TxId) (resource : String) (mode : LockMode) : Owners :=
  Function.update owners resource (owners resource ++ [(tx, mode)])

def releaseAll (owners : Owners) (tx : TxId) : Owners := fun resource =>
  (owners resource).filter fun (owner, _) => owner ≠ tx

inductive Turn where
  | granted
  | timedOut
  | waits

/--
One turn of the loop of `acquire_timeout`.  It is `late` if the timeout has passed,
before the thread waited or while it did.
-/
def acquireTurn (owners : Owners) (tx : TxId) (resource : String) (mode : LockMode)
    (late : Bool) : Turn :=
  if compatible owners tx resource mode then .granted
  else if late then .timedOut
  else .waits

end LockManager

/-- What the handles of one token share. -/
structure LockToken where
  tx : TxId
  held : List String
  /-- the handles that have not been dropped -/
  alive : Nat
  /-- the reference count, which a handle gives up at the end of its drop -/
  strong : Nat

inductive Phase where
  | waiting
  | acquired (granted : Bool)
  | returned (granted : Bool)
  deriving DecidableEq

def Phase.Granted : Phase → Prop
  | .waiting => False
  | .acquired granted => granted = true
  | .returned granted => granted = true

/-- A call of `shared` or `exclusive`, or of `try_shared` or `try_exclusive`. -/
structure LockCall where
  token : Nat
  resource : String
  mode : LockMode
  /-- `shared` and `exclusive` ignore a timeout -/
  blocking : Bool
  phase : Phase

structure LockSystem where
  owners : Owners
  nextTx : TxId
  tokens : List LockToken
  calls : List LockCall

inductive LockAction where
  | begin
  | clone (token : Nat)
  | call (token : Nat) (resource : String) (mode : LockMode) (blocking : Bool)
  | turn (call : Nat) (late : Bool)
  | finish (call : Nat)
  | dropStart (token : Nat)
  | dropEnd (token : Nat)

namespace LockSystem

open LockManager

def initial : LockSystem where
  owners _ := []
  nextTx := 1
  tokens := []
  calls := []

def setToken (s : LockSystem) (i : Nat) (t : LockToken) : LockSystem :=
  { s with tokens := s.tokens.set i t }

def setCall (s : LockSystem) (c : Nat) (call : LockCall) : LockSystem :=
  { s with calls := s.calls.set c call }

/-- Whether a call on the token is still running, and so borrows a handle of it. -/
def borrowed (s : LockSystem) (i : Nat) : Bool :=
  s.calls.any fun call => call.token = i && !(call.phase matches .returned _)

def turn (s : LockSystem) (c : Nat) (call : LockCall) (t : LockToken) (late : Bool) :
    LockSystem :=
  match acquireTurn s.owners t.tx call.resource call.mode late with
  | .granted => { s.setCall c { call with phase := .acquired true } with
      owners := grant s.owners t.tx call.resource call.mode }
  | .timedOut => s.setCall c { call with phase := .acquired false }
  | .waits => s

/-- The end of a call: a granted resource is listed, by a blocking call any resource. -/
def finish (s : LockSystem) (c : Nat) (call : LockCall) (t : LockToken) (granted : Bool) :
    LockSystem :=
  let s := s.setCall c { call with phase := .returned granted }
  if granted || call.blocking then
    s.setToken call.token { t with held := t.held ++ [call.resource] }
  else s

def step (s : LockSystem) : LockAction → Option LockSystem
  | .begin => some { s with
      nextTx := s.nextTx + 1
      tokens := s.tokens ++ [{ tx := s.nextTx, held := [], alive := 1, strong := 1 }] }
  | .clone i => do
      let t ← s.tokens[i]?
      if 0 < t.alive then some (s.setToken i { t with alive := t.alive + 1, strong := t.strong + 1 })
      else none
  | .call i resource mode blocking => do
      let t ← s.tokens[i]?
      if 0 < t.alive then some { s with
        calls := s.calls ++ [{ token := i, resource, mode, blocking, phase := .waiting }] }
      else none
  | .turn c late => do
      let call ← s.calls[c]?
      let t ← s.tokens[call.token]?
      match call.phase with
      | .waiting => some (s.turn c call t late)
      | _ => none
  | .finish c => do
      let call ← s.calls[c]?
      let t ← s.tokens[call.token]?
      match call.phase with
      | .acquired granted => some (s.finish c call t granted)
      | _ => none
  | .dropStart i => do
      let t ← s.tokens[i]?
      if 1 < t.alive ∨ t.alive = 1 ∧ ¬s.borrowed i then some { s.setToken i { t with
          alive := t.alive - 1 } with
        owners := if t.strong = 1 then releaseAll s.owners t.tx else s.owners }
      else none
  | .dropEnd i => do
      let t ← s.tokens[i]?
      if t.alive < t.strong then some (s.setToken i { t with strong := t.strong - 1 })
      else none

/-! ## What the manager promises -/

/-- Where `shared` or `exclusive` returned, the table has the lock while the token lives. -/
def Honest (s : LockSystem) : Prop :=
  ∀ call ∈ s.calls, call.blocking = true → ∀ granted, call.phase = .returned granted →
    ∀ t, s.tokens[call.token]? = some t → 0 < t.alive →
      (t.tx, call.mode) ∈ s.owners call.resource

/--
The action does not let a blocking call time out, and does not give the number of a
living token to a new one.
-/
def Regular (s : LockSystem) : LockAction → Prop
  | .begin => ∀ t ∈ s.tokens, 0 < t.alive → t.tx ≠ s.nextTx
  | .turn c late => late = true → ∀ call, s.calls[c]? = some call → call.blocking = true →
      ∀ t, s.tokens[call.token]? = some t →
        compatible s.owners t.tx call.resource call.mode = true
  | _ => True

end LockSystem

/-! ## The lock table -/

namespace LockManager

variable {owners : Owners} {tx : TxId} {resource : String} {mode : LockMode}

/-- A resource held exclusively is held by one transaction. -/
def Exclusive (owners : Owners) : Prop :=
  ∀ resource tx tx' mode, (tx, .exclusive) ∈ owners resource → (tx', mode) ∈ owners resource →
    tx' = tx

theorem compatible_iff : compatible owners tx resource mode = true ↔
    ∀ e ∈ owners resource, e.1 = tx ∨ mode = .shared ∧ e.2 = .shared := by
  simp [compatible]

theorem mem_grant {r : String} {e : TxId × LockMode} :
    e ∈ grant owners tx resource mode r ↔ e ∈ owners r ∨ r = resource ∧ e = (tx, mode) := by
  by_cases hr : r = resource
  · subst hr
    simp [grant]
  · simp [grant, hr]

theorem mem_releaseAll {r : String} {e : TxId × LockMode} :
    e ∈ releaseAll owners tx r ↔ e ∈ owners r ∧ e.1 ≠ tx := by
  simp [releaseAll]

theorem Exclusive.grant (h : Exclusive owners)
    (hcompatible : compatible owners tx resource mode = true) :
    Exclusive (grant owners tx resource mode) := by
  rw [compatible_iff] at hcompatible
  intro r a b m ha hb
  rw [mem_grant] at ha hb
  cases ha with
  | inl ha =>
      cases hb with
      | inl hb => exact h r a b m ha hb
      | inr hb =>
          obtain ⟨rfl, heq⟩ := hb
          obtain ⟨rfl, -⟩ := Prod.mk.inj heq
          cases hcompatible _ ha with
          | inl heq => exact heq.symm
          | inr hshared => exact absurd hshared.2 (by simp)
  | inr ha =>
      obtain ⟨rfl, heq⟩ := ha
      obtain ⟨rfl, rfl⟩ := Prod.mk.inj heq
      cases hb with
      | inl hb =>
          cases hcompatible _ hb with
          | inl heq => exact heq
          | inr hshared => exact absurd hshared.1 (by simp)
      | inr hb => exact (Prod.mk.inj hb.2).1

theorem Exclusive.releaseAll (h : Exclusive owners) (tx : TxId) :
    Exclusive (releaseAll owners tx) := fun r a b m ha hb =>
  h r a b m (mem_releaseAll.mp ha).1 (mem_releaseAll.mp hb).1

end LockManager

namespace LockSystem

open LockManager

variable {s s' : LockSystem}

/-- What one action can do. -/
inductive Moves (s : LockSystem) : LockAction → LockSystem → Prop
  | begin : Moves s .begin { s with
      nextTx := s.nextTx + 1
      tokens := s.tokens ++ [{ tx := s.nextTx, held := [], alive := 1, strong := 1 }] }
  | clone {i t} (ht : s.tokens[i]? = some t) (halive : 0 < t.alive) :
      Moves s (.clone i) (s.setToken i { t with alive := t.alive + 1, strong := t.strong + 1 })
  | call {i t resource mode blocking} (ht : s.tokens[i]? = some t) (halive : 0 < t.alive) :
      Moves s (.call i resource mode blocking) { s with
        calls := s.calls ++ [{ token := i, resource, mode, blocking, phase := .waiting }] }
  | granted {c call t late} (hcall : s.calls[c]? = some call)
      (ht : s.tokens[call.token]? = some t)
      (hcompatible : compatible s.owners t.tx call.resource call.mode = true) :
      Moves s (.turn c late) { s.setCall c { call with phase := .acquired true } with
        owners := grant s.owners t.tx call.resource call.mode }
  | timedOut {c call t} (hcall : s.calls[c]? = some call) (ht : s.tokens[call.token]? = some t)
      (hcompatible : compatible s.owners t.tx call.resource call.mode = false) :
      Moves s (.turn c true) (s.setCall c { call with phase := .acquired false })
  | waits {c late} : Moves s (.turn c late) s
  | finish {c call t granted} (hcall : s.calls[c]? = some call)
      (ht : s.tokens[call.token]? = some t) (hphase : call.phase = .acquired granted) :
      Moves s (.finish c) (s.finish c call t granted)
  | dropStart {i t} (ht : s.tokens[i]? = some t) (halive : 0 < t.alive) :
      Moves s (.dropStart i) { s.setToken i { t with alive := t.alive - 1 } with
        owners := if t.strong = 1 then releaseAll s.owners t.tx else s.owners }
  | dropEnd {i t} (ht : s.tokens[i]? = some t) (hstrong : t.alive < t.strong) :
      Moves s (.dropEnd i) (s.setToken i { t with strong := t.strong - 1 })

theorem step_moves {a : LockAction} (h : s.step a = some s') : s.Moves a s' := by
  cases a with
  | begin =>
      obtain rfl := Option.some.inj h
      exact .begin
  | clone i =>
      obtain ⟨t, ht, h⟩ := Option.bind_eq_some_iff.mp h
      split at h
      next halive =>
        obtain rfl := Option.some.inj h
        exact .clone ht halive
      next => simp at h
  | call i resource mode blocking =>
      obtain ⟨t, ht, h⟩ := Option.bind_eq_some_iff.mp h
      split at h
      next halive =>
        obtain rfl := Option.some.inj h
        exact .call ht halive
      next => simp at h
  | turn c late =>
      obtain ⟨call, hcall, h⟩ := Option.bind_eq_some_iff.mp h
      obtain ⟨t, ht, h⟩ := Option.bind_eq_some_iff.mp h
      split at h
      next hphase =>
        obtain rfl := Option.some.inj h
        unfold turn acquireTurn
        by_cases hcompatible : compatible s.owners t.tx call.resource call.mode = true
        · rw [if_pos hcompatible]
          exact .granted hcall ht hcompatible
        · rw [if_neg hcompatible]
          cases late with
          | true => exact .timedOut hcall ht (by simpa using hcompatible)
          | false => exact .waits
      next => simp at h
  | finish c =>
      obtain ⟨call, hcall, h⟩ := Option.bind_eq_some_iff.mp h
      obtain ⟨t, ht, h⟩ := Option.bind_eq_some_iff.mp h
      split at h
      next granted hphase =>
        obtain rfl := Option.some.inj h
        exact .finish hcall ht hphase
      next => simp at h
  | dropStart i =>
      obtain ⟨t, ht, h⟩ := Option.bind_eq_some_iff.mp h
      split at h
      next halive =>
        obtain rfl := Option.some.inj h
        exact .dropStart ht (by omega)
      next => simp at h
  | dropEnd i =>
      obtain ⟨t, ht, h⟩ := Option.bind_eq_some_iff.mp h
      split at h
      next hstrong =>
        obtain rfl := Option.some.inj h
        exact .dropEnd ht hstrong
      next => simp at h

@[simp] theorem finish_owners (s : LockSystem) (c : Nat) (call : LockCall) (t : LockToken)
    (granted : Bool) : (s.finish c call t granted).owners = s.owners := by
  unfold finish
  split <;> rfl

/-- Exclusive locks are exclusive in every interleaving. -/
theorem exclusive_step {a : LockAction} (h : Exclusive s.owners) (hstep : s.step a = some s') :
    Exclusive s'.owners := by
  cases step_moves hstep with
  | begin => exact h
  | clone _ _ => exact h
  | call _ _ => exact h
  | granted _ _ hcompatible => exact h.grant hcompatible
  | timedOut _ _ _ => exact h
  | waits => exact h
  | finish _ _ _ => rwa [finish_owners]
  | @dropStart i t _ _ =>
      by_cases hlast : t.strong = 1
      · simpa only [if_pos hlast] using h.releaseAll t.tx
      · simpa only [if_neg hlast] using h
  | dropEnd _ _ => exact h

/-! ## Regular runs -/

/-- The table has the lock of the call while its token lives. -/
def Recorded (s : LockSystem) (call : LockCall) : Prop :=
  ∀ t, s.tokens[call.token]? = some t → 0 < t.alive → (t.tx, call.mode) ∈ s.owners call.resource

structure Inv (s : LockSystem) : Prop where
  counted : ∀ t ∈ s.tokens, t.alive ≤ t.strong
  distinct : ∀ (i j : Nat) (t t' : LockToken), s.tokens[i]? = some t → s.tokens[j]? = some t' →
    0 < t.alive → 0 < t'.alive → t.tx = t'.tx → i = j
  inRange : ∀ call ∈ s.calls, call.token < s.tokens.length
  recorded : ∀ call ∈ s.calls, call.phase.Granted → s.Recorded call
  granted : ∀ call ∈ s.calls, call.blocking = true → call.phase = .waiting ∨ call.phase.Granted

namespace Inv

theorem initial : LockSystem.initial.Inv where
  counted := by simp [LockSystem.initial]
  distinct := by simp [LockSystem.initial]
  inRange := by simp [LockSystem.initial]
  recorded := by simp [LockSystem.initial]
  granted := by simp [LockSystem.initial]

theorem honest (h : s.Inv) : s.Honest := by
  intro call hcall hblocking granted hphase t ht halive
  refine h.recorded call hcall ?_ t ht halive
  exact (h.granted call hcall hblocking).resolve_left (by simp [hphase])

/-- A change of tokens and table that keeps what living tokens hold. -/
theorem of_tokens (h : s.Inv) (hcalls : s'.calls = s.calls)
    (hlength : s'.tokens.length = s.tokens.length)
    (hcounted : ∀ t ∈ s'.tokens, t.alive ≤ t.strong)
    (htokens : ∀ (i : Nat) (t' : LockToken), s'.tokens[i]? = some t' → 0 < t'.alive →
      ∃ t, s.tokens[i]? = some t ∧ t.tx = t'.tx ∧ 0 < t.alive ∧
        ∀ resource mode, (t.tx, mode) ∈ s.owners resource → (t.tx, mode) ∈ s'.owners resource) :
    s'.Inv where
  counted := hcounted
  distinct i j t t' ht ht' halive halive' htx := by
    obtain ⟨u, hu, hux, hualive, -⟩ := htokens i t ht halive
    obtain ⟨u', hu', hux', hualive', -⟩ := htokens j t' ht' halive'
    exact h.distinct i j u u' hu hu' hualive hualive' (by rw [hux, hux', htx])
  inRange := by rw [hcalls, hlength]; exact h.inRange
  recorded call hcall hgranted t' ht' halive' := by
    obtain ⟨t, ht, htx, halive, howners⟩ := htokens call.token t' ht' halive'
    rw [← htx]
    exact howners _ _ (h.recorded call (hcalls ▸ hcall) hgranted t ht halive)
  granted := by rw [hcalls]; exact h.granted

private theorem getElem?_set_cases {tokens : List LockToken} {i j : Nat} {t u : LockToken}
    (h : (tokens.set i u)[j]? = some t) : j = i ∧ t = u ∨ j ≠ i ∧ tokens[j]? = some t := by
  by_cases hij : i = j
  · subst hij
    rw [List.getElem?_set_self'] at h
    obtain ⟨_, -, rfl⟩ := Option.map_eq_some_iff.mp h
    exact .inl ⟨rfl, rfl⟩
  · rw [List.getElem?_set_ne hij] at h
    exact .inr ⟨Ne.symm hij, h⟩

private theorem getElem?_concat_cases {tokens : List LockToken} {i : Nat} {t u : LockToken}
    (h : (tokens ++ [u])[i]? = some t) : tokens[i]? = some t ∨ i = tokens.length ∧ t = u := by
  by_cases hlt : i < tokens.length
  · rw [List.getElem?_append_left hlt] at h
    exact .inl h
  · rw [List.getElem?_append_right (by omega), List.getElem?_singleton] at h
    split at h
    next hzero => exact .inr ⟨by omega, (Option.some.inj h).symm⟩
    next => simp at h

private theorem counted_set {i : Nat} {u : LockToken} (h : s.Inv) (hu : u.alive ≤ u.strong) :
    ∀ t ∈ s.tokens.set i u, t.alive ≤ t.strong := by
  intro t ht
  cases List.mem_or_eq_of_mem_set ht with
  | inl ht => exact h.counted t ht
  | inr heq => exact heq ▸ hu

/-- One token changes, and the table stays as it is. -/
theorem setToken (h : s.Inv) {i : Nat} {t u : LockToken} (ht : s.tokens[i]? = some t)
    (htx : u.tx = t.tx) (halive : 0 < u.alive → 0 < t.alive) (hcounted : u.alive ≤ u.strong) :
    (s.setToken i u).Inv := by
  refine h.of_tokens rfl List.length_set (h.counted_set hcounted) fun j t' ht' halive' => ?_
  cases getElem?_set_cases ht' with
  | inl hsame =>
      obtain ⟨rfl, rfl⟩ := hsame
      exact ⟨t, ht, htx.symm, halive halive', fun _ _ h => h⟩
  | inr hother => exact ⟨t', hother.2, rfl, halive', fun _ _ h => h⟩

/-- One call moves on, and the table may grow. -/
theorem setCall (h : s.Inv) {c : Nat} {call call' : LockCall} {owners : Owners}
    (hcall : s.calls[c]? = some call) (htoken : call'.token = call.token)
    (howners : ∀ resource e, e ∈ s.owners resource → e ∈ owners resource)
    (hrecorded : call'.phase.Granted → ({ s with owners } : LockSystem).Recorded call')
    (hgranted : call'.blocking = true → call'.phase.Granted) :
    ({ s.setCall c call' with owners } : LockSystem).Inv where
  counted := h.counted
  distinct := h.distinct
  inRange call hmem := by
    cases List.mem_or_eq_of_mem_set hmem with
    | inl hmem => exact h.inRange call hmem
    | inr heq =>
        rw [heq, htoken]
        exact h.inRange _ (List.mem_of_getElem? hcall)
  recorded call hmem hphase := by
    cases List.mem_or_eq_of_mem_set hmem with
    | inl hmem => exact fun t ht halive => howners _ _ (h.recorded call hmem hphase t ht halive)
    | inr heq => exact heq ▸ hrecorded (heq ▸ hphase)
  granted call hmem hblocking := by
    cases List.mem_or_eq_of_mem_set hmem with
    | inl hmem => exact h.granted call hmem hblocking
    | inr heq => exact .inr (heq ▸ hgranted (heq ▸ hblocking))

theorem begin (h : s.Inv) (hfresh : ∀ t ∈ s.tokens, 0 < t.alive → t.tx ≠ s.nextTx) :
    ({ s with
      nextTx := s.nextTx + 1
      tokens := s.tokens ++ [⟨s.nextTx, [], 1, 1⟩] } : LockSystem).Inv where
  counted t ht := by
    cases List.mem_append.mp ht with
    | inl ht => exact h.counted t ht
    | inr ht => simp [List.mem_singleton.mp ht]
  distinct i j t t' ht ht' halive halive' htx := by
    cases getElem?_concat_cases ht with
    | inl ht =>
        cases getElem?_concat_cases ht' with
        | inl ht' => exact h.distinct i j t t' ht ht' halive halive' htx
        | inr hnew =>
            obtain ⟨-, rfl⟩ := hnew
            exact absurd htx (hfresh t (List.mem_of_getElem? ht) halive)
    | inr hnew =>
        obtain ⟨rfl, rfl⟩ := hnew
        cases getElem?_concat_cases ht' with
        | inl ht' => exact absurd htx.symm (hfresh t' (List.mem_of_getElem? ht') halive')
        | inr hnew => exact hnew.1.symm
  inRange call hcall := by
    rw [List.length_append]
    exact Nat.lt_add_right _ (h.inRange call hcall)
  recorded call hcall hphase t ht halive := by
    rw [List.getElem?_append_left (h.inRange call hcall)] at ht
    exact h.recorded call hcall hphase t ht halive
  granted := h.granted

theorem call (h : s.Inv) {i : Nat} {t : LockToken} {resource : String} {mode : LockMode}
    {blocking : Bool} (ht : s.tokens[i]? = some t) :
    ({ s with calls := s.calls ++ [⟨i, resource, mode, blocking, .waiting⟩] } : LockSystem).Inv where
  counted := h.counted
  distinct := h.distinct
  inRange call hcall := by
    cases List.mem_append.mp hcall with
    | inl hcall => exact h.inRange call hcall
    | inr hcall =>
        rw [List.mem_singleton.mp hcall]
        exact (List.getElem?_eq_some_iff.mp ht).1
  recorded call hcall hphase := by
    cases List.mem_append.mp hcall with
    | inl hcall => exact h.recorded call hcall hphase
    | inr hcall =>
        rw [List.mem_singleton.mp hcall] at hphase
        exact hphase.elim
  granted call hcall hblocking := by
    cases List.mem_append.mp hcall with
    | inl hcall => exact h.granted call hcall hblocking
    | inr hcall => exact .inl (by rw [List.mem_singleton.mp hcall])

theorem finish (h : s.Inv) {c : Nat} {call : LockCall} {t : LockToken} {granted : Bool}
    (hcall : s.calls[c]? = some call) (ht : s.tokens[call.token]? = some t)
    (hphase : call.phase = .acquired granted) : (s.finish c call t granted).Inv := by
  have hmem := List.mem_of_getElem? hcall
  have hset : (s.setCall c { call with phase := .returned granted }).Inv := by
    refine h.setCall hcall rfl (fun _ _ h => h) (fun hgranted => ?_) fun hblocking => ?_
    · exact h.recorded call hmem (by rw [hphase]; exact hgranted)
    · have hor := h.granted call hmem hblocking
      rw [hphase] at hor
      exact hor.resolve_left (by simp)
  unfold LockSystem.finish
  split
  · exact hset.setToken ht rfl (fun h => h) (h.counted t (List.mem_of_getElem? ht))
  · exact hset

/-- Only the last handle of a token gives its locks back. -/
theorem dropStart (h : s.Inv) {i : Nat} {t : LockToken} (ht : s.tokens[i]? = some t)
    (halive : 0 < t.alive) :
    ({ s.setToken i { t with alive := t.alive - 1 } with
      owners := if t.strong = 1 then releaseAll s.owners t.tx else s.owners } : LockSystem).Inv := by
  have hle := h.counted t (List.mem_of_getElem? ht)
  have hcounted : t.alive - 1 ≤ t.strong := by omega
  refine h.of_tokens rfl List.length_set (h.counted_set hcounted) fun j t' ht' halive' => ?_
  cases getElem?_set_cases ht' with
  | inl hsame =>
      obtain ⟨rfl, rfl⟩ := hsame
      have hmany : t.strong ≠ 1 := by
        have halive' : 0 < t.alive - 1 := halive'
        omega
      exact ⟨t, ht, rfl, halive, fun _ _ hmem => by rwa [if_neg hmany]⟩
  | inr hother =>
      refine ⟨t', hother.2, rfl, halive', fun resource mode hmem => ?_⟩
      have hne : t'.tx ≠ t.tx := fun htx =>
        hother.1 (h.distinct j i t' t hother.2 ht halive' halive htx)
      split
      · exact mem_releaseAll.mpr ⟨hmem, hne⟩
      · exact hmem

theorem step (h : s.Inv) {a : LockAction} (ha : s.Regular a) (hstep : s.step a = some s') :
    s'.Inv := by
  cases step_moves hstep with
  | begin => exact h.begin ha
  | clone ht halive =>
      exact h.setToken ht rfl (fun _ => halive)
        (Nat.succ_le_succ (h.counted _ (List.mem_of_getElem? ht)))
  | call ht _ => exact h.call ht
  | granted hcall ht _ =>
      refine h.setCall hcall rfl (fun _ _ hmem => mem_grant.mpr (.inl hmem)) (fun _ => ?_)
        fun _ => rfl
      intro t' ht' _
      obtain rfl := Option.some.inj (ht.symm.trans ht')
      exact mem_grant.mpr (.inr ⟨rfl, rfl⟩)
  | timedOut hcall ht hcompatible =>
      refine h.setCall hcall rfl (fun _ _ h => h) (fun hgranted => by simp [Phase.Granted] at hgranted)
        fun hblocking => ?_
      simp [ha rfl _ hcall hblocking _ ht] at hcompatible
  | waits => exact h
  | finish hcall ht hphase => exact h.finish hcall ht hphase
  | dropStart ht halive => exact h.dropStart ht halive
  | dropEnd ht hstrong => exact h.setToken ht rfl (fun h => h) (Nat.le_sub_one_of_lt hstrong)

end Inv

end LockSystem

/--
Exclusive locks are exclusive in every interleaving, and where no blocking call
times out, every lock that `shared` or `exclusive` reported is in the table.
-/
theorem locks_exclusive_and_honest (as : List LockAction) (s : LockSystem) :
    (Trace LockSystem.step (fun _ _ => True) .initial as s → LockManager.Exclusive s.owners) ∧
    (Trace LockSystem.step LockSystem.Regular .initial as s → s.Honest) := by
  constructor
  · intro htrace
    refine htrace.invariant ?_ fun _ _ _ h _ hstep => LockSystem.exclusive_step h hstep
    simp [LockManager.Exclusive, LockSystem.initial]
  · intro htrace
    have hinv : s.Inv :=
      htrace.invariant LockSystem.Inv.initial fun _ _ _ h ha hstep => h.step ha hstep
    exact hinv.honest

/-- Two transactions share the database. -/
theorem locks_shared_by_two : ∃ s : LockSystem, (1, .shared) ∈ s.owners "database" ∧
    (2, .shared) ∈ s.owners "database" ∧ LockManager.Exclusive s.owners ∧ s.Honest := by
  have htrace : Trace LockSystem.step LockSystem.Regular .initial
      [.begin, .begin, .call 0 "database" .shared true, .call 1 "database" .shared true,
        .turn 0 false, .turn 1 false, .finish 0, .finish 1] _ :=
    .cons (by simp [LockSystem.Regular, LockSystem.initial]) rfl <|
      .cons (by simp [LockSystem.Regular, LockSystem.initial]) rfl <|
      .cons trivial rfl <| .cons trivial rfl <| .cons nofun rfl <| .cons nofun rfl <|
      .cons trivial rfl <| .cons trivial rfl <| .nil _
  exact ⟨_, by decide, by decide,
    (locks_exclusive_and_honest _ _).1 (htrace.weaken fun _ _ _ => trivial),
    (locks_exclusive_and_honest _ _).2 htrace⟩

/-- The second of two transactions waits until its timeout, and `exclusive` returns to it. -/
theorem exclusive_returns_without_lock :
    ¬∀ as s, Trace LockSystem.step (fun _ _ => True) .initial as s → s.Honest := by
  intro h
  have hhonest := h [.begin, .call 0 "database" .exclusive true, .turn 0 false, .finish 0,
    .begin, .call 1 "database" .exclusive true, .turn 1 false, .turn 1 true, .finish 1] _
    (.cons trivial rfl <| .cons trivial rfl <| .cons trivial rfl <| .cons trivial rfl <|
      .cons trivial rfl <| .cons trivial rfl <| .cons trivial rfl <| .cons trivial rfl <|
      .cons trivial rfl <| .nil _)
  have hmem := hhonest ⟨1, "database", .exclusive, true, .returned false⟩ (.tail _ (.head _)) rfl
    false rfl ⟨2, ["database"], 1, 1⟩ rfl (by decide)
  revert hmem
  decide

end ChocoBase.Concurrency
