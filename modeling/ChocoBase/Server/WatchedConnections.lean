import ChocoBase.Server.ExtendedQuery
import Mathlib

/-!
# A server whose sessions are watched

Beside every connection stands its watch.  As long as the clients are polite and no
session has a transaction open when it says that it is ready, every session skips
what it should and names the state of its transaction.
-/

namespace ChocoBase.Server

open ChocoBase.Foundation ChocoBase.Engine ChocoBase.Sql ChocoBase.Types ChocoBase.Auth

structure Observed where
  server : Running
  watches : Nat → Watch

namespace Observed

section Calls

variable (host : Host)

/-- The call that a connection waits for, with the answer that it gets. -/
def pending (s : Observed) (id : Nat) (a : Answer) :
    Option ((op : Call) × Except IoErrorKind op.Res) :=
  (s.server.get id).bind fun c =>
    match c.todo with
    | .call op _ => (Call.answered op a).map fun r => ⟨op, r⟩
    | _ => none

def noted (s : Observed) : ServerAction → Nat → Watch
  | .accept .. => Function.update s.watches s.server.connections.length .initial
  | .answer id a =>
      match s.pending id a with
      | some ⟨op, r⟩ => Function.update s.watches id ((s.watches id).after op r)
      | none => s.watches
  | .perform _ | .close _ => s.watches

def step (s : Observed) (a : ServerAction) : Option Observed :=
  (s.server.step host a).map fun server => ⟨server, s.noted a⟩

end Calls

/-- What `ReadyForQuery` has to say: whether a transaction that the session opened is open. -/
def status (s : Observed) (id : Nat) : Char := if s.server.opener = some id then 'T' else 'I'

/-- The call is one that the session may make now. -/
def Fits (s : Observed) (id : Nat) : Call → Prop
  | .readExact _ | .flush => True
  | .send (.readyForQuery status) => (s.watches id).skipping = false ∧ status = s.status id
  | _ => (s.watches id).skipping = false

/-- After an error nothing is executed up to `Sync`, and every status is the right one. -/
def Conforms (s : Observed) : ServerAction → Prop
  | .answer id _ | .perform id => ∀ c ∈ s.server.get id, c.protocol = .postgres →
      match c.todo with
      | .call op _ => s.Fits id op
      | _ => True
  | _ => True

/-- The client is polite, and a session that is ready has no transaction open. -/
def Meets (s : Observed) : ServerAction → Prop
  | .answer id a => ∀ call ∈ s.pending id a, (s.watches id).Polite call.1 call.2 ∧
      (PostgresWire.announces call.1 → s.server.opener ≠ some id)
  | _ => True

instance (w : Watch) (op : Call) (r : Except IoErrorKind op.Res) : Decidable (w.Polite op r) := by
  unfold Watch.Polite
  split <;> infer_instance

instance (s : Observed) (a : ServerAction) : Decidable (s.Meets a) :=
  match a with
  | .answer id a => inferInstanceAs (Decidable (∀ call ∈ s.pending id a,
      (s.watches id).Polite call.1 call.2 ∧
        (PostgresWire.announces call.1 → s.server.opener ≠ some id)))
  | .accept .. | .perform _ | .close _ => inferInstanceAs (Decidable True)

instance decidableFits (s : Observed) (id : Nat) (op : Call) : Decidable (s.Fits id op) := by
  unfold Fits
  split <;> infer_instance

instance decidableConforms (s : Observed) (id : Nat) (todo : Talk Unit) :
    Decidable (match todo with
      | .call op _ => s.Fits id op
      | _ => True) :=
  match todo with
  | .call op _ => decidableFits s id op
  | .pure _ | .throw _ | .halt _ => inferInstanceAs (Decidable True)

instance (s : Observed) (a : ServerAction) : Decidable (s.Conforms a) :=
  match a with
  | .answer id _ | .perform id => inferInstanceAs (Decidable (∀ c ∈ s.server.get id,
      c.protocol = .postgres →
        match c.todo with
        | .call op _ => s.Fits id op
        | _ => True))
  | .accept .. | .close _ => inferInstanceAs (Decidable True)

/-! ## The invariant -/

section Steps

variable {host : Host} {s s' : Observed}

/-- Whatever a session still does, its watch allows. -/
structure Inv (s : Observed) : Prop where
  sessions : ∀ id c, s.server.get id = some c → c.protocol = .postgres →
    PostgresWire.Watches (s.watches id) c.todo fun _ _ => True

theorem inv_fresh {server : Running} (h : Running.Fresh server) :
    Inv ⟨server, fun _ => .initial⟩ where
  sessions id c hc := by simp [Running.get, h.alone] at hc

/-- One session has moved on. -/
theorem Inv.update (h : Inv s) (id : Nat) (w : Watch)
    (hothers : ∀ id' c, id' ≠ id → s'.server.get id' = some c → s.server.get id' = some c)
    (hself : ∀ c, s'.server.get id = some c → c.protocol = .postgres →
      PostgresWire.Watches w c.todo fun _ _ => True)
    (hwatches : s'.watches = Function.update s.watches id w) : Inv s' where
  sessions id' c hc hpostgres := by
    rw [hwatches]
    by_cases heq : id' = id
    · subst heq
      rw [Function.update_self]
      exact hself c hc hpostgres
    · rw [Function.update_of_ne heq]
      exact h.sessions id' c (hothers id' c heq hc) hpostgres

theorem inv_accept (h : Inv s) {protocol : Protocol} {fuel : Nat}
    (hs' : s.step host (.accept protocol fuel) = some s') : Inv s' := by
  obtain ⟨server, hserver, rfl⟩ := Option.map_eq_some_iff.mp hs'
  obtain rfl := Option.some.inj hserver
  refine h.update _ _ (fun id' c hne hc => ?_) (fun c hc hpostgres => ?_) rfl
  · have hlt : id' < s.server.connections.length := by
      by_contra hlt
      simp only [Running.get] at hc
      rw [List.getElem?_eq_none (by simp; omega)] at hc
      cases hc
    simpa [Running.get, List.getElem?_append_left hlt] using hc
  · simp only [Running.get, List.getElem?_concat_length, Option.join_some, Option.some.injEq] at hc
    subst hc
    obtain rfl : protocol = .postgres := hpostgres
    exact PostgresWire.watches_runSession fuel

theorem inv_close (h : Inv s) {id : Nat} (hs' : s.step host (.close id) = some s') : Inv s' := by
  obtain ⟨server, hserver, rfl⟩ := Option.map_eq_some_iff.mp hs'
  obtain ⟨c, hc, hclose⟩ := Option.bind_eq_some_iff.mp hserver
  obtain ⟨-, heq⟩ := Option.ite_none_right_eq_some.mp hclose
  obtain rfl := Option.some.inj heq
  have hget := Running.get_set hc none
  refine ⟨fun id' c' hc' hpostgres => h.sessions id' c' ?_ hpostgres⟩
  change (s.server.connections.set id none)[id']?.join = some c' at hc'
  rw [hget] at hc'
  exact (Option.ite_none_left_eq_some.mp hc').2

/-- The status that is allowed is the right one. -/
theorem fits_of_allows {id : Nat} {op : Call} (h : (s.watches id).Allows op)
    (hclosed : PostgresWire.announces op → s.server.opener ≠ some id) : s.Fits id op := by
  cases op
  case send message =>
    cases message
    case readyForQuery status =>
      refine ⟨h.1, ?_⟩
      rw [h.2, Observed.status, if_neg (hclosed rfl)]
    all_goals exact h
  all_goals exact h

theorem conforms_answer (h : Inv s) {id : Nat} {a : Answer} (hmeets : s.Meets (.answer id a))
    (hs' : s.step host (.answer id a) = some s') : s.Conforms (.answer id a) ∧ Inv s' := by
  obtain ⟨server, hserver, rfl⟩ := Option.map_eq_some_iff.mp hs'
  obtain ⟨c, hc, hanswer⟩ := Option.bind_eq_some_iff.mp hserver
  unfold Running.answerTo at hanswer
  split at hanswer
  · next op next htodo =>
      obtain ⟨r, hr, rfl⟩ := Option.map_eq_some_iff.mp hanswer
      have hpending : s.pending id a = some ⟨op, r⟩ := by
        rw [pending, hc, Option.bind_some, htodo]
        exact congrArg (Option.map fun r => (⟨op, r⟩ : (op : Call) × Except IoErrorKind op.Res)) hr
      obtain ⟨hpolite, hclosed⟩ := hmeets _ hpending
      have hget := Running.get_set hc (some { c with todo := next r })
      refine ⟨fun c' hc' hpostgres => ?_, h.update id ((s.watches id).after op r)
        (fun id' c' hne hc' => ?_) (fun c' hc' hpostgres => ?_) (by simp [noted, hpending])⟩
      · obtain rfl := Option.some.inj (hc.symm.trans hc')
        have hsession := h.sessions id c hc hpostgres
        rw [htodo] at hsession ⊢
        exact fits_of_allows hsession.1 hclosed
      · change (s.server.connections.set id _)[id']?.join = some c' at hc'
        rwa [hget, if_neg hne] at hc'
      · change (s.server.connections.set id _)[id]?.join = some c' at hc'
        rw [hget, if_pos rfl] at hc'
        obtain rfl := Option.some.inj hc'
        have hsession := h.sessions id c hc hpostgres
        rw [htodo] at hsession
        cases r with
        | ok value => exact hsession.2.1 value _ ⟨hpolite, rfl⟩
        | error e => exact hsession.2.2.1 e _ rfl
  · cases hanswer

theorem conforms_perform (h : Inv s) {id : Nat} (hs' : s.step host (.perform id) = some s') :
    s.Conforms (.perform id) ∧ Inv s' := by
  obtain ⟨server, hserver, rfl⟩ := Option.map_eq_some_iff.mp hs'
  obtain ⟨c, hc, hperform⟩ := Option.bind_eq_some_iff.mp hserver
  unfold Running.performFor at hperform
  split at hperform
  · next op next htodo =>
      obtain ⟨x, hx, hrun⟩ := Option.bind_eq_some_iff.mp hperform
      split at hrun
      · next r d hd =>
          obtain rfl := Option.some.inj hrun
          have hsilent : PostgresWire.announces op = false := by
            cases op
            case send => cases hx
            all_goals rfl
          have hafter : ∀ w : Watch, w.Polite op (.ok r) ∧ w.after op (.ok r) = w := fun w => by
            cases op
            case send => cases hx
            case readExact => cases hx
            all_goals exact ⟨trivial, rfl⟩
          have hget := Running.get_set hc
            (some { c with todo := next (.ok r), transaction := d.transaction })
          refine ⟨fun c' hc' hpostgres => ?_, h.update id (s.watches id)
            (fun id' c' hne hc' => ?_) (fun c' hc' hpostgres => ?_)
            (Function.update_eq_self id s.watches).symm⟩
          · obtain rfl := Option.some.inj (hc.symm.trans hc')
            have hsession := h.sessions id c hc hpostgres
            rw [htodo] at hsession ⊢
            exact fits_of_allows hsession.1 fun h => by rw [hsilent] at h; cases h
          · change (s.server.connections.set id _)[id']?.join = some c' at hc'
            rwa [hget, if_neg hne] at hc'
          · change (s.server.connections.set id _)[id]?.join = some c' at hc'
            rw [hget, if_pos rfl] at hc'
            obtain rfl := Option.some.inj hc'
            have hsession := h.sessions id c hc hpostgres
            rw [htodo] at hsession
            have hpost := hsession.2.1 r ((s.watches id).after op (.ok r))
              ⟨(hafter (s.watches id)).1, rfl⟩
            rwa [(hafter (s.watches id)).2] at hpost
      · cases hrun
  · cases hperform

end Steps

/-! ## Runs -/

theorem conforms_of_meets {host : Host} {server : Running} (hfresh : Running.Fresh server)
    {actions : List ServerAction} {s' : Observed}
    (h : Trace (step host) Meets ⟨server, fun _ => .initial⟩ actions s') :
    Trace (step host) Conforms ⟨server, fun _ => .initial⟩ actions s' := by
  refine h.strengthen (inv_fresh hfresh) fun s a s' hinv hmeets hstep => ?_
  cases a with
  | accept protocol fuel => exact ⟨trivial, inv_accept hinv hstep⟩
  | answer id a => exact conforms_answer hinv hmeets hstep
  | perform id => exact conforms_perform hinv hstep
  | close id => exact ⟨trivial, inv_close hinv hstep⟩

/-! ## A client -/

open Running (plainHost atRest fresh_atRest ascii pgMessage)

def writes (count : Nat) : List ServerAction := List.replicate count (.answer 0 .done)

/-- A client logs in, and its session answers at most `fuel` messages. -/
def login (fuel : Nat) : List ServerAction :=
  let startup := [0, 3, 0, 0] ++ ascii "user" ++ [0] ++ ascii "postgres" ++ [0, 0]
  [.accept .postgres fuel, .answer 0 (.bytes ((beBytes 4 (startup.length + 4)).drop 1)),
    .answer 0 (.bytes startup)] ++ writes 2 ++ pgMessage "p" (ascii "postgres" ++ [0]) ++
    [.perform 0, .answer 0 (.verified true)] ++ writes 12

/-- `Parse`, `Bind` and `Execute` of a query that fails. -/
def failing : List ServerAction :=
  pgMessage "P" ([0] ++ ascii "SELECT * FROM nothing" ++ [0, 0, 0]) ++ writes 1 ++
    pgMessage "B" [0, 0, 0, 0, 0, 0, 0, 0] ++ writes 1 ++
    pgMessage "E" [0, 0, 0, 0, 0] ++ [.perform 0] ++ writes 1

def failAndSync : List ServerAction :=
  login 5 ++ failing ++ pgMessage "S" [] ++ writes 2 ++ pgMessage "X" [] ++ [.close 0]

theorem conforms_failAndSync :
    ∃ s', Trace (step plainHost) Conforms ⟨atRest, fun _ => .initial⟩ failAndSync s' := by
  have hfollow :
      (Trace.follow (step plainHost) Meets ⟨atRest, fun _ => .initial⟩ failAndSync).isSome := by
    decide +kernel
  obtain ⟨s', hs'⟩ := Option.isSome_iff_exists.mp hfollow
  exact ⟨s', conforms_of_meets fresh_atRest (Trace.of_follow hs')⟩

/-- A client begins a transaction. -/
def beginAndWait : List ServerAction :=
  login 2 ++ pgMessage "Q" (ascii "BEGIN" ++ [0]) ++ [.perform 0] ++ writes 3

/-- A client does not wait for the outcome of a query and executes it again. -/
def failAndExecute : List ServerAction :=
  login 5 ++ failing ++ pgMessage "E" [0, 0, 0, 0, 0] ++ [.perform 0] ++ writes 1

/-- A run of which the check stops short is possible and does not conform. -/
theorem diverges_of_follow {actions : List ServerAction}
    (hruns : (Trace.follow (step plainHost) (fun _ _ => True) ⟨atRest, fun _ => .initial⟩
      actions).isSome ∧
      (Trace.follow (step plainHost) Conforms ⟨atRest, fun _ => .initial⟩ actions).isNone) :
    ∃ s', Trace (step plainHost) (fun _ _ => True) ⟨atRest, fun _ => .initial⟩ actions s' ∧
      ¬Trace (step plainHost) Conforms ⟨atRest, fun _ => .initial⟩ actions s' := by
  obtain ⟨hpossible, hfails⟩ := hruns
  obtain ⟨s', hs'⟩ := Option.isSome_iff_exists.mp hpossible
  refine ⟨s', Trace.of_follow hs', fun h => ?_⟩
  rw [h.to_follow] at hfails
  cases hfails

theorem sessions_do_not_conform :
    (∃ s', Trace (step plainHost) (fun _ _ => True) ⟨atRest, fun _ => .initial⟩ beginAndWait s' ∧
      ¬Trace (step plainHost) Conforms ⟨atRest, fun _ => .initial⟩ beginAndWait s') ∧
    ∃ s', Trace (step plainHost) (fun _ _ => True) ⟨atRest, fun _ => .initial⟩ failAndExecute s' ∧
      ¬Trace (step plainHost) Conforms ⟨atRest, fun _ => .initial⟩ failAndExecute s' :=
  ⟨diverges_of_follow (by decide +kernel), diverges_of_follow (by decide +kernel)⟩

end Observed

end ChocoBase.Server
