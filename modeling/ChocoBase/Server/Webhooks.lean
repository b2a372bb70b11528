import ChocoBase.Engine.Requests
import ChocoBase.Foundation.Broadcast
import ChocoBase.Foundation.Updates
import ChocoBase.Foundation.Trace
import ChocoBase.Sql.Parser

/-!
# Webhooks

The dispatcher takes the change events from a broadcast channel and starts a task for
every webhook that matches.  A task posts until a post succeeds or its retries are used
up; then it leaves an entry in the dead-letter queue.

Whether a post succeeds is decided by the connection only: the status of the response
is never read.
-/

namespace ChocoBase.Server.Webhooks

open ChocoBase.Foundation ChocoBase.Engine ChocoBase.Sql ChocoBase.Types

structure WebhookConfig where
  id : String
  tableName : String
  events : List String
  targetUrl : String
  headers : List (String × String)
  active : Bool
  maxRetries : Nat

structure Payload where
  type : String
  table : String
  timestamp : UInt64
  record : Option Row
  oldRecord : Option Row

structure DeadLetterEntry where
  id : String
  webhookId : String
  targetUrl : String
  payload : Payload
  lastError : String
  attempts : Nat
  failedAt : UInt64

def actionStr : ChangeAction → String
  | .insert => "INSERT"
  | .update => "UPDATE"
  | .delete => "DELETE"

def payloadOf (event : ChangeEvent) : Payload where
  type := actionStr event.action
  table := event.table
  timestamp := event.timestampMs
  record := event.newRow
  oldRecord := event.oldRow

/-- The three tests of the dispatcher. -/
def WebhookConfig.matchesEvent (webhook : WebhookConfig) (event : ChangeEvent) : Bool :=
  webhook.active && (webhook.tableName == "*" || webhook.tableName == event.table) &&
    webhook.events.any fun e =>
      e == "*" || Parser.eqIgnoreAsciiCase e (actionStr event.action)

/-- How the target meets a post. -/
inductive Outcome where
  /-- no connection, or it failed before the request was written -/
  | refused (error : String)
  /-- the connection ended before a response -/
  | dropped
  | response (status : Nat)
  deriving DecidableEq

/-- The result of the read is ignored, and so is what was read. -/
def dispatchHttpPost : Outcome → Except String Unit
  | .refused error => .error error
  | .dropped | .response _ => .ok ()

/-- Where a task is. -/
inductive Phase where
  /-- in the loop of `dispatch_with_retry`, with its local variables -/
  | retrying (attempt delayMs : Nat)
  | delivered
  /-- with the error of the last attempt, before the queue is locked -/
  | failed (error : String)
  | buried (entry : DeadLetterEntry)

def Phase.Ended : Phase → Prop
  | .delivered | .buried _ => True
  | .retrying _ _ | .failed _ => False

instance : DecidablePred Phase.Ended
  | .delivered | .buried _ => instDecidableTrue
  | .retrying _ _ | .failed _ => instDecidableFalse

/-- One round of `dispatch_with_retry`. -/
def retry (maxRetries attempt delayMs : Nat) : Except String Unit → Phase
  | .ok () => .delivered
  | .error e =>
      if maxRetries ≤ attempt + 1 then .failed e
      else .retrying (attempt + 1) (min (delayMs * 2) 1000)

/-- A task, with what the target has answered it so far. -/
structure Delivery where
  event : ChangeEvent
  webhook : WebhookConfig
  phase : Phase
  outcomes : List Outcome

namespace Delivery

def spawn (event : ChangeEvent) (webhook : WebhookConfig) : Delivery where
  event
  webhook
  phase := .retrying 0 25
  outcomes := []

def maxRetries (d : Delivery) : Nat := max d.webhook.maxRetries 1

def deadLetter (d : Delivery) (error : String) (failedAt : UInt64) : DeadLetterEntry where
  id := "dlq_" ++ d.webhook.id ++ "_" ++ toString failedAt.toNat
  webhookId := d.webhook.id
  targetUrl := d.webhook.targetUrl
  payload := payloadOf d.event
  lastError := error
  attempts := d.maxRetries
  failedAt

def attempt (d : Delivery) (outcome : Outcome) : Option Delivery :=
  match d.phase with
  | .retrying attempt delayMs =>
      some { d with
        phase := retry d.maxRetries attempt delayMs (dispatchHttpPost outcome)
        outcomes := d.outcomes ++ [outcome] }
  | _ => none

/-- The entry that the task has left in the queue. -/
def entryOf (d : Delivery) : Option DeadLetterEntry :=
  match d.phase with
  | .buried entry => some entry
  | _ => none

end Delivery

structure Dispatcher where
  configs : List WebhookConfig
  changes : Broadcast ChangeEvent
  /-- the loop over the channel has not ended -/
  receiving : Bool
  deliveries : List Delivery
  dlq : List DeadLetterEntry

inductive Action where
  | commit (event : ChangeEvent)
  | receive
  | attempt (task : Nat) (outcome : Outcome)
  | bury (task : Nat) (failedAt : UInt64)

/-- The capacity of the engine's channel of change events. -/
def channelCapacity : Nat := 1024

namespace Dispatcher

def start (configs : List WebhookConfig) : Dispatcher where
  configs
  changes := .empty
  receiving := true
  deliveries := []
  dlq := []

def spawned (s : Dispatcher) (event : ChangeEvent) : List Delivery :=
  (s.configs.filter fun webhook => webhook.matchesEvent event).map (Delivery.spawn event)

/-- `while let Ok(event) = change_rx.recv().await`: a receiver that lags ends the loop. -/
def receive (s : Dispatcher) : Option Dispatcher :=
  if s.receiving then
    match s.changes.recv channelCapacity with
    | none => none
    | some (.lagged _, changes) => some { s with changes, receiving := false }
    | some (.message event, changes) =>
        some { s with changes, deliveries := s.deliveries ++ s.spawned event }
  else none

def step (s : Dispatcher) : Action → Option Dispatcher
  | .commit event => some { s with changes := s.changes.send event }
  | .receive => s.receive
  | .attempt task outcome => do
      let d ← s.deliveries[task]?
      let d' ← d.attempt outcome
      return { s with deliveries := s.deliveries.set task d' }
  | .bury task failedAt =>
      match s.deliveries[task]? with
      | some d =>
          match d.phase with
          | .failed error =>
              let entry := d.deadLetter error failedAt
              some { s with
                deliveries := s.deliveries.set task { d with phase := .buried entry }
                dlq := s.dlq ++ [entry] }
          | _ => none
      | none => none

end Dispatcher

/-! ## What is owed to the webhooks -/

def Outcome.Succeeds : Outcome → Prop
  | .response status => 200 ≤ status ∧ status < 300
  | _ => False

instance : DecidablePred Outcome.Succeeds
  | .refused _ | .dropped => instDecidableFalse
  | .response status => inferInstanceAs (Decidable (200 ≤ status ∧ status < 300))

/-- The target has not taken the request. -/
def Outcome.Refused : Outcome → Prop
  | .refused _ => True
  | _ => False

instance : DecidablePred Outcome.Refused
  | .refused _ => instDecidableTrue
  | .dropped | .response _ => instDecidableFalse

/-- One of the attempts was answered with a 2xx status. -/
def Delivery.Answered (d : Delivery) : Prop := ∃ outcome ∈ d.outcomes, outcome.Succeeds

/-- The task has ended as it should, answered or after all of its attempts. -/
structure Delivery.Settled (d : Delivery) : Prop where
  attempts : d.outcomes.length ≤ d.maxRetries
  answered : d.Answered → d.entryOf = none
  buried : ¬d.Answered → d.outcomes.length = d.maxRetries ∧
    ∃ error failedAt, d.entryOf = some (d.deadLetter error failedAt)

namespace Dispatcher

/-- Nothing is left to do before the next commit. -/
def AtRest (s : Dispatcher) : Prop :=
  s.receive = none ∧ ∀ d ∈ s.deliveries, d.phase.Ended

instance : DecidablePred AtRest := fun s =>
  have : Decidable (s.receive = none) := decidable_of_iff _ Option.isNone_iff_eq_none
  inferInstanceAs (Decidable (_ ∧ _))

/-- Each event and each webhook it matches, with what the target has answered. -/
structure Accounted (s : Dispatcher) : Prop where
  started : s.deliveries.map (fun d => (d.event, d.webhook)) = s.changes.sent.flatMap fun event =>
    (s.configs.filter fun webhook => webhook.matchesEvent event).map fun webhook => (event, webhook)
  settled : ∀ d ∈ s.deliveries, d.Settled
  queued : s.dlq.Perm (s.deliveries.filterMap Delivery.entryOf)

/-- The channel has room for the event, and the target answers with a 2xx status or
does not take the request. -/
def Meets (s : Dispatcher) : Action → Prop
  | .commit _ => s.changes.pending.length < channelCapacity
  | .attempt _ outcome => outcome.Succeeds ∨ outcome.Refused
  | _ => True

instance (s : Dispatcher) : DecidablePred s.Meets
  | .commit _ => inferInstanceAs (Decidable (_ < _))
  | .attempt _ _ => inferInstanceAs (Decidable (_ ∨ _))
  | .receive | .bury _ _ => instDecidableTrue

end Dispatcher

/-! ## One task -/

namespace Delivery

variable {d d' : Delivery} {outcome : Outcome}

/-- Where the task is, and what the target has answered. -/
def Kept (d : Delivery) : Prop :=
  match d.phase with
  | .retrying attempt _ => attempt = d.outcomes.length ∧ attempt < d.maxRetries ∧ ¬d.Answered
  | .delivered => d.outcomes.length ≤ d.maxRetries ∧ d.Answered
  | .failed _ => d.outcomes.length = d.maxRetries ∧ ¬d.Answered
  | .buried entry => d.outcomes.length = d.maxRetries ∧ ¬d.Answered ∧
      ∃ error failedAt, entry = d.deadLetter error failedAt

theorem kept_spawn (event : ChangeEvent) (webhook : WebhookConfig) :
    (spawn event webhook).Kept := by
  refine ⟨rfl, ?_, ?_⟩
  · exact lt_of_lt_of_le Nat.zero_lt_one (Nat.le_max_right _ _)
  · rintro ⟨outcome, hmem, -⟩
    cases hmem

theorem Kept.settled (h : d.Kept) (hended : d.phase.Ended) : d.Settled := by
  cases hphase : d.phase with
  | delivered =>
      simp only [Kept, hphase] at h
      exact ⟨h.1, fun _ => by simp [entryOf, hphase], fun hno => absurd h.2 hno⟩
  | buried entry =>
      simp only [Kept, hphase] at h
      obtain ⟨hlength, hno, error, failedAt, rfl⟩ := h
      exact ⟨hlength.le, fun hyes => absurd hyes hno,
        fun _ => ⟨hlength, error, failedAt, by simp only [entryOf, hphase]⟩⟩
  | retrying attempt delayMs | failed error =>
      rw [hphase] at hended
      exact hended.elim

/-- A task that ended with no answer and no entry. -/
theorem not_settled (hno : ¬d.Answered) (hentry : d.entryOf = none) : ¬d.Settled := by
  intro h
  obtain ⟨-, error, failedAt, hburied⟩ := h.buried hno
  rw [hentry] at hburied
  cases hburied

theorem answered_append {outcomes : List Outcome} {phase : Phase}
    (hd' : d' = { d with phase, outcomes := outcomes ++ [outcome] })
    (hd : d.outcomes = outcomes) : d'.Answered ↔ d.Answered ∨ outcome.Succeeds := by
  subst hd' hd
  simp [Answered, or_and_right, exists_or]

theorem kept_attempt (h : d.Kept) (hstep : d.attempt outcome = some d')
    (hmeets : outcome.Succeeds ∨ outcome.Refused) :
    d'.Kept ∧ d.entryOf = none ∧ d'.entryOf = none ∧ d'.event = d.event ∧
      d'.webhook = d.webhook := by
  unfold attempt at hstep
  cases hphase : d.phase with
  | retrying attempt delayMs =>
      rw [hphase] at hstep
      obtain rfl := Option.some.inj hstep
      simp only [Kept, hphase] at h
      obtain ⟨hattempt, hlt, hno⟩ := h
      have hlength : (d.outcomes ++ [outcome]).length = attempt + 1 := by simp [hattempt]
      refine ⟨?_, by simp [entryOf, hphase], ?_, rfl, rfl⟩
      · cases outcome with
        | response status =>
            refine ⟨hlength.trans_le hlt, ?_⟩
            exact (answered_append rfl rfl).mpr (.inr (hmeets.resolve_right id))
        | dropped => exact hmeets.elim False.elim False.elim
        | refused error =>
            simp only [dispatchHttpPost, retry]
            split
            · next hlast =>
                refine ⟨hlength.trans (le_antisymm hlt hlast), fun hyes => ?_⟩
                exact ((answered_append rfl rfl).mp hyes).elim hno id
            · next hmore =>
                refine ⟨hlength.symm, Nat.lt_of_not_le hmore, fun hyes => ?_⟩
                exact ((answered_append rfl rfl).mp hyes).elim hno id
      · cases dispatchHttpPost outcome with
        | ok _ => rfl
        | error e => by_cases hlast : d.maxRetries ≤ attempt + 1 <;> simp [entryOf, retry, hlast]
  | delivered | failed | buried =>
      rw [hphase] at hstep
      cases hstep

theorem kept_bury {error : String} (h : d.Kept) (hphase : d.phase = .failed error)
    (failedAt : UInt64) :
    Kept { d with phase := .buried (d.deadLetter error failedAt) } := by
  simp only [Kept, hphase] at h
  exact ⟨h.1, h.2, error, failedAt, rfl⟩

/-- The attempts a task may still make, and its entry. -/
def remaining (d : Delivery) : Nat :=
  match d.phase with
  | .retrying attempt _ => d.maxRetries - attempt + 1
  | .failed _ => 1
  | .delivered | .buried _ => 0

theorem remaining_attempt (h : d.Kept) (hstep : d.attempt outcome = some d') :
    d'.remaining < d.remaining := by
  unfold attempt at hstep
  cases hphase : d.phase with
  | retrying attempt delayMs =>
      rw [hphase] at hstep
      obtain rfl := Option.some.inj hstep
      simp only [Kept, hphase] at h
      have hlt := h.2.1
      have hmax : ∀ phase outcomes, maxRetries { d with phase, outcomes } = d.maxRetries :=
        fun _ _ => rfl
      cases dispatchHttpPost outcome with
      | ok _ => simp [remaining, hphase, retry]
      | error e =>
          by_cases hlast : d.maxRetries ≤ attempt + 1 <;>
            simp only [remaining, hphase, retry, hlast, if_true, if_false, hmax] <;> omega
  | delivered | failed | buried =>
      rw [hphase] at hstep
      cases hstep

end Delivery

/-! ## The whole of a run -/

namespace Dispatcher

variable {s s' : Dispatcher} {a : Action} {actions : List Action} {configs : List WebhookConfig}

/-- The tasks that the events ask for. -/
def owed (configs : List WebhookConfig) (events : List ChangeEvent) :
    List (ChangeEvent × WebhookConfig) :=
  events.flatMap fun event =>
    (configs.filter fun webhook => webhook.matchesEvent event).map fun webhook => (event, webhook)

structure Inv (s : Dispatcher) : Prop where
  receiving : s.receiving = true
  within : s.changes.Within channelCapacity
  started : s.deliveries.map (fun d => (d.event, d.webhook)) = owed s.configs s.changes.taken
  kept : ∀ d ∈ s.deliveries, d.Kept
  queued : s.dlq.Perm (s.deliveries.filterMap Delivery.entryOf)

theorem inv_start : (start configs).Inv where
  receiving := rfl
  within := Broadcast.within_empty
  started := rfl
  kept _ hd := by cases hd
  queued := .nil

theorem Inv.receive (h : s.Inv) (hstep : s.receive = some s') :
    ∃ event, s.changes.sent[s.changes.next]? = some event ∧ s'.Inv ∧ s' = { s with
      changes := { s.changes with next := s.changes.next + 1 }
      deliveries := s.deliveries ++ s.spawned event } := by
  unfold Dispatcher.receive at hstep
  rw [if_pos h.receiving] at hstep
  cases hrecv : s.changes.recv channelCapacity with
  | none => simp [hrecv] at hstep
  | some found =>
      obtain ⟨r, changes⟩ := found
      obtain ⟨event, rfl, hevent, rfl, hwithin⟩ := h.within.recv hrecv
      rw [hrecv] at hstep
      obtain rfl := Option.some.inj hstep
      refine ⟨event, hevent, ⟨h.receiving, hwithin, ?_, ?_, ?_⟩, rfl⟩
      · rw [List.map_append, h.started, Broadcast.taken_next hevent]
        simp [owed, spawned, Delivery.spawn, Function.comp_def]
      · intro d hd
        rcases List.mem_append.mp hd with hd | hd
        · exact h.kept d hd
        · obtain ⟨webhook, -, rfl⟩ := List.mem_map.mp hd
          exact Delivery.kept_spawn event webhook
      · have hnone : (s.spawned event).filterMap Delivery.entryOf = [] := by
          refine List.filterMap_eq_nil_iff.mpr fun d hd => ?_
          obtain ⟨webhook, -, rfl⟩ := List.mem_map.mp hd
          rfl
        simpa [List.filterMap_append, hnone] using h.queued

theorem Inv.step (h : s.Inv) (hmeets : s.Meets a) (hstep : s.step a = some s') : s'.Inv := by
  cases a with
  | commit event =>
      obtain rfl := Option.some.inj hstep
      refine ⟨h.receiving, h.within.send hmeets event, ?_, h.kept, h.queued⟩
      rw [h.within.taken_send, ← h.started]
  | receive =>
      obtain ⟨event, -, hs', -⟩ := h.receive hstep
      exact hs'
  | attempt task outcome =>
      obtain ⟨d, hd, hstep⟩ := Option.bind_eq_some_iff.mp hstep
      obtain ⟨d', hd', hstep⟩ := Option.bind_eq_some_iff.mp hstep
      obtain rfl := Option.some.inj hstep
      obtain ⟨hkept, hnone, hnone', hevent, hwebhook⟩ :=
        Delivery.kept_attempt (h.kept d (List.mem_of_getElem? hd)) hd' hmeets
      refine ⟨h.receiving, h.within, ?_, forall_mem_set h.kept hkept, ?_⟩
      · rw [map_set_of_eq hd (by rw [hevent, hwebhook]), h.started]
      · rw [filterMap_set_of_none hd hnone hnone']
        exact h.queued
  | bury task failedAt =>
      simp only [Dispatcher.step] at hstep
      cases hd : s.deliveries[task]? with
      | none => simp [hd] at hstep
      | some d =>
          cases hphase : d.phase with
          | failed error =>
              simp only [hd, hphase] at hstep
              obtain rfl := Option.some.inj hstep
              let buried : Delivery := { d with phase := .buried (d.deadLetter error failedAt) }
              have hstarted : (s.deliveries.set task buried).map (fun d => (d.event, d.webhook)) =
                  owed s.configs s.changes.taken := by
                rw [map_set_of_eq hd (by rfl), h.started]
              have hqueued := filterMap_set_perm (f := Delivery.entryOf) (b := buried) hd
                (by simp [Delivery.entryOf, hphase]) rfl
              refine ⟨h.receiving, h.within, hstarted, ?_, ?_⟩
              · exact forall_mem_set h.kept
                  (Delivery.kept_bury (h.kept d (List.mem_of_getElem? hd)) hphase failedAt)
              · exact (h.queued.append_right _).trans hqueued.symm
          | retrying | delivered | buried => simp [hd, hphase] at hstep

theorem Inv.accounted (h : s.Inv) (hrest : s.AtRest) : s.Accounted where
  started := by
    have hpending : s.changes.pending = [] := by
      refine h.within.recv_eq_none_iff.mp ?_
      have hnone := hrest.1
      unfold Dispatcher.receive at hnone
      rw [if_pos h.receiving] at hnone
      cases hrecv : s.changes.recv channelCapacity with
      | none => rfl
      | some found =>
          obtain ⟨_ | _, changes⟩ := found <;> simp [hrecv] at hnone
    rw [h.started, Broadcast.taken_of_pending hpending, owed]
  settled d hd := (h.kept d hd).settled (hrest.2 d hd)
  queued := h.queued

/-! ## It comes to rest -/

/-- The steps left before the next commit. -/
def remaining (s : Dispatcher) : Nat :=
  (s.changes.pending.map fun event => 1 + ((s.spawned event).map Delivery.remaining).sum).sum +
    (s.deliveries.map Delivery.remaining).sum

theorem Inv.remaining_lt (h : s.Inv) (hcommit : ∀ event, a ≠ .commit event)
    (hstep : s.step a = some s') : s'.remaining < s.remaining := by
  cases a with
  | commit event => exact absurd rfl (hcommit event)
  | receive =>
      obtain ⟨event, hevent, -, rfl⟩ := h.receive hstep
      simp only [remaining, Broadcast.pending_eq_cons hevent, spawned, List.map_cons,
        List.sum_cons, List.map_append, List.sum_append]
      omega
  | attempt task outcome =>
      obtain ⟨d, hd, hstep⟩ := Option.bind_eq_some_iff.mp hstep
      obtain ⟨d', hd', hstep⟩ := Option.bind_eq_some_iff.mp hstep
      obtain rfl := Option.some.inj hstep
      have hlt := Delivery.remaining_attempt (h.kept d (List.mem_of_getElem? hd)) hd'
      exact Nat.add_lt_add_left (sum_set_lt hd hlt) _
  | bury task failedAt =>
      simp only [Dispatcher.step] at hstep
      cases hd : s.deliveries[task]? with
      | none => simp [hd] at hstep
      | some d =>
          cases hphase : d.phase with
          | failed error =>
              simp only [hd, hphase] at hstep
              obtain rfl := Option.some.inj hstep
              refine Nat.add_lt_add_left (sum_set_lt hd ?_) _
              simp [Delivery.remaining, hphase]
          | retrying | delivered | buried => simp [hd, hphase] at hstep

/-- Whatever the target does next, something is left to do until the dispatcher is at rest. -/
theorem exists_step (hrest : ¬s.AtRest) (outcome : Outcome) (failedAt : UInt64) :
    (s.step .receive).isSome ∨ (∃ task, (s.step (.attempt task outcome)).isSome) ∨
      ∃ task, (s.step (.bury task failedAt)).isSome := by
  by_cases hreceive : s.receive = none
  · have hopen : ¬∀ d ∈ s.deliveries, d.phase.Ended := fun h => hrest ⟨hreceive, h⟩
    push Not at hopen
    obtain ⟨d, hmem, hended⟩ := hopen
    obtain ⟨task, hd⟩ := List.mem_iff_getElem?.mp hmem
    cases hphase : d.phase with
    | retrying attempt delayMs =>
        exact .inr (.inl ⟨task, by simp [Dispatcher.step, hd, Delivery.attempt, hphase]⟩)
    | failed error => exact .inr (.inr ⟨task, by simp [Dispatcher.step, hd, hphase]⟩)
    | delivered | buried entry => exact absurd (by rw [hphase]; trivial) hended
  · exact .inl (Option.isSome_iff_ne_none.mpr hreceive)

/-- Between commits the dispatcher comes to rest, and then every event is accounted for. -/
theorem accounted_of_meets (h : Trace step Meets (start configs) actions s) :
    (s.AtRest → s.Accounted) ∧
      (¬s.AtRest → ∀ outcome failedAt, (s.step .receive).isSome ∨
        (∃ task, (s.step (.attempt task outcome)).isSome) ∨
        ∃ task, (s.step (.bury task failedAt)).isSome) ∧
      ∀ rest s', Trace step (fun s a => s.Meets a ∧ ∀ event, a ≠ .commit event) s rest s' →
        rest.length + s'.remaining ≤ s.remaining := by
  have hs : s.Inv := h.invariant inv_start fun _ _ _ hs hmeets hstep => hs.step hmeets hstep
  refine ⟨hs.accounted, exists_step, fun rest s' hrest => ?_⟩
  clear h
  induction hrest with
  | nil s => simp
  | cons hallowed hstep _ ih =>
      have hlt := hs.remaining_lt hallowed.2 hstep
      have hle := ih (hs.step hallowed.1 hstep)
      simp only [List.length_cons]
      omega

/-! ## Runs -/

/-- Every change of every table, with two attempts. -/
def onChange : WebhookConfig := ⟨"w", "*", ["*"], "http://target/", [], true, 2⟩

def anInsert : ChangeEvent := ⟨"notes", .insert, none, some [.integer 1], 100⟩

/-- The target does not take two posts of the one event, and answers the other at once. -/
def twoEvents : List Action := [
  .commit anInsert, .receive, .attempt 0 (.refused "connection refused"), .commit anInsert,
  .receive, .attempt 1 (.response 204), .attempt 0 (.refused "connection refused"), .bury 0 7]

theorem accounted_twoEvents : ∃ s, Trace step Meets (start [onChange]) twoEvents s ∧
    s.AtRest ∧ s.Accounted := by
  obtain ⟨s, hs, hrest⟩ : ∃ s, Trace step Meets (start [onChange]) twoEvents s ∧ s.AtRest :=
    Trace.exists_of_follow (by decide)
  exact ⟨s, hs, hrest, (accounted_of_meets hs).1 hrest⟩

/-- The target answers with an error, which counts as a delivery. -/
def serverError : List Action := [.commit anInsert, .receive, .attempt 0 (.response 500)]

theorem trace_commits (event : ChangeEvent) (n : Nat) :
    Trace step (fun _ _ => True) s (List.replicate n (.commit event))
      { s with changes := { s.changes with
          sent := s.changes.sent ++ List.replicate n event } } := by
  induction n generalizing s with
  | zero => simpa using Trace.nil s
  | succ n ih =>
      refine .cons trivial rfl ?_
      simpa [Broadcast.send, List.replicate_succ] using
        ih (s := { s with changes := s.changes.send event })

/-- More commits than the channel keeps, before the dispatcher looks. -/
def burst : List Action := List.replicate (channelCapacity + 1) (.commit anInsert) ++ [.receive]

theorem not_all_accounted :
    (∃ s, Trace step (fun _ _ => True) (start [onChange]) serverError s ∧ s.AtRest ∧
      ¬s.Accounted) ∧
    ∃ s, Trace step (fun _ _ => True) (start [onChange]) burst s ∧ s.AtRest ∧ ¬s.Accounted := by
  constructor
  · obtain ⟨s, hs, hrest, d, hd, hlost, hentry⟩ : ∃ s,
        Trace step (fun _ _ => True) (start [onChange]) serverError s ∧ s.AtRest ∧
          ∃ d ∈ s.deliveries, (∀ outcome ∈ d.outcomes, ¬outcome.Succeeds) ∧
            d.entryOf.isNone = true :=
      Trace.exists_of_follow (by decide)
    refine ⟨s, hs, hrest, fun h => ?_⟩
    refine Delivery.not_settled ?_ (Option.isNone_iff_eq_none.mp hentry) (h.settled d hd)
    rintro ⟨outcome, hmem, hsucceeds⟩
    exact hlost outcome hmem hsucceeds
  · have hcommits := trace_commits (s := start [onChange]) anInsert (channelCapacity + 1)
    refine ⟨_, hcommits.append (.cons trivial (?_ : _ = some { start [onChange] with
      receiving := false
      changes := ⟨List.replicate (channelCapacity + 1) anInsert, 1⟩ }) (.nil _)),
      ⟨rfl, fun d hd => by cases hd⟩, fun h => ?_⟩
    · simp [step, receive, start, Broadcast.recv, Broadcast.empty]
    · have hnone : owed [onChange] (List.replicate (channelCapacity + 1) anInsert) = [] :=
        h.started.symm
      have hmatches := List.flatMap_eq_nil_iff.mp hnone anInsert
        (List.mem_replicate.mpr ⟨Nat.succ_ne_zero _, rfl⟩)
      exact absurd hmatches (by decide)

end Dispatcher

end ChocoBase.Server.Webhooks
