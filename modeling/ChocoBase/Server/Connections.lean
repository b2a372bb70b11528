import ChocoBase.Engine.Phases
import ChocoBase.Foundation.Trace
import ChocoBase.Server.PostgresWire

/-!
# Connections

A server with any number of connections, each a session that is somewhere in its
program.  A step is one call of one session, answered by its socket or by the
shared database; a session that has come to its end is closed, and drops its clone.
-/

namespace ChocoBase.Server

open ChocoBase.Foundation ChocoBase.Concurrency ChocoBase.Engine ChocoBase.Sql ChocoBase.Types
  ChocoBase.Auth

inductive Protocol where
  | json
  | postgres
  deriving DecidableEq

structure Connection where
  protocol : Protocol
  /-- what the session still does -/
  todo : Talk Unit
  /-- the token that its clone keeps -/
  transaction : Option TxId

structure Running where
  db : Database
  owners : Owners
  nextTx : TxId
  /-- a closed connection leaves its place empty -/
  connections : List (Option Connection)
  /-- whose statement opened the transaction that is open -/
  opener : Option Nat

/-- What comes from outside in answer to a call. -/
inductive Answer where
  | request (r : Option Request)
  | incoming (incoming : Incoming)
  | bytes (bytes : Bytes)
  | done
  | verified (verified : Bool)
  | claims (claims : Option SessionClaims)
  | failed (kind : IoErrorKind)

inductive ServerAction where
  /-- a new connection, for a session of at most `fuel` requests -/
  | accept (protocol : Protocol) (fuel : Nat)
  | answer (id : Nat) (a : Answer)
  /-- a call that works on the database -/
  | perform (id : Nat)
  | close (id : Nat)

section Calls

variable (host : Host)

/-- The answers that fit a call; passwords, tokens and messages to decline never fail. -/
def Call.answered : (op : Call) → Answer → Option (Except IoErrorKind op.Res)
  | .readRequest, .request r => some (.ok r)
  | .readRequest, .failed kind => some (.error kind)
  | .readRequestOrEvent, .incoming incoming => some (.ok incoming)
  | .writeResponse _, .done | .send _, .done | .flush, .done => some (.ok ())
  | .writeResponse _, .failed kind | .send _, .failed kind | .flush, .failed kind =>
      some (.error kind)
  | .readExact count, .bytes bytes => if bytes.length = count then some (.ok bytes) else none
  | .readExact _, .failed kind => some (.error kind)
  | .verifyPassword .., .verified verified => some (.ok verified)
  | .verifyJwt _, .claims claims => some (.ok claims)
  | _, _ => none

/-- The calls on the clone. -/
def Call.onClone : (op : Call) → Option (SharedDatabase.Action op.Res)
  | .execute sql ctx => some (SharedDatabase.executeWithContext host sql ctx).attempt
  | .tableSchema name => some (SharedDatabase.tableSchema host name)
  | .rollbackOnDisconnect => some (SharedDatabase.rollbackOnDisconnect host)
  | _ => none

def session (fuel : Nat) : Protocol → Talk Unit
  | .json => Session.runSession host fuel
  | .postgres => PostgresWire.runSession host fuel

/-- A session that makes no call any more. -/
def ended : Talk Unit → Bool
  | .pure _ | .throw _ => true
  | _ => false

end Calls

/-- A JSON session that has left its loop and made its last call. -/
def Connection.leftLoop (c : Connection) : Bool :=
  match c.protocol, c.todo with
  | .json, .pure _ => true
  | _, _ => false

def Connection.cleansUp (c : Connection) : Bool :=
  match c.todo with
  | .call .rollbackOnDisconnect _ => true
  | _ => false

namespace Running

def get (s : Running) (id : Nat) : Option Connection := s.connections[id]?.join

/-- The database as a connection's clone has it. -/
def clone (s : Running) (c : Connection) : SharedDatabase := ⟨s.db, s.owners, s.nextTx, c.transaction⟩

def setConnection (s : Running) (id : Nat) (c : Option Connection) : Running :=
  { s with connections := s.connections.set id c }

/-- Who opened the transaction that is open after a step of `id`. -/
def openerAfter (opener : Option Nat) (id : Nat) (before after : Database) : Option Nat :=
  if after.isOpen then if before.isOpen then opener else some id
  else none

/-- After a call of connection `id`, whose clone is `d` now. -/
def after (s : Running) (id : Nat) (c : Connection) (todo : Talk Unit) (d : SharedDatabase) :
    Running where
  db := d.db
  owners := d.owners
  nextTx := d.nextTx
  connections := s.connections.set id (some { c with todo, transaction := d.transaction })
  opener := openerAfter s.opener id s.db d.db

def closeConnection (s : Running) (id : Nat) (c : Connection) : Running :=
  { s.setConnection id none with owners := (SharedDatabase.release c.transaction (s.clone c)).owners }

def answerTo (s : Running) (id : Nat) (c : Connection) (a : Answer) : Option Running :=
  match c.todo with
  | .call op next => (Call.answered op a).map fun r =>
      s.setConnection id (some { c with todo := next r })
  | _ => none

variable (host : Host)

/-- A call that panics has no next state. -/
def performFor (s : Running) (id : Nat) (c : Connection) : Option Running :=
  match c.todo with
  | .call op next => (Call.onClone host op).bind fun x =>
      match x (s.clone c) with
      | (.ok r, d) => some (s.after id c (next (.ok r)) d)
      | _ => none
  | _ => none

def step (s : Running) : ServerAction → Option Running
  | .accept protocol fuel => some { s with
      connections := s.connections ++ [some ⟨protocol, session host fuel protocol, none⟩] }
  | .answer id a => (s.get id).bind fun c => s.answerTo id c a
  | .perform id => (s.get id).bind fun c => s.performFor host id c
  | .close id => (s.get id).bind fun c =>
      if ended c.todo then some (s.closeConnection id c) else none

/-- A server whose database is open and at rest. -/
structure Fresh (s : Running) : Prop where
  closed : s.db.isOpen = false
  unlocked : ∀ resource, s.owners resource = []
  alone : s.connections = []
  opener : s.opener = none

/-! ## What the end of a connection promises -/

/--
The transaction that is open was opened by a connection that is still there, and so
was every lock taken.
-/
structure Released (s : Running) : Prop where
  transaction : s.db.isOpen = true → ∃ id c, s.opener = some id ∧ s.get id = some c
  locks : ∀ resource, ∀ e ∈ s.owners resource, ∃ id c, s.get id = some c ∧
    c.transaction = some e.1

/--
A connection that closes has nothing open, or is a JSON session after its cleanup;
and what that cleanup has to roll back, it still has the token of and can roll back.
-/
def EndsWell (s : Running) : ServerAction → Prop
  | .close id => s.opener = some id → (s.get id).any Connection.leftLoop
  | .perform id => s.opener = some id → ∀ c ∈ s.get id, c.cleansUp →
      c.transaction.isSome ∧ s.db.pager.canRollBack
  | _ => True

instance (s : Running) (a : ServerAction) : Decidable (s.EndsWell a) := by
  cases a <;> unfold EndsWell <;> infer_instance

section Steps

variable {host : Host} {s s' : Running} {id : Nat} {c : Connection}

theorem get_lt (h : s.get id = some c) : id < s.connections.length := by
  by_contra hlt
  simp [get, List.getElem?_eq_none (Nat.le_of_not_lt hlt)] at h

theorem get_set (h : s.get id = some c) (c' : Option Connection) (id' : Nat) :
    (s.connections.set id c')[id']?.join = if id' = id then c' else s.get id' := by
  by_cases heq : id' = id
  · subst heq
    simp [get_lt h]
  · simp [get, heq, List.getElem?_set_ne (Ne.symm heq)]

theorem get_append (c' : Option Connection) (h : s.get id = some c) :
    (s.connections ++ [c'])[id]?.join = some c := by
  rw [List.getElem?_append_left (get_lt h)]
  exact h

theorem onClone_keeps {d : SharedDatabase} {op : Call} {x : SharedDatabase.Action op.Res}
    (hx : Call.onClone host op = some x) : d.Keeps (x d).2 := by
  cases op
  case execute sql ctx =>
    obtain rfl := Option.some.inj hx
    exact SharedDatabase.attempt_keeps (SharedDatabase.executeWithContext_keeps sql ctx)
  case tableSchema name =>
    obtain rfl := Option.some.inj hx
    exact SharedDatabase.tableSchema_keeps name
  case rollbackOnDisconnect =>
    obtain rfl := Option.some.inj hx
    exact SharedDatabase.rollbackOnDisconnect_keeps
  all_goals cases hx

/-! ## The invariant -/

/-- A JSON session that is not over has its cleanup before it, and one that is over has nothing open. -/
def Guarded (opener : Option Nat) (id : Nat) (todo : Talk Unit) : Prop :=
  (∃ y : Talk Unit, todo = y >>= fun _ => Session.cleanup) ∨ todo = .pure () ∧ opener ≠ some id

structure Inv (s : Running) : Prop where
  opener : s.db.isOpen = s.opener.isSome
  alive : ∀ id, s.opener = some id → ∃ c, s.get id = some c
  locks : ∀ resource, ∀ e ∈ s.owners resource, ∃ id c, s.get id = some c ∧ c.transaction = some e.1
  sessions : ∀ id c, s.get id = some c → c.protocol = .json → Guarded s.opener id c.todo

theorem Inv.released (h : Inv s) : Released s where
  transaction hopen := by
    rw [h.opener] at hopen
    obtain ⟨id, hid⟩ := Option.isSome_iff_exists.mp hopen
    obtain ⟨c, hc⟩ := h.alive id hid
    exact ⟨id, c, hid, hc⟩
  locks := h.locks

theorem Fresh.inv (h : Fresh s) : Inv s where
  opener := by rw [h.closed, h.opener]; rfl
  alive id hid := by rw [h.opener] at hid; cases hid
  locks resource e he := by rw [h.unlocked] at he; cases he
  sessions id c hc := by simp [get, h.alone] at hc

/-- A call leads on to the rest, and the last call is the cleanup. -/
theorem Guarded.next {opener : Option Nat} {op : Call} {k : Except IoErrorKind op.Res → Talk Unit}
    (h : Guarded opener id (.call op k)) (r : Except IoErrorKind op.Res) :
    (∃ y : Talk Unit, k r = y >>= fun _ => Session.cleanup) ∨
      op = .rollbackOnDisconnect ∧ ((∃ v, r = .ok v) → k r = .pure ()) := by
  rcases h with ⟨y, hy⟩ | ⟨hy, -⟩
  · cases y with
    | pure value =>
        change (Prog.call op k : Talk Unit) = Prog.call Call.rollbackOnDisconnect _ at hy
        cases hy
        refine .inr ⟨rfl, ?_⟩
        rintro ⟨v, rfl⟩
        rfl
    | throw reason => cases hy
    | halt why => cases hy
    | call op' k' =>
        change Prog.call op k = Prog.call op' fun r => k' r >>= fun _ => Session.cleanup at hy
        cases hy
        exact .inl ⟨k' r, rfl⟩
  · cases hy

theorem inv_accept (h : Inv s) (protocol : Protocol) (fuel : Nat) :
    Inv { s with
      connections := s.connections ++ [some ⟨protocol, session host fuel protocol, none⟩] } where
  opener := h.opener
  alive id hid := by
    obtain ⟨c, hc⟩ := h.alive id hid
    exact ⟨c, get_append _ hc⟩
  locks resource e he := by
    obtain ⟨id, c, hc, htx⟩ := h.locks resource e he
    exact ⟨id, c, get_append _ hc, htx⟩
  sessions id c hc hjson := by
    by_cases hlt : id < s.connections.length
    · refine h.sessions id c ?_ hjson
      simpa [get, List.getElem?_append_left hlt] using hc
    · by_cases hnew : id = s.connections.length
      · subst hnew
        simp only [get, List.getElem?_concat_length, Option.join_some, Option.some.injEq] at hc
        subst hc
        obtain rfl : protocol = .json := hjson
        exact .inl ⟨_, rfl⟩
      · rw [get, List.getElem?_eq_none (by simp; omega)] at hc
        cases hc

/-- A connection has made a call. -/
theorem Inv.replace (h : Inv s) (hc : s.get id = some c) {c' : Connection}
    (hconnections : s'.connections = s.connections.set id (some c'))
    (hprotocol : c'.protocol = c.protocol) (hopener : s'.db.isOpen = s'.opener.isSome)
    (hopened : ∀ id', s'.opener = some id' → s.opener = some id' ∨ id' = id)
    (hlocks : ∀ resource, ∀ e ∈ s'.owners resource, c'.transaction = some e.1 ∨
      e ∈ s.owners resource ∧ c.transaction ≠ some e.1)
    (hguarded : c.protocol = .json → Guarded s'.opener id c'.todo) : Inv s' := by
  have hget : ∀ id', s'.get id' = if id' = id then some c' else s.get id' := fun id' => by
    rw [get, hconnections, get_set hc]
  have hself : s'.get id = some c' := by rw [hget, if_pos rfl]
  refine ⟨hopener, fun id' hid' => ?_, fun resource e he => ?_, fun id' c₁ hc₁ hjson => ?_⟩
  · by_cases heq : id' = id
    · exact ⟨c', heq ▸ hself⟩
    · obtain ⟨c₁, hc₁⟩ := h.alive id' ((hopened id' hid').resolve_right heq)
      exact ⟨c₁, by rw [hget, if_neg heq, hc₁]⟩
  · rcases hlocks resource e he with hown | ⟨hold, hother⟩
    · exact ⟨id, c', hself, hown⟩
    · obtain ⟨id', c₁, hc₁, htx⟩ := h.locks resource e hold
      refine ⟨id', c₁, ?_, htx⟩
      rw [hget, if_neg, hc₁]
      rintro rfl
      rw [hc] at hc₁
      exact hother (Option.some.inj hc₁ ▸ htx)
  · by_cases heq : id' = id
    · subst heq
      obtain rfl := Option.some.inj (hself.symm.trans hc₁)
      exact hguarded (hprotocol ▸ hjson)
    · rw [hget, if_neg heq] at hc₁
      rcases h.sessions id' c₁ hc₁ hjson with hy | ⟨htodo, hother⟩
      · exact .inl hy
      · exact .inr ⟨htodo, fun hid' => hother ((hopened id' hid').resolve_right heq)⟩

theorem inv_answer (h : Inv s) (hc : s.get id = some c) {a : Answer}
    (hs' : s.answerTo id c a = some s') : Inv s' := by
  unfold answerTo at hs'
  split at hs'
  · next op next htodo =>
      obtain ⟨r, hr, rfl⟩ := Option.map_eq_some_iff.mp hs'
      refine h.replace hc rfl rfl h.opener (fun _ => .inl) (fun resource e he => ?_) fun hjson => ?_
      · by_cases hown : c.transaction = some e.1
        · exact .inl hown
        · exact .inr ⟨he, hown⟩
      · have hguarded := h.sessions id c hc hjson
        rw [htodo] at hguarded
        rcases hguarded.next r with hy | ⟨rfl, -⟩
        · exact .inl hy
        · cases a <;> cases hr
  · cases hs'

theorem openerAfter_isSome (h : s.db.isOpen = s.opener.isSome) (id : Nat) (d : Database) :
    d.isOpen = (openerAfter s.opener id s.db d).isSome := by
  unfold openerAfter
  cases d.isOpen with
  | false => rfl
  | true =>
      cases hbefore : s.db.isOpen with
      | false => rfl
      | true => simpa [hbefore] using h

theorem openerAfter_cases {opener : Option Nat} {before d : Database} {id id' : Nat}
    (h : openerAfter opener id before d = some id') : opener = some id' ∨ id' = id := by
  unfold openerAfter at h
  split at h
  · split at h
    · exact .inl h
    · exact .inr (Option.some.inj h).symm
  · cases h

theorem release_db (tx : Option TxId) (d : SharedDatabase) :
    (SharedDatabase.release tx d).db = d.db := by
  cases tx <;> rfl

/-- The cleanup rolls back what the session has open. -/
theorem cleanup_closes
    (hwell : s.opener = some id → c.transaction.isSome ∧ s.db.pager.canRollBack) :
    openerAfter s.opener id s.db (SharedDatabase.rollbackOnDisconnect host (s.clone c)).2.db ≠
      some id := by
  intro hafter
  unfold openerAfter at hafter
  split at hafter
  · next hopen =>
      cases htx : c.transaction with
      | none =>
          rw [SharedDatabase.rollbackOnDisconnect_none htx] at hopen
          have hbefore : s.db.isOpen = true := hopen
          rw [if_pos hbefore] at hafter
          have hheld := (hwell hafter).1
          rw [htx] at hheld
          cases hheld
      | some tx =>
          rw [SharedDatabase.rollbackOnDisconnect_some htx, release_db] at hopen
          split at hafter
          · have hclosed := Database.execute_rollback_closes host.lib .admin host.env
              (hwell hafter).2 host.depth
            exact absurd hopen (by rw [show (s.clone c).db = s.db from rfl, hclosed]; simp)
          · next hbefore =>
              have hclosed := Database.execute_rollback_opens_nothing host.lib .admin host.env
                (Bool.eq_false_of_not_eq_true hbefore) (host.depth + 1)
              exact absurd hopen (by rw [show (s.clone c).db = s.db from rfl, hclosed]; simp)
  · cases hafter

theorem inv_perform (h : Inv s) (hc : s.get id = some c) (hwell : s.EndsWell (.perform id))
    (hs' : s.performFor host id c = some s') : Inv s' := by
  unfold performFor at hs'
  split at hs'
  · next op next htodo =>
      obtain ⟨x, hx, hs'⟩ := Option.bind_eq_some_iff.mp hs'
      rcases hrun : x (s.clone c) with ⟨r | e | why, d⟩ <;> rw [hrun] at hs' <;> cases hs'
      have hkeeps := onClone_keeps (d := s.clone c) hx
      rw [hrun] at hkeeps
      refine h.replace hc rfl rfl (openerAfter_isSome h.opener id d.db) (fun _ => openerAfter_cases)
        hkeeps fun hjson => ?_
      have hguarded := h.sessions id c hc hjson
      rw [htodo] at hguarded
      rcases hguarded.next (.ok r) with hy | ⟨rfl, hlast⟩
      · exact .inl hy
      · obtain rfl := Option.some.inj hx
        have hcleansUp : c.cleansUp = true := by simp [Connection.cleansUp, htodo]
        have hclosed := @cleanup_closes host s id c fun hid => hwell hid c hc hcleansUp
        rw [hrun] at hclosed
        exact .inr ⟨hlast ⟨r, rfl⟩, hclosed⟩
  · cases hs'

theorem inv_close (h : Inv s) (hc : s.get id = some c) (hwell : s.EndsWell (.close id)) :
    Inv (s.closeConnection id c) := by
  have hget : ∀ id', (s.closeConnection id c).get id' = if id' = id then none else s.get id' :=
    fun id' => get_set hc none id'
  have hother : s.opener ≠ some id := by
    intro hid
    have hleft := hwell hid
    rw [hc, Option.any_some, Connection.leftLoop] at hleft
    split at hleft
    · next hjson htodo =>
        rcases h.sessions id c hc hjson with ⟨y, hy⟩ | ⟨-, hother⟩
        · rw [htodo] at hy
          cases y <;> cases hy
        · exact hother hid
    · cases hleft
  refine ⟨h.opener, fun id' hid' => ?_, fun resource e he => ?_, fun id' c' hc' hjson => ?_⟩
  · obtain ⟨c', hc'⟩ := h.alive id' hid'
    refine ⟨c', ?_⟩
    rw [hget, if_neg, hc']
    rintro rfl
    exact hother hid'
  · obtain ⟨he, htx⟩ := SharedDatabase.mem_release.mp he
    obtain ⟨id', c', hc', hholds⟩ := h.locks resource e he
    refine ⟨id', c', ?_, hholds⟩
    rw [hget, if_neg, hc']
    rintro rfl
    rw [hc] at hc'
    exact htx (Option.some.inj hc' ▸ hholds)
  · rw [hget] at hc'
    split at hc'
    · cases hc'
    · exact h.sessions id' c' hc' hjson

theorem inv_step (h : Inv s) {a : ServerAction} (hwell : s.EndsWell a)
    (hs' : s.step host a = some s') : Inv s' := by
  cases a with
  | accept protocol fuel =>
      obtain rfl := Option.some.inj hs'
      exact inv_accept h protocol fuel
  | answer id a =>
      obtain ⟨c, hc, hs'⟩ := Option.bind_eq_some_iff.mp hs'
      exact inv_answer h hc hs'
  | perform id =>
      obtain ⟨c, hc, hs'⟩ := Option.bind_eq_some_iff.mp hs'
      exact inv_perform h hc hwell hs'
  | close id =>
      obtain ⟨c, hc, hs'⟩ := Option.bind_eq_some_iff.mp hs'
      split at hs'
      · obtain rfl := Option.some.inj hs'
        exact inv_close h hc hwell
      · cases hs'

end Steps

/-- As long as connections end well, nothing of theirs stays open. -/
theorem released_of_endsWell {host : Host} {s s' : Running} {as : List ServerAction} (h : Fresh s)
    (hrun : Trace (step host) EndsWell s as s') : Released s' :=
  (hrun.invariant h.inv fun _ _ _ hinv hwell hstep => inv_step hinv hwell hstep).released

/-- Whoever closes with a transaction of its own open leaves it to the others. -/
theorem not_released_of_close {host : Host} {s s' : Running} {id : Nat} (hopen : s.db.isOpen = true)
    (hid : s.opener = some id) (hs' : s.step host (.close id) = some s') : ¬Released s' := by
  obtain ⟨c, hc, hs'⟩ := Option.bind_eq_some_iff.mp hs'
  obtain ⟨-, heq⟩ := Option.ite_none_right_eq_some.mp hs'
  obtain rfl := Option.some.inj heq
  intro h
  obtain ⟨id', c', hid', hc'⟩ := h.transaction hopen
  obtain rfl := Option.some.inj (hid.symm.trans hid')
  have hgone : (s.closeConnection id c).get id = none := by
    have hget := get_set hc none id
    rwa [if_pos rfl] at hget
  rw [hgone] at hc'
  cases hc'

/-! ## A server -/

def plainHost : Host where
  text := asciiLibrary
  lib := plainLibrary
  debugToken _ := ""
  debugVector _ := ""
  floatText _ := ""
  lossy bytes := String.ofList (bytes.map fun b => Char.ofNat b.toNat)
  env := ⟨fun _ => 0, fun _ password => password, "postgres"⟩
  depth := 0

/-- A server on a database that was just created. -/
def atRest : Running where
  db := (Database.created plainHost.env).2
  owners _ := []
  nextTx := 1
  connections := []
  opener := none

theorem fresh_atRest : Fresh atRest where
  closed := by decide +kernel
  unlocked _ := rfl
  alone := rfl
  opener := rfl

/-- A JSON client sends `BEGIN` and closes its end. -/
def beginAndLeave : List ServerAction :=
  [.accept .json 2, .answer 0 (.request (some (.query "BEGIN"))), .perform 0, .answer 0 .done,
    .answer 0 (.request none), .perform 0, .close 0]

theorem released_beginAndLeave :
    ∃ s, Trace.follow (step plainHost) EndsWell atRest beginAndLeave = some s ∧ Released s := by
  have hfollow : (Trace.follow (step plainHost) EndsWell atRest beginAndLeave).isSome := by
    decide +kernel
  obtain ⟨s, hs⟩ := Option.isSome_iff_exists.mp hfollow
  exact ⟨s, hs, released_of_endsWell fresh_atRest (Trace.of_follow hs)⟩

def ascii (s : String) : Bytes := s.toList.map fun c => UInt8.ofNat c.toNat

/-- The reads of one message of a PostgreSQL client. -/
def pgMessage (type : String) (body : Bytes) : List ServerAction :=
  [.answer 0 (.bytes (ascii type)), .answer 0 (.bytes (beBytes 4 (body.length + 4))),
    .answer 0 (.bytes body)]

/-- A PostgreSQL client logs in, sends `BEGIN` and terminates. -/
def beginAndTerminate : List ServerAction :=
  let startup := [0, 3, 0, 0] ++ ascii "user" ++ [0] ++ ascii "postgres" ++ [0, 0]
  let writes (count : Nat) : List ServerAction := List.replicate count (.answer 0 .done)
  [.accept .postgres 3, .answer 0 (.bytes ((beBytes 4 (startup.length + 4)).drop 1)),
    .answer 0 (.bytes startup)] ++ writes 2 ++ pgMessage "p" (ascii "postgres" ++ [0]) ++
    [.perform 0, .answer 0 (.verified true)] ++ writes 12 ++
    pgMessage "Q" (ascii "BEGIN" ++ [0]) ++ [.perform 0] ++ writes 3 ++ pgMessage "X" [] ++ [.close 0]

/-- Its transaction stays open for whoever comes next. -/
theorem terminate_leaves_open :
    ∃ s, Trace (step plainHost) (fun _ _ => True) atRest beginAndTerminate s ∧ ¬Released s := by
  have hfollow : (Trace.follow (step plainHost) (fun _ _ => True) atRest beginAndTerminate).any
      (fun s => s.db.isOpen && s.opener = some 0 && (s.get 0).isNone) := by decide +kernel
  obtain ⟨s, hs, hleaks⟩ := (Option.any_eq_true _ _).mp hfollow
  refine ⟨s, Trace.of_follow hs, fun h => ?_⟩
  simp only [Bool.and_eq_true, decide_eq_true_eq] at hleaks
  obtain ⟨id, c, hid, hc⟩ := h.transaction hleaks.1.1
  obtain rfl := Option.some.inj (hleaks.1.2.symm.trans hid)
  rw [hc] at hleaks
  cases hleaks.2

example : (pgMessage "X" []).length = 3 := by decide +kernel

end Running

end ChocoBase.Server
