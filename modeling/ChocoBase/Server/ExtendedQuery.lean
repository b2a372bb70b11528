import ChocoBase.Foundation.Contract
import ChocoBase.Server.Connections

/-!
# Errors and transactions of PostgreSQL sessions

A watch beside a session notes which message the session is answering and whether it
should skip messages: after an error in the extended protocol, up to the next `Sync`.
The session itself notes neither this nor its transaction.
-/

namespace ChocoBase.Server

open ChocoBase.Foundation ChocoBase.Engine ChocoBase.Sql ChocoBase.Types ChocoBase.Auth

/-! ## The watch -/

/-- The part of a message that is read next. -/
inductive Part where
  | type
  | length
  | body
  deriving DecidableEq

structure Watch where
  /-- the first `ReadyForQuery` has been sent -/
  started : Bool
  next : Part
  /-- the type of the last message -/
  message : UInt8
  /-- no message is to be executed before the next `Sync` -/
  skipping : Bool
  deriving DecidableEq

namespace Watch

def initial : Watch := ⟨false, .type, 0, false⟩

/-- `Parse`, `Bind`, `Describe` and `Execute` -/
def extended (w : Watch) : Bool := w.started && [80, 66, 68, 69].contains w.message

def read (w : Watch) (bytes : Bytes) : Watch :=
  match w.started, w.next with
  | false, _ => w
  | true, .type => ⟨true, .length, bytes.headD 0, w.skipping && bytes.headD 0 ≠ 83⟩
  | true, .length => { w with next := .body }
  | true, .body => { w with next := .type }

def after (w : Watch) : (op : Call) → Except IoErrorKind op.Res → Watch
  | .readExact _, .ok bytes => w.read bytes
  | .send (.readyForQuery _), .ok _ => { w with started := true }
  | .send (.errorResponse ..), .ok _ => { w with skipping := w.skipping || w.extended }
  | _, _ => w

/-- What is to be skipped is only a `Flush`, or is followed by nothing: `Terminate`. -/
def Polite (w : Watch) : (op : Call) → Except IoErrorKind op.Res → Prop
  | .readExact _, .ok bytes =>
      w.started → w.next = .type → w.skipping → bytes.headD 0 ∈ [72, 83, 88]
  | _, _ => True

/-- A session that skips only reads, and it is ready with the status of one that is idle. -/
def Allows (w : Watch) : Call → Prop
  | .readExact _ | .flush => True
  | .send (.readyForQuery status) => w.skipping = false ∧ status = 'I'
  | _ => w.skipping = false

end Watch

/-- A session whose client is polite. -/
def watched : Contract calls Watch where
  pre op w := w.Allows op
  post op w outcome w' :=
    match outcome with
    | .ok r => w.Polite op (.ok r) ∧ w' = w.after op (.ok r)
    | .error e => w' = w.after op (.error e)
    | .stop _ => True

namespace PostgresWire

/-! ## One message -/

section Messages

variable {host : Host} {w : Watch} {α β : Type}

/-- Whatever the answers, the program does what is allowed and ends with `P`. -/
abbrev Watches (w : Watch) (x : Talk α) (P : α → Watch → Prop) : Prop :=
  x.sure watched ⟨P, fun _ _ => True, fun _ _ => True⟩ w

theorem Watches.seq {x : Talk α} {f : α → Talk β} {P : α → Watch → Prop} {Q : β → Watch → Prop}
    (hx : Watches w x P) (hf : ∀ a w', P a w' → Watches w' (f a) Q) : Watches w (x >>= f) Q :=
  Prog.sure_seq hx hf (fun _ _ h => h) fun _ _ h => h

theorem Watches.mono {x : Talk α} {P Q : α → Watch → Prop} (hx : Watches w x P)
    (h : ∀ a w', P a w' → Q a w') : Watches w x Q :=
  Prog.sure_mono hx h (fun _ _ h => h) fun _ _ h => h

theorem watches_call {op : Call} {P : op.Res → Watch → Prop} (hallows : w.Allows op)
    (h : ∀ r, w.Polite op (.ok r) → P r (w.after op (.ok r))) : Watches w (call op) P := by
  refine ⟨hallows, ?_, fun _ _ _ => trivial, fun _ _ _ => trivial⟩
  rintro r w' ⟨hpolite, rfl⟩
  exact h r hpolite

theorem watches_tryCall {op : Call} {P : Except IoErrorKind op.Res → Watch → Prop}
    (hallows : w.Allows op) (hok : ∀ r, w.Polite op (.ok r) → P (.ok r) (w.after op (.ok r)))
    (herror : ∀ e, P (.error e) (w.after op (.error e))) : Watches w (tryCall op) P := by
  refine ⟨hallows, ?_, ?_, fun _ _ _ => trivial⟩
  · rintro r w' ⟨hpolite, rfl⟩
    exact hok r hpolite
  · rintro e w' rfl
    exact herror e

theorem watches_unwrap {o : Option α} {P : α → Watch → Prop} (h : ∀ a, o = some a → P a w) :
    Watches w (Prog.unwrap o) P := by
  cases o with
  | none => trivial
  | some a => exact h a rfl

theorem watches_ite {c : Prop} [Decidable c] {x y : Talk α} {P : α → Watch → Prop}
    (hx : c → Watches w x P) (hy : ¬c → Watches w y P) : Watches w (if c then x else y) P := by
  split
  · next h => exact hx h
  · next h => exact hy h

/-- A message that is neither an error nor a sign of being ready. -/
def isPlain : BackendMessage → Bool
  | .readyForQuery _ | .errorResponse .. => false
  | _ => true

theorem watches_send {message : BackendMessage} (hw : w.skipping = false)
    (h : isPlain message) : Watches w (send message) fun _ w' => w' = w := by
  cases message
  case readyForQuery => cases h
  case errorResponse => cases h
  all_goals exact watches_call hw fun _ _ => rfl

theorem watches_sendAll_append {messages rest : List BackendMessage} {P : Unit → Watch → Prop}
    (hw : w.skipping = false) (h : ∀ m ∈ messages, isPlain m) (hrest : Watches w (sendAll rest) P) :
    Watches w (sendAll (messages ++ rest)) P := by
  induction messages with
  | nil => exact hrest
  | cons message messages ih =>
      refine (watches_send hw (h message List.mem_cons_self)).seq ?_
      rintro _ w rfl
      exact ih fun m hm => h m (List.mem_cons_of_mem _ hm)

theorem watches_sendAll {messages : List BackendMessage} (hw : w.skipping = false)
    (h : ∀ m ∈ messages, isPlain m) : Watches w (sendAll messages) fun _ w' => w' = w := by
  rw [← List.append_nil messages]
  exact watches_sendAll_append hw h (show w = w from rfl)

/-- An error makes the watch skip, if the message is of the extended protocol. -/
theorem watches_error (code message : String) (hw : w.skipping = false) :
    Watches w (send (.errorResponse code message)) fun _ w' =>
      w' = { w with skipping := w.skipping || w.extended } :=
  watches_call hw fun _ _ => rfl

theorem watches_flush : Watches w flush fun _ w' => w' = w := watches_call trivial fun _ _ => rfl

theorem watches_ready (h : w.started) (hw : w.skipping = false) :
    Watches w ready fun _ w' => w' = w := by
  refine Watches.seq (P := fun _ w' => w' = w) (watches_call ⟨hw, rfl⟩ fun _ _ => ?_) ?_
  · change { w with started := true } = w
    rw [← h]
  · rintro _ w' rfl
    exact watches_flush

/-- Only the note to skip may have changed, and that only in the extended protocol. -/
def Kept (w w' : Watch) : Prop :=
  ∃ skipping, w' = { w with skipping } ∧ (w.extended = false → skipping = w.skipping)

theorem Kept.refl (w : Watch) : Kept w w := ⟨w.skipping, rfl, fun _ => rfl⟩

theorem Kept.eq {w' : Watch} (h : Kept w w') (hw : w.extended = false) : w' = w := by
  obtain ⟨skipping, rfl, hskipping⟩ := h
  rw [hskipping hw]

theorem kept_error : Kept w { w with skipping := w.skipping || w.extended } :=
  ⟨_, rfl, fun hw => by rw [hw, Bool.or_false]⟩

theorem watches_sendReply {messages : List BackendMessage} (hw : w.skipping = false)
    (h : (∀ m ∈ messages, isPlain m) ∨ ∃ code message, messages = [.errorResponse code message]) :
    Watches w (sendAll messages) fun _ w' => Kept w w' := by
  rcases h with h | ⟨code, message, rfl⟩
  · refine (watches_sendAll hw h).mono ?_
    rintro _ w' rfl
    exact .refl _
  · refine (watches_error code message hw).seq ?_
    rintro _ w' rfl
    exact kept_error

theorem watches_executeAndReply (sql : String) (ctx : ExecutionContext) (hw : w.skipping = false) :
    Watches w (executeAndReplyQuery host sql ctx) fun _ w' => Kept w w' := by
  unfold executeAndReplyQuery
  split
  · refine (watches_sendAll hw (by decide)).mono ?_
    rintro _ w' rfl
    exact .refl _
  · refine Watches.seq (P := fun _ w' => w' = w) (watches_call hw fun _ _ => rfl) ?_
    rintro result w' rfl
    refine watches_sendReply hw ?_
    rcases result with e | ⟨columns, rows⟩ | count | _
    · exact .inr ⟨_, _, rfl⟩
    · refine .inl fun m hm => ?_
      simp only [reply, List.cons_append, List.mem_cons, List.mem_append, List.mem_map] at hm
      rcases hm with rfl | ⟨row, -, rfl⟩ | rfl | hm
      · rfl
      · rfl
      · rfl
      · cases hm
    · exact .inl (by simp [reply, isPlain])
    · exact .inl (by simp [reply, isPlain])

/-! ## COPY -/

theorem watches_copyLines (csv : Bool) (table : List Char) (columns : List (List Char))
    (ctx : ExecutionContext) (hw : w.skipping = false) (copied : Nat) (lines : List (List Char)) :
    Watches w (copyLines host csv table columns ctx copied lines) fun _ w' => w' = w := by
  induction lines generalizing copied with
  | nil => exact rfl
  | cons line rest ih =>
      unfold copyLines
      refine watches_ite (fun _ => ih copied) fun _ => ?_
      refine Watches.seq (P := fun _ w' => w' = w) (watches_call hw fun _ _ => rfl) ?_
      rintro result w' rfl
      cases result with
      | ok _ => exact ih (copied + 1)
      | error _ => exact ih copied

/-- The length and the body lead to the next type. -/
theorem watches_readBody (hw : w.started) (hnext : w.next = .length) :
    Watches w readBody fun _ w' => w' = { w with next := .type } := by
  refine Watches.seq (P := fun _ w' => w' = { w with next := .body }) ?_ ?_
  · refine watches_call trivial fun _ _ => ?_
    simp [Watch.after, Watch.read, hw, hnext]
  · rintro _ w' rfl
    refine watches_call trivial fun _ _ => ?_
    simp [Watch.after, Watch.read, hw]

/-- Between two messages, nothing is to be skipped. -/
structure Calm (w : Watch) : Prop where
  started : w.started = true
  next : w.next = .type
  skipping : w.skipping = false

theorem watches_copyInLoop (csv : Bool) (table : List Char) (columns : List (List Char))
    (ctx : ExecutionContext) (fuel copied : Nat) (hw : Calm w) :
    Watches w (copyInLoop host csv table columns ctx fuel copied) fun _ w' => Calm w' := by
  induction fuel generalizing copied w with
  | zero => trivial
  | succ fuel ih =>
      have hdone : ∀ {w}, Calm w → Watches w (send (.commandComplete ("COPY " ++ toString copied)))
          fun _ w' => Calm w' := fun {w} hw =>
        (watches_send hw.skipping rfl).mono fun _ _ heq => heq ▸ hw
      unfold copyInLoop
      refine Watches.seq (P := fun read w' => match read with
        | .ok bytes => w' = ⟨true, .length, bytes.headD 0, false⟩
        | .error _ => w' = w) (watches_tryCall trivial (fun bytes _ => ?_) fun _ => rfl) ?_
      · simp [Watch.after, Watch.read, hw.started, hw.next, hw.skipping]
      · rintro (e | type) w' hw'
        · subst hw'
          exact hdone hw
        · subst hw'
          refine (watches_readBody rfl rfl).seq ?_
          rintro body w' rfl
          have hcalm : Calm ⟨true, .type, type.headD 0, false⟩ := ⟨rfl, rfl, rfl⟩
          simp only
          split
          · refine (watches_copyLines csv table columns ctx rfl copied _).seq ?_
            rintro copied w' rfl
            exact ih copied hcalm
          · split
            · next htype =>
                refine (watches_error _ _ rfl).mono ?_
                rintro _ w' rfl
                subst htype
                exact ⟨rfl, rfl, rfl⟩
            · exact hdone hcalm

/-- The message that the session answers is not of the extended protocol. -/
structure Simple (w : Watch) : Prop extends Calm w where
  simple : w.extended = false

theorem Calm.ready (hw : Calm w) : Watches w ready fun _ w' => Calm w' :=
  (watches_ready hw.started hw.skipping).mono fun _ _ heq => heq ▸ hw

theorem watches_failed (code message : String) (hw : Simple w) :
    Watches w (send (.errorResponse code message)) fun _ w' => Calm w' := by
  refine (watches_error code message hw.skipping).mono ?_
  rintro _ w' rfl
  exact ⟨hw.started, hw.next, by rw [hw.skipping, hw.simple]; rfl⟩

theorem watches_handleCopyIn (fuel : Nat) (sql : List Char) (ctx : ExecutionContext)
    (hw : Simple w) : Watches w (handleCopyIn host fuel sql ctx) fun _ w' => Calm w' := by
  unfold handleCopyIn
  simp only
  split
  · exact watches_failed _ _ hw
  · refine Watches.seq (P := fun _ w' => w' = w) (watches_unwrap fun _ _ => rfl) ?_
    rintro target w rfl
    refine Watches.seq (P := fun _ w' => w' = w) (watches_unwrap fun _ _ => rfl) ?_
    rintro ⟨table, columns⟩ w rfl
    refine Watches.seq (P := fun _ w' => w' = w) (watches_call hw.skipping fun _ _ => rfl) ?_
    rintro schema w rfl
    cases schema with
    | none => exact watches_failed _ _ hw
    | some schema =>
        refine (watches_send hw.skipping rfl).seq ?_
        rintro _ w rfl
        refine watches_flush.seq ?_
        rintro _ w rfl
        exact watches_copyInLoop _ _ _ ctx fuel 0 hw.toCalm

theorem watches_handleCopyOut (sql : List Char) (ctx : ExecutionContext) (hw : Simple w) :
    Watches w (handleCopyOut host sql ctx) fun _ w' => Calm w' := by
  unfold handleCopyOut
  simp only
  split
  · exact watches_failed _ _ hw
  · refine Watches.seq (P := fun _ w' => w' = w) (watches_unwrap fun _ _ => rfl) ?_
    rintro source w rfl
    refine Watches.seq (P := fun _ w' => w' = w) (watches_call hw.skipping fun _ _ => rfl) ?_
    rintro result w rfl
    have hreply : (∀ m ∈ copyOutReply host result, isPlain m) ∨
        ∃ code message, copyOutReply host result = [.errorResponse code message] := by
      rcases result with e | ⟨columns, rows⟩ | count | _
      · exact .inr ⟨_, _, rfl⟩
      · refine .inl fun m hm => ?_
        simp only [copyOutReply, List.cons_append, List.mem_cons, List.mem_append, List.mem_map] at hm
        rcases hm with rfl | ⟨row, -, rfl⟩ | rfl | rfl | hm
        · rfl
        · rfl
        · rfl
        · rfl
        · cases hm
      · exact .inl (by simp [copyOutReply, isPlain])
      · exact .inl (by simp [copyOutReply, isPlain])
    exact (watches_sendReply hw.skipping hreply).mono fun _ w' h => by
      rw [h.eq hw.simple]
      exact hw.toCalm

theorem watches_handleQuery (fuel : Nat) (body : Bytes) (ctx : ExecutionContext) (hw : Simple w) :
    Watches w (handleQuery host fuel body ctx) fun _ w' => Calm w' := by
  unfold handleQuery
  simp only
  refine watches_ite (fun _ => ?_) fun _ => watches_ite (fun _ => ?_) fun _ =>
    watches_ite (fun _ => ?_) fun _ => ?_
  · refine (watches_send hw.skipping rfl).seq ?_
    rintro _ w rfl
    exact hw.toCalm.ready
  · exact (watches_handleCopyIn fuel _ ctx hw).seq fun _ w' hw' => hw'.ready
  · exact (watches_handleCopyOut _ ctx hw).seq fun _ w' hw' => hw'.ready
  · refine (watches_executeAndReply _ ctx hw.skipping).seq fun _ w' h => ?_
    rw [h.eq hw.simple]
    exact hw.toCalm.ready

/-! ## The loop -/

/-- The session waits for the next message. -/
structure Waits (w : Watch) : Prop where
  started : w.started = true
  next : w.next = .type

theorem Calm.waits (hw : Calm w) : Waits w := ⟨hw.started, hw.next⟩

theorem Kept.waits {w' : Watch} (h : Kept w w') (hw : Waits w) : Waits w' := by
  obtain ⟨skipping, rfl, -⟩ := h
  exact ⟨hw.started, hw.next⟩

/-- The session has read a message, `Flush` or `Terminate` if it is to be skipped. -/
structure Answers (w : Watch) : Prop extends Waits w where
  polite : w.skipping = true → w.message = 72 ∨ w.message = 88

theorem toNat_of_char {m : UInt8} {c : Char} (h : Char.ofNat m.toNat = c) :
    m.toNat = c.toNat := by
  have hvalid : m.toNat.isValidChar := .inl (m.toNat_lt.trans (by decide))
  rw [← h, Char.ofNat, dif_pos hvalid]
  rfl

theorem Answers.executes (hw : Answers w) {c : Char} (h : Char.ofNat w.message.toNat = c)
    (hc : c ≠ 'H' ∧ c ≠ 'X') : w.skipping = false := by
  by_contra hskipping
  rcases hw.polite (by simpa using hskipping) with hmessage | hmessage
  · rw [hmessage] at h
    exact hc.1 h.symm
  · rw [hmessage] at h
    exact hc.2 h.symm

theorem Answers.simple (hw : Answers w) (h : Char.ofNat w.message.toNat = 'Q') : Simple w := by
  have hmessage : w.message = 81 := UInt8.toNat_inj.mp (toNat_of_char h)
  refine ⟨⟨hw.started, hw.next, hw.executes h (by decide)⟩, ?_⟩
  rw [Watch.extended, hmessage]
  simp

theorem watches_plain {message : BackendMessage} {x : Talk α} (hw : w.skipping = false)
    (hmessage : isPlain message) (hx : Watches w x fun _ w' => w' = w) :
    Watches w (do send message; x) fun _ w' => w' = w := by
  refine (watches_send hw hmessage).seq ?_
  rintro _ w rfl
  exact hx

theorem watches_handleParse (body : Bytes) (s : State) (hw : w.skipping = false) :
    Watches w (handleParse host body s) fun _ w' => w' = w :=
  watches_plain hw rfl (show w = w from rfl)

theorem watches_handleBind (body : Bytes) (s : State) (hw : w.skipping = false) :
    Watches w (handleBind host body s) fun _ w' => w' = w :=
  watches_plain hw rfl (show w = w from rfl)

theorem watches_handleDescribe (body : Bytes) (s : State) (hw : w.skipping = false) :
    Watches w (handleDescribe host body s) fun _ w' => w' = w := by
  unfold handleDescribe
  split
  · exact rfl
  · simp only
    split
    · exact watches_plain hw rfl (watches_send hw rfl)
    · exact watches_send hw rfl

theorem watches_handleExecute (body : Bytes) (s : State) (ctx : ExecutionContext)
    (hw : w.skipping = false) :
    Watches w (handleExecute host body s ctx) fun _ w' => Kept w w' := by
  unfold handleExecute
  simp only
  split
  · exact watches_executeAndReply _ ctx hw
  · refine (watches_send hw rfl).mono ?_
    rintro _ w' rfl
    exact .refl _

theorem watches_handleClose (body : Bytes) (s : State) (hw : w.skipping = false) :
    Watches w (handleClose host body s) fun _ w' => w' = w := by
  unfold handleClose
  split
  · exact rfl
  · exact watches_plain hw rfl (show w = w from rfl)

/-- What keeps waiting goes on with some state. -/
theorem watches_some {x : Talk α} {o : α → Option State} {P : α → Watch → Prop}
    (hx : Watches w x P) (hP : ∀ a w', P a w' → Waits w') :
    Watches w (x >>= fun a => pure (o a)) fun _ w' => Waits w' :=
  hx.seq hP

theorem watches_handleMessage (fuel : Nat) (body : Bytes) (s : State) (ctx : ExecutionContext)
    (hw : Answers w) :
    Watches w (handleMessage host fuel w.message body s ctx) fun _ w' => Waits w' := by
  have hwaits : ∀ w', w' = w → Waits w' := fun _ heq => heq ▸ hw.toWaits
  unfold handleMessage
  split
  · next h => exact watches_some (watches_handleQuery fuel body ctx (hw.simple h)) fun _ _ h => h.waits
  · next h =>
      exact watches_some (watches_handleParse body s (hw.executes h (by decide))) fun _ => hwaits
  · next h =>
      exact watches_some (watches_handleBind body s (hw.executes h (by decide))) fun _ => hwaits
  · next h =>
      exact watches_some (watches_handleDescribe body s (hw.executes h (by decide))) fun _ => hwaits
  · next h =>
      exact watches_some (watches_handleExecute body s ctx (hw.executes h (by decide)))
        fun _ _ h => h.waits hw.toWaits
  · next h =>
      exact watches_some (watches_ready hw.started (hw.executes h (by decide))) fun _ => hwaits
  · exact watches_some watches_flush fun _ => hwaits
  · next h =>
      exact watches_some (watches_handleClose body s (hw.executes h (by decide))) fun _ => hwaits
  · exact hw.toWaits
  · next hH _ hX =>
      have hexecutes := hw.executes rfl ⟨hH, hX⟩
      exact watches_some (watches_ready hw.started hexecutes) fun _ => hwaits

theorem watches_turn (fuel : Nat) (s : State) (ctx : ExecutionContext) (hw : Waits w) :
    Watches w (turn host fuel s ctx) fun _ w' => Waits w' := by
  unfold turn
  refine Watches.seq (P := fun read w' => match read with
    | .ok bytes => w' = w.read bytes ∧ w.Polite (.readExact 1) (.ok bytes)
    | .error _ => w' = w) (watches_tryCall trivial (fun bytes hpolite => ⟨rfl, hpolite⟩)
      fun _ => rfl) ?_
  rintro (e | type) w' hw'
  · subst hw'
    cases e with
    | unexpectedEof => exact hw
    | _ => trivial
  · obtain ⟨rfl, hpolite⟩ := hw'
    have hread : w.read type = ⟨true, .length, type.headD 0, w.skipping && type.headD 0 ≠ 83⟩ := by
      rw [Watch.read, hw.started, hw.next]
    rw [hread]
    refine (watches_readBody rfl rfl).seq ?_
    rintro body w' rfl
    refine @watches_handleMessage host ⟨true, .type, type.headD 0, w.skipping && type.headD 0 ≠ 83⟩
      fuel body s ctx ⟨⟨rfl, rfl⟩, fun hskipping => ?_⟩
    rw [Bool.and_eq_true, decide_eq_true_eq] at hskipping
    have hmem := hpolite hw.started hw.next hskipping.1
    have hsync : type.headD 0 ≠ 83 := hskipping.2
    rw [List.mem_cons, List.mem_cons, List.mem_singleton] at hmem
    exact hmem.imp_right fun h => h.resolve_left hsync

theorem watches_loop (ctx : ExecutionContext) (fuel : Nat) (s : State) (hw : Waits w) :
    Watches w (loop host ctx fuel s) fun _ _ => True := by
  induction fuel generalizing s w with
  | zero => trivial
  | succ fuel ih =>
      refine (watches_turn fuel s ctx hw).seq fun next w' hw' => ?_
      cases next with
      | some s => exact ih s hw'
      | none => trivial

/-! ## The session -/

def announces : Call → Bool
  | .send (.readyForQuery _) => true
  | _ => false

/-- Before the first `ReadyForQuery` the watch notes nothing. -/
abbrev Before (x : Talk α) : Prop := Watches .initial x fun _ w' => w' = .initial

theorem before_call {op : Call} (h : announces op = false) : Before (call op) := by
  cases op
  case send message =>
    cases message
    case readyForQuery => cases h
    all_goals exact watches_call rfl fun _ _ => rfl
  case readExact => exact watches_call trivial fun _ _ => rfl
  case flush => exact watches_call trivial fun _ _ => rfl
  all_goals exact watches_call rfl fun _ _ => rfl

theorem Before.seq {x : Talk α} {f : α → Talk β} {P : β → Watch → Prop} (hx : Before x)
    (hf : ∀ a, Watches .initial (f a) P) : Watches .initial (x >>= f) P :=
  Watches.seq hx fun a _ heq => heq ▸ hf a

theorem before_readBody : Before readBody :=
  (before_call rfl).seq fun _ => before_call rfl

theorem before_readStartup : Before readStartup := by
  refine (before_call rfl).seq fun _ => (before_call rfl).seq fun body => ?_
  refine watches_ite (fun _ => ?_) fun _ => ?_
  · exact (before_call rfl).seq fun _ => (before_call rfl).seq fun _ => before_readBody
  · exact rfl

theorem before_refuse (code message : String) : Before (refuse code message) :=
  (before_call rfl).seq fun _ => before_call rfl

theorem before_authenticate (username password : String) :
    Before (authenticate username password) := by
  refine (before_call rfl).seq fun found => ?_
  split
  · exact rfl
  · refine Before.seq (watches_unwrap fun _ _ => rfl) ?_
    rintro ⟨id, hash, role⟩
    exact (before_call rfl).seq fun _ => show Watch.initial = .initial from rfl

theorem watches_welcome (username : String) (ctx : ExecutionContext) :
    Watches .initial (sendAll (welcome username ctx)) fun _ w' => Waits w' := by
  have hwelcome : welcome username ctx =
      (welcome username ctx).dropLast ++ [.readyForQuery 'I'] := rfl
  rw [hwelcome]
  refine watches_sendAll_append rfl (by simp [welcome, isPlain]) ?_
  refine Watches.seq (P := fun _ w' => Waits w') ?_ fun _ _ h => h
  exact watches_call ⟨rfl, rfl⟩ fun _ _ => ⟨rfl, rfl⟩

theorem watches_runSession (fuel : Nat) :
    Watches .initial (runSession host fuel) fun _ _ => True := by
  have hrefuse : ∀ code message, Watches .initial (refuse code message) fun _ _ => True :=
    fun code message => (before_refuse code message).mono fun _ _ _ => trivial
  refine before_readStartup.seq fun body => ?_
  refine watches_ite (fun _ => hrefuse _ _) fun _ => ?_
  refine (before_call rfl).seq fun _ => (before_call rfl).seq fun _ =>
    (before_call rfl).seq fun (type : Bytes) => ?_
  refine watches_ite (fun _ => hrefuse _ _) fun _ => before_readBody.seq fun body => ?_
  refine (before_authenticate _ _).seq fun ctx => ?_
  cases ctx with
  | none => exact hrefuse _ _
  | some ctx =>
      refine (watches_welcome _ ctx).seq fun _ w' hw' => ?_
      refine watches_flush.seq ?_
      rintro _ w' rfl
      exact watches_loop ctx fuel .empty hw'

end Messages

end PostgresWire

end ChocoBase.Server
