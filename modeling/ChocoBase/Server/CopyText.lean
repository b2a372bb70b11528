import ChocoBase.Server.PostgresWire

/-!
# The rows of COPY data

What a message of copy data is read as: each of its lines is a row, if it has as many
fields as there are columns, or is left out.  A client sends the messages, and whatever
database there is executes a statement for every row.
-/

namespace ChocoBase.Server.PostgresWire

open ChocoBase.Foundation ChocoBase.Engine ChocoBase.Auth

open Text (Chars)

section Rows

variable (host : Host) (csv : Bool) (columns : List Chars)

/-- The fields of a line, if they fit the columns. -/
def rowFields (line : Chars) : Option (List Chars) :=
  let line := trimmed host line
  let fields := (Text.splitOn (if csv then ',' else '\t') line).map (trimmed host)
  if line = ['\\', '.'] ∨ line = [] ∨ fields.length ≠ columns.length then none else some fields

/-- The rows of one message. -/
def messageRows (body : Bytes) : List (List Chars) :=
  (Text.lines (host.lossy body).toList).filterMap (rowFields host csv columns)

/-- Insert rows, and count those that are accepted. -/
def insertRows (table : Chars) (ctx : ExecutionContext) : Nat → List (List Chars) → Talk Nat
  | copied, [] => return copied
  | copied, fields :: rest => do
      match ← call (.execute (copyInsert host table columns fields) ctx) with
      | .ok _ => insertRows table ctx (copied + 1) rest
      | .error _ => insertRows table ctx copied rest

variable {host csv columns} {table : Chars} {ctx : ExecutionContext}

theorem rowFields_nil : rowFields host csv columns [] = none := by
  rw [rowFields, if_pos (.inr (.inl rfl))]

/-- A last line that is empty and the end of a line do not matter. -/
theorem messageRows_splitOn (hreturn : host.text.isWhitespace '\r' = true) (body : Bytes) :
    messageRows host csv columns body =
      (Text.splitOn '\n' (host.lossy body).toList).filterMap (rowFields host csv columns) := by
  have hline : ∀ line : Chars, rowFields host csv columns
      (if line.getLast? = some '\r' then line.dropLast else line) =
        rowFields host csv columns line := by
    intro line
    split
    · next hlast =>
        obtain ⟨front, rfl⟩ := List.getLast?_eq_some_iff.mp hlast
        have htrim : trimmed host (front ++ ['\r']) = trimmed host front :=
          Text.trim_concat hreturn front
        rw [List.dropLast_concat, rowFields, rowFields, htrim]
    · rfl
  have hlast : ∀ parts : List Chars,
      (if parts.getLast? = some [] then parts.dropLast else parts).filterMap
        (rowFields host csv columns) = parts.filterMap (rowFields host csv columns) := by
    intro parts
    split
    · next hlast =>
        obtain ⟨front, rfl⟩ := List.getLast?_eq_some_iff.mp hlast
        rw [List.dropLast_concat, List.filterMap_append, List.filterMap_cons, rowFields_nil]
        exact (List.append_nil _).symm
    · rfl
  rw [messageRows, Text.lines, List.filterMap_map, ← hlast]
  exact List.filterMap_congr fun line _ => hline line

theorem copyLines_eq (copied : Nat) (lines : List Chars) :
    copyLines host csv table columns ctx copied lines =
      insertRows host columns table ctx copied (lines.filterMap (rowFields host csv columns)) := by
  induction lines generalizing copied with
  | nil => rfl
  | cons line rest ih =>
      rw [copyLines, List.filterMap_cons, rowFields]
      let fields := (Text.splitOn (if csv then ',' else '\t') (trimmed host line)).map (trimmed host)
      by_cases hleft : trimmed host line = ['\\', '.'] ∨ trimmed host line = [] ∨
          fields.length ≠ columns.length
      · rw [if_pos hleft, if_pos hleft]
        exact ih copied
      · rw [if_neg hleft, if_neg hleft, insertRows]
        congr 1
        funext result
        cases result with
        | ok res => exact ih (copied + 1)
        | error e => exact ih copied

theorem insertRows_append (copied : Nat) (rows rows' : List (List Chars)) :
    insertRows host columns table ctx copied (rows ++ rows') =
      (insertRows host columns table ctx copied rows >>= fun copied =>
        insertRows host columns table ctx copied rows') := by
  induction rows generalizing copied with
  | nil => rfl
  | cons fields rest ih =>
      change Prog.call _ _ = Prog.call _ _
      congr 1
      funext result
      rcases result with e | r | r
      · rfl
      · exact ih copied
      · exact ih (copied + 1)

end Rows

/-! ## A client that copies -/

/-- What a client still sends, what it was sent, and the database behind the session. -/
structure Client (σ : Type) where
  incoming : Bytes
  sent : List BackendMessage
  db : σ

/-- The socket of the client; every other call goes to the database. -/
def Client.handler {σ : Type} (database : Handler calls σ) : Handler calls (Client σ)
  | .readExact count => fun c =>
      if count ≤ c.incoming.length then
        (.ok (c.incoming.take count), { c with incoming := c.incoming.drop count })
      else (.error .unexpectedEof, c)
  | .send message => fun c => (.ok (), { c with sent := c.sent ++ [message] })
  | .flush => fun c => (.ok (), c)
  | op => fun c => ((database op c.db).1, { c with db := (database op c.db).2 })

/-- A `CopyData` message. -/
def copyData (body : Bytes) : Bytes := 100 :: (beBytes 4 (body.length + 4) ++ body)

/-- The length of a message is a number of 32 bits. -/
def fits (body : Bytes) : Prop := body.length + 4 < 2 ^ 32

/-- The messages that a client copies with; `CopyDone` is the last. -/
def copyWire (chunks : List Bytes) : Bytes := chunks.flatMap copyData ++ 99 :: beBytes 4 4

/-- What comes of the copy: how it ends, what the client is sent, and the database. -/
def copyResult {σ : Type} (host : Host) (csv : Bool) (table : Chars) (columns : List Chars)
    (ctx : ExecutionContext) (database : Handler calls σ) (fuel : Nat) (chunks : List Bytes)
    (s : σ) : Outcome IoErrorKind Unit × List BackendMessage × σ :=
  let r := (copyInLoop host csv table columns ctx fuel 0).run (Client.handler database)
    ⟨copyWire chunks, [], s⟩
  (r.1, r.2.sent, r.2.db)

section Runs

variable {σ : Type} {host : Host} {csv : Bool} {table : Chars} {columns : List Chars}
  {ctx : ExecutionContext} {database : Handler calls σ}

theorem run_request {I : Interface} (H : Handler I σ) (op : I.Op) :
    (Prog.request id op).run H = H op := by
  funext s
  simp only [Prog.request, Prog.run]
  rcases H op s with ⟨value | reason | why, s'⟩ <;> rfl

theorem run_call (H : Handler calls σ) (op : Call) : (call op).run H = H op := run_request H op

theorem handler_execute (sql : String) (c : Client σ) :
    Client.handler database (.execute sql ctx) c =
      ((database (.execute sql ctx) c.db).1,
        { c with db := (database (.execute sql ctx) c.db).2 }) := rfl

/-- Rows are inserted without the client. -/
theorem run_insertRows (copied : Nat) (rows : List (List Chars)) (c : Client σ) :
    (insertRows host columns table ctx copied rows).run (Client.handler database) c =
      (((insertRows host columns table ctx copied rows).run database c.db).1,
        { c with db := ((insertRows host columns table ctx copied rows).run database c.db).2 }) := by
  induction rows generalizing copied c with
  | nil => rfl
  | cons fields rest ih =>
      rw [insertRows, Prog.run_bind, Prog.run_bind, Exec.bind_apply, Exec.bind_apply, run_call,
        run_call, handler_execute]
      rcases database (.execute (copyInsert host table columns fields) ctx) c.db with
        ⟨(e | r) | reason | why, s⟩
      · exact ih copied _
      · exact ih (copied + 1) _
      · rfl
      · rfl

theorem handler_readExact {bytes : Bytes} {count : Nat} (h : bytes.length = count)
    (rest : Bytes) (sent : List BackendMessage) (s : σ) :
    Client.handler database (.readExact count) ⟨bytes ++ rest, sent, s⟩ =
      (.ok bytes, ⟨rest, sent, s⟩) := by
  have hfits : count ≤ (bytes ++ rest).length := by simp [← h]
  change (if count ≤ (bytes ++ rest).length then
      (.ok ((bytes ++ rest).take count), ⟨(bytes ++ rest).drop count, sent, s⟩)
    else (.error .unexpectedEof, ⟨bytes ++ rest, sent, s⟩) :
      Outcome IoErrorKind Bytes × Client σ) = _
  rw [if_pos hfits, ← h, List.take_left, List.drop_left]
  rfl

theorem run_readBody {body : Bytes} (hsize : fits body) (rest : Bytes)
    (sent : List BackendMessage) (s : σ) :
    readBody.run (Client.handler database)
        ⟨beBytes 4 (body.length + 4) ++ (body ++ rest), sent, s⟩ =
      (.ok body, ⟨rest, sent, s⟩) := by
  have hlength : beValue (beBytes 4 (body.length + 4)) - 4 = body.length := by
    rw [beValue_beBytes, Nat.mod_eq_of_lt (by unfold fits at hsize; omega)]
    omega
  have hfirst : (call (.readExact 4)).run (Client.handler database)
      ⟨beBytes 4 (body.length + 4) ++ (body ++ rest), sent, s⟩ =
        (.ok (beBytes 4 (body.length + 4)), ⟨body ++ rest, sent, s⟩) :=
    (congrFun (run_call _ _) _).trans (handler_readExact (beBytes_length 4 _) _ sent s)
  have hsecond : (call (.readExact (beValue (beBytes 4 (body.length + 4)) - 4))).run
      (Client.handler database) ⟨body ++ rest, sent, s⟩ = (.ok body, ⟨rest, sent, s⟩) :=
    (congrFun (run_call _ _) _).trans (handler_readExact hlength.symm rest sent s)
  exact (Prog.run_bind_ok hfirst).trans hsecond

/-- How a copy ends after its rows. -/
def finish (sent : List BackendMessage) :
    Outcome IoErrorKind Nat × σ → Outcome IoErrorKind Unit × List BackendMessage × σ
  | (.ok copied, s) => (.ok (), sent ++ [.commandComplete ("COPY " ++ toString copied)], s)
  | (.error e, s) => (.error e, sent, s)
  | (.stop why, s) => (.stop why, sent, s)

theorem attempt_ok {ε ε' α : Type} {x : Exec σ ε α} {s s' : σ} {a : α} (h : x s = (.ok a, s')) :
    (x.attempt : Exec σ ε' (Except ε α)) s = (.ok (.ok a), s') := by
  rw [Exec.attempt, h]

theorem attempt_error {ε ε' α : Type} {x : Exec σ ε α} {s s' : σ} {e : ε}
    (h : x s = (.error e, s')) : (x.attempt : Exec σ ε' (Except ε α)) s = (.ok (.error e), s') := by
  rw [Exec.attempt, h]

theorem run_readType (type : UInt8) (rest : Bytes) (sent : List BackendMessage) (s : σ) :
    (tryCall (.readExact 1)).run (Client.handler database) ⟨type :: rest, sent, s⟩ =
      (.ok (.ok [type]), ⟨rest, sent, s⟩) := by
  have hread : (call (.readExact 1)).run (Client.handler database) ⟨type :: rest, sent, s⟩ =
      (.ok [type], ⟨rest, sent, s⟩) :=
    (congrFun (run_call _ _) _).trans (@handler_readExact _ database [type] 1 rfl rest sent s)
  exact (congrFun (Prog.run_attempt _ _) _).trans (attempt_ok hread)

/-- A message that is not copy data ends the loop. -/
theorem copyInLoop_done (fuel copied : Nat) (sent : List BackendMessage) (s : σ) :
    (copyInLoop host csv table columns ctx (fuel + 1) copied).run (Client.handler database)
        ⟨copyWire [], sent, s⟩ =
      (.ok (), ⟨[], sent ++ [.commandComplete ("COPY " ++ toString copied)], s⟩) := by
  have hbody := @run_readBody _ database [] (by unfold fits; decide) [] sent s
  exact (Prog.run_bind_ok (run_readType 99 _ sent s)).trans ((Prog.run_bind_ok hbody).trans rfl)

theorem copyInLoop_data {chunk : Bytes} (hsize : fits chunk) (tail : Bytes) (fuel copied : Nat)
    (sent : List BackendMessage) (s : σ) :
    (copyInLoop host csv table columns ctx (fuel + 1) copied).run (Client.handler database)
        ⟨copyData chunk ++ tail, sent, s⟩ =
      (insertRows host columns table ctx copied (messageRows host csv columns chunk) >>= fun copied =>
        copyInLoop host csv table columns ctx fuel copied).run (Client.handler database)
        ⟨tail, sent, s⟩ := by
  have hwire : copyData chunk ++ tail =
      100 :: (beBytes 4 (chunk.length + 4) ++ (chunk ++ tail)) := by
    simp [copyData]
  have hbody := @run_readBody _ database _ hsize tail sent s
  rw [hwire]
  refine (Prog.run_bind_ok (run_readType 100 _ sent s)).trans ((Prog.run_bind_ok hbody).trans ?_)
  rw [if_pos rfl, copyLines_eq, messageRows]

/--
The loop inserts the rows of one message after another, whatever the client sends then; where
the database fails, something of it is left unread.
-/
theorem copyInLoop_chunks {chunks : List Bytes} (hsizes : ∀ chunk ∈ chunks, fits chunk)
    (tail : Bytes) (fuel copied : Nat) (sent : List BackendMessage) (s : σ) :
    ∃ unread, (copyInLoop host csv table columns ctx (chunks.length + fuel) copied).run
        (Client.handler database) ⟨chunks.flatMap copyData ++ tail, sent, s⟩ =
      match (insertRows host columns table ctx copied
        (chunks.flatMap (messageRows host csv columns))).run database s with
      | (.ok copied, s') => (copyInLoop host csv table columns ctx fuel copied).run
          (Client.handler database) ⟨tail, sent, s'⟩
      | (.error e, s') => (.error e, ⟨unread, sent, s'⟩)
      | (.stop why, s') => (.stop why, ⟨unread, sent, s'⟩) := by
  induction chunks generalizing copied s with
  | nil =>
      rw [List.length_nil, Nat.zero_add]
      exact ⟨[], rfl⟩
  | cons chunk chunks ih =>
      have hrest := fun copied s => ih (fun c hc => hsizes c (List.mem_cons_of_mem _ hc)) copied s
      rw [List.length_cons, Nat.add_right_comm, List.flatMap_cons, List.append_assoc,
        copyInLoop_data (hsizes chunk List.mem_cons_self), List.flatMap_cons, insertRows_append,
        Prog.run_bind, Prog.run_bind, Exec.bind_apply, Exec.bind_apply, run_insertRows]
      rcases (insertRows host columns table ctx copied (messageRows host csv columns chunk)).run
        database s with ⟨copied' | e | why, s'⟩
      · exact hrest copied' s'
      · exact ⟨_, rfl⟩
      · exact ⟨_, rfl⟩

/-- How a copy ends that the client completes. -/
theorem run_copyInLoop {chunks : List Bytes}
    (hsizes : ∀ chunk ∈ chunks, fits chunk) {fuel : Nat}
    (hfuel : chunks.length < fuel) (copied : Nat) (sent : List BackendMessage) (s : σ) :
    let r := (copyInLoop host csv table columns ctx fuel copied).run (Client.handler database)
      ⟨copyWire chunks, sent, s⟩
    (r.1, r.2.sent, r.2.db) = finish sent ((insertRows host columns table ctx copied
      (chunks.flatMap (messageRows host csv columns))).run database s) := by
  obtain ⟨more, rfl⟩ := Nat.exists_eq_add_of_lt hfuel
  obtain ⟨unread, hrun⟩ := @copyInLoop_chunks _ host csv table columns ctx database _ hsizes
    (99 :: beBytes 4 4) (more + 1) copied sent s
  rw [Nat.add_assoc, copyWire, hrun]
  rcases (insertRows host columns table ctx copied
    (chunks.flatMap (messageRows host csv columns))).run database s with ⟨copied' | e | why, s'⟩
  · have hdone := @copyInLoop_done _ host csv table columns ctx database more copied' sent s'
    exact congrArg (fun r : Outcome IoErrorKind Unit × Client σ => (r.1, r.2.sent, r.2.db)) hdone
  · rfl
  · rfl

theorem copyResult_eq {chunks : List Bytes}
    (hsizes : ∀ chunk ∈ chunks, fits chunk) {fuel : Nat}
    (hfuel : chunks.length < fuel) (s : σ) :
    copyResult host csv table columns ctx database fuel chunks s =
      finish [] ((insertRows host columns table ctx 0
        (chunks.flatMap (messageRows host csv columns))).run database s) :=
  run_copyInLoop hsizes hfuel 0 [] s

end Runs

end ChocoBase.Server.PostgresWire
