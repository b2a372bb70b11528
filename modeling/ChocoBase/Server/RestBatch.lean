import ChocoBase.Server.CopyLedger
import ChocoBase.Server.GraphQl
import ChocoBase.Server.RestTemplates

/-!
# Posted rows

The rows of a body are inserted one after another, each by a statement of its own; one that
is refused may be tried again as an update.  What a batch leaves behind is read off the
statements that the database carries out, whatever database that is.
-/

namespace ChocoBase.Server.Rest

open ChocoBase.Foundation ChocoBase.Engine ChocoBase.Sql ChocoBase.Types ChocoBase.Auth
open Text (Chars)

/-- What comes with a request on a table besides its body. -/
structure Posting where
  put : Bool
  /-- the `Prefer` header in lower case, empty without one -/
  prefer : Chars
  accept : Option Chars
  params : Params

namespace Posting

variable (req : Posting)

def prefers (words : String) : Bool := Text.contains words.toList req.prefer

def isMinimal : Bool := req.prefers "return=minimal"

def isSingleObject : Bool := req.accept.any fun a => Text.contains "vnd.pgrst.object+json".toList a

def isIgnore : Bool :=
  req.prefers "resolution=ignore-duplicates" ||
    param req.params "resolution" = some "ignore-duplicates".toList

/-- `should_upsert`, by the error of the insertion in lower case -/
def shouldUpsert (message : Chars) : Bool :=
  req.put || (param req.params "on_conflict").isSome ||
    param req.params "resolution" = some "merge-duplicates".toList ||
    req.prefers "resolution=merge-duplicates" ||
    Text.contains "primary key".toList message || Text.contains "already exists".toList message

/-- The first of these preferences that the request has. -/
def firstOf (preferences : List String) : Option String := preferences.find? req.prefers

def buildPrefApplied (defaultReturn : Option String) : Option String :=
  let applied := [(req.firstOf ["return=minimal", "return=representation"]).or defaultReturn,
    req.firstOf ["count=exact", "count=planned", "count=estimated"],
    req.firstOf ["resolution=ignore-duplicates", "resolution=merge-duplicates"],
    req.firstOf ["missing=default", "missing=null"], req.firstOf ["tx=rollback", "tx=commit"]]
  match applied.reduceOption with
  | [] => none
  | prefs => some (", ".intercalate prefs)

end Posting

structure Reply where
  status : Nat
  statusText : String
  body : Json
  prefApplied : Option String

def badRequest (message : String) : Reply :=
  ⟨400, "Bad Request", .object [("error", .string message)], none⟩

def countJson (n : Nat) : Json :=
  .number ⟨if n < 2 ^ 63 then some (Int64.ofNat n) else none, toString n⟩

section Rows

variable (host : Host) (ofFloat : Float → Json) (ofFloat32 : Float32 → Json) (table : Chars)
  (schema : TableSchema) (req : Posting) (ctx : ExecutionContext)

/-- The array of a body, or its object as the only row. -/
def rowsToInsert (body : String) : Except String (List Json) :=
  match host.lib.parseJson body with
  | .error _ => .error "invalid JSON body"
  | .ok (.array items) => .ok items
  | .ok (.object members) => .ok [.object members]
  | .ok _ => .error "body must be JSON object or array"

inductive RowReply where
  | skipped
  | counted (inserted : Nat) (returned : List Json)
  | refused (e : QueryError)

def counted : ExecResult → Talk RowReply
  | .rows columns rows =>
      match GraphQl.rowsJson host ofFloat ofFloat32 columns rows with
      | .ok returned => return .counted rows.length returned
      | _ => .halt .panic
  | .modified n => return .counted n []
  | .ok => return .counted 1 []

/-- The update that follows a refused insertion. -/
def mergeSql (obj : Members) (insertErr : QueryError) : Option Chars :=
  if req.shouldUpsert (host.lib.toLowercase (Session.errorText host insertErr)).toList then
    upsertSql host.lib table schema req.params obj
  else none

/-- The turn of one object in the loop. -/
def postRow (obj : Members) : Talk RowReply :=
  match insertSql host.lib table schema obj with
  | none => return .skipped
  | some sql => do
      match ← call (.execute (String.ofList sql) ctx) with
      | .ok res => counted host ofFloat ofFloat32 res
      | .error insertErr =>
          if req.isIgnore then return .skipped
          else match mergeSql host table schema req obj insertErr with
            | none => return .refused insertErr
            | some updateSql => do
                match ← call (.execute (String.ofList updateSql) ctx) with
                | .ok res => counted host ofFloat ofFloat32 res
                | .error _ => return .refused insertErr

def postRows (inserted : Nat) (returned : List Json) :
    List Json → Talk (Except QueryError (Nat × List Json))
  | [] => return .ok (inserted, returned)
  | .object obj :: items => do
      match ← postRow host ofFloat ofFloat32 table schema req ctx obj with
      | .skipped => postRows inserted returned items
      | .counted n rows => postRows (inserted + n) (returned ++ rows) items
      | .refused e => return .error e
  | _ :: items => postRows inserted returned items

def created (inserted : Nat) (returned : List Json) : Reply :=
  if req.isMinimal then
    ⟨204, "No Content", .null, req.buildPrefApplied (some "return=minimal")⟩
  else
    let representation := req.buildPrefApplied (some "return=representation")
    match returned with
    | [] => ⟨201, "Created", .object [("status", .string "ok"), ("inserted", countJson inserted)],
        req.buildPrefApplied none⟩
    | [row] => ⟨201, "Created", if req.isSingleObject then row else .array [row], representation⟩
    | rows => ⟨201, "Created", .array rows, representation⟩

/-- `POST` and `PUT` on a table -/
def post (body : String) : Talk Reply :=
  match rowsToInsert host body with
  | .error message => return badRequest message
  | .ok items => do
      match ← postRows host ofFloat ofFloat32 table schema req ctx 0 [] items with
      | .error e => return badRequest (Session.errorText host e)
      | .ok (inserted, returned) => return created req inserted returned

end Rows

/-! ## Databases -/

/-- The rows that `RETURNING *` lists, with a value for each column. -/
structure Listing where
  columns : List String
  rows : List Row
  wide : ∀ row ∈ rows, columns.length ≤ row.length

/-- A database, by what it makes of a statement in each of its states. -/
structure Store (σ : Type) where
  answer : String → σ → Except QueryError Listing × σ

/-- A statement that has put rows into the table. -/
structure Entry where
  sql : Chars
  rows : List Row

/-- The state of a database, and what the request has put into the table. -/
structure Logged (σ : Type) where
  db : σ
  log : List Entry

variable {σ : Type}

def Logged.put (w : Logged σ) (sql : String) (rows : List Row) (db : σ) : Logged σ :=
  ⟨db, if rows = [] then w.log else w.log ++ [⟨sql.toList, rows⟩]⟩

def Store.execute (store : Store σ) (sql : String) (w : Logged σ) :
    Except QueryError ExecResult × Logged σ :=
  match store.answer sql w.db with
  | (.ok listing, db) => (.ok (.rows listing.columns listing.rows), w.put sql listing.rows db)
  | (.error e, db) => (.error e, { w with db })

def Store.handler (store : Store σ) : Handler calls (Logged σ)
  | .execute sql _ => fun w => (.ok (store.execute sql w).1, (store.execute sql w).2)
  | _ => fun w => (.stop .diverges, w)

/-! ## Atomicity -/

/-- A later entry has the same key, and so the values of this row are no longer the posted ones. -/
def Overwritten (schema : TableSchema) (row : Row) (later : List Entry) : Prop :=
  ∃ entry ∈ later, ∃ row' ∈ entry.rows, ∃ pkIdx key, schema.primaryKeyIndex = some pkIdx ∧
    row[pkIdx]? = some key ∧ row'[pkIdx]? = some key

/-- Each entry has a row that no later one overwrites. -/
def Standing (schema : TableSchema) : List Entry → Prop
  | [] => True
  | entry :: later => (∃ row ∈ entry.rows, ¬Overwritten schema row later) ∧ Standing schema later

section Atomicity

variable (host : Host) (ofFloat : Float → Json) (ofFloat32 : Float32 → Json) (table : Chars)
  (schema : TableSchema) (req : Posting) (ctx : ExecutionContext) (store : Store σ)

/-- The statements that put the row of an item. -/
def ownSql : Json → List Chars
  | .object obj => (insertSql host.lib table schema obj).toList ++
      (upsertSql host.lib table schema req.params obj).toList
  | _ => []

/-- An error leaves no row of the request in the table, and a success leaves each. -/
def Atomic (body : String) (s : σ) : Prop :=
  ∃ reply w, (post host ofFloat ofFloat32 table schema req ctx body).run store.handler ⟨s, []⟩ =
      (.ok reply, w) ∧
    if reply.status = 400 then w.log = []
    else ∃ items, rowsToInsert host body = .ok items ∧
      List.Forall₂ (fun item entry => entry.sql ∈ ownSql host table schema req item) items w.log ∧
      Standing schema w.log

/-! ## When a batch is atomic -/

/-- What a database makes of a row in its turn. -/
inductive Turn (σ : Type) where
  | puts (entry : Entry) (s : σ)
  | passes (s : σ)
  | refused (s : σ)

/-- A statement that is accepted puts rows, or there are none that it is about. -/
def accepted (sql : Chars) (rows : List Row) (s : σ) : Turn σ :=
  if rows = [] then .passes s else .puts ⟨sql, rows⟩ s

def turn (s : σ) : Json → Turn σ
  | .object obj =>
      match insertSql host.lib table schema obj with
      | none => .passes s
      | some sql =>
          match store.answer (String.ofList sql) s with
          | (.ok listing, s') => accepted sql listing.rows s'
          | (.error e, s') =>
              if req.isIgnore then .passes s'
              else match mergeSql host table schema req obj e with
                | none => .refused s'
                | some updateSql =>
                    match store.answer (String.ofList updateSql) s' with
                    | (.ok listing, s'') => accepted updateSql listing.rows s''
                    | (.error _, s'') => .refused s''
  | _ => .passes s

/-- What the rows put up to the first that is refused. -/
def entries (s : σ) : List Json → List Entry
  | [] => []
  | item :: items =>
      match turn host table schema req store s item with
      | .puts entry s' => entry :: entries s' items
      | .passes s' => entries s' items
      | .refused _ => []

/-- Every row takes effect in its turn. -/
def allPut (s : σ) : List Json → Bool
  | [] => true
  | item :: items =>
      match turn host table schema req store s item with
      | .puts _ s' => allPut s' items
      | _ => false

/-- A row is refused, and none takes effect in front of it. -/
def nonePut (s : σ) : List Json → Bool
  | [] => false
  | item :: items =>
      match turn host table schema req store s item with
      | .puts _ _ => false
      | .passes s' => nonePut s' items
      | .refused _ => true

def Sound (s : σ) (items : List Json) : Prop :=
  allPut host table schema req store s items ∧
      Standing schema (entries host table schema req store s items) ∨
    nonePut host table schema req store s items

/-- A row is refused. -/
def refuses (s : σ) : List Json → Bool
  | [] => false
  | item :: items =>
      match turn host table schema req store s item with
      | .puts _ s' | .passes s' => refuses s' items
      | .refused _ => true

end Atomicity

section Runs

variable {host : Host} {ofFloat : Float → Json} {ofFloat32 : Float32 → Json} {table : Chars}
  {schema : TableSchema} {req : Posting} {ctx : ExecutionContext} {store : Store σ}

theorem rowMembers_wide {row : Row} {columns : List String} {idx : Nat}
    (hwide : idx + columns.length ≤ row.length) (members : OrdMap String Json) :
    ∃ out, GraphQl.rowMembers host ofFloat ofFloat32 row idx columns members = .ok out := by
  induction columns generalizing idx members with
  | nil => exact ⟨members, rfl⟩
  | cons col columns ih =>
      rw [List.length_cons] at hwide
      rw [GraphQl.rowMembers, List.getElem?_eq_getElem (show idx < row.length by omega)]
      exact ih (by omega) _

theorem rowsJson_wide {columns : List String} {rows : List Row}
    (hwide : ∀ row ∈ rows, columns.length ≤ row.length) :
    ∃ out, GraphQl.rowsJson host ofFloat ofFloat32 columns rows = .ok out := by
  induction rows with
  | nil => exact ⟨[], rfl⟩
  | cons row rows ih =>
      obtain ⟨hrow, hrows⟩ := List.forall_mem_cons.mp hwide
      obtain ⟨members, hmembers⟩ := @rowMembers_wide host ofFloat ofFloat32 row columns 0
        (by omega) .empty
      obtain ⟨out, hout⟩ := ih hrows
      refine ⟨.object members.entries :: out, ?_⟩
      simp only [GraphQl.rowsJson, GraphQl.rowJson, hmembers, hout]
      rfl

theorem run_counted (listing : Listing) (w : Logged σ) : ∃ returned,
    (counted host ofFloat ofFloat32 (.rows listing.columns listing.rows)).run store.handler w =
      (.ok (.counted listing.rows.length returned), w) := by
  obtain ⟨out, hout⟩ := @rowsJson_wide host ofFloat ofFloat32 _ _ listing.wide
  exact ⟨out, by rw [counted, hout]; rfl⟩

theorem execute_accepted {sql : String} {w : Logged σ} {listing : Listing} {db : σ}
    (h : store.answer sql w.db = (.ok listing, db)) :
    store.execute sql w = (.ok (.rows listing.columns listing.rows), w.put sql listing.rows db) := by
  rw [Store.execute, h]

theorem execute_rejected {sql : String} {w : Logged σ} {e : QueryError} {db : σ}
    (h : store.answer sql w.db = (.error e, db)) :
    store.execute sql w = (.error e, { w with db }) := by
  rw [Store.execute, h]

theorem run_execution (sql : String) (w : Logged σ) :
    (call (.execute sql ctx)).run store.handler w =
      (.ok (store.execute sql w).1, (store.execute sql w).2) :=
  congrFun (PostgresWire.run_call _ _) _

/-- What a turn is for the loop, and what it adds to the log. -/
def Turn.Becomes (w : Logged σ) : Turn σ → Outcome IoErrorKind RowReply × Logged σ → Prop
  | .puts entry s, out => ∃ n rows, out = (.ok (.counted n rows), ⟨s, w.log ++ [entry]⟩)
  | .passes s, out => (∃ n rows, out = (.ok (.counted n rows), ⟨s, w.log⟩)) ∨
      out = (.ok .skipped, ⟨s, w.log⟩)
  | .refused s, out => ∃ e, out = (.ok (.refused e), ⟨s, w.log⟩)

theorem becomes_accepted {sql : Chars} {w : Logged σ} {listing : Listing} {db : σ} :
    (accepted sql listing.rows db).Becomes w
      ((counted host ofFloat ofFloat32 (.rows listing.columns listing.rows)).run store.handler
        (w.put (String.ofList sql) listing.rows db)) := by
  obtain ⟨returned, hrun⟩ := @run_counted _ host ofFloat ofFloat32 store listing
    (w.put (String.ofList sql) listing.rows db)
  rw [hrun, accepted, Logged.put, String.toList_ofList]
  split
  · exact .inl ⟨_, _, rfl⟩
  · exact ⟨_, _, rfl⟩

theorem run_postRow (obj : Members) (w : Logged σ) :
    (turn host table schema req store w.db (.object obj)).Becomes w
      ((postRow host ofFloat ofFloat32 table schema req ctx obj).run store.handler w) := by
  rw [turn, postRow]
  cases hsql : insertSql host.lib table schema obj with
  | none => exact .inr rfl
  | some sql =>
      dsimp only
      rw [Prog.run_bind, Exec.bind_apply, run_execution]
      rcases hanswer : store.answer (String.ofList sql) w.db with ⟨e | listing, db⟩
      · rw [execute_rejected hanswer]
        dsimp only
        split
        · exact .inr rfl
        · cases hmerge : mergeSql host table schema req obj e with
          | none => exact ⟨e, rfl⟩
          | some updateSql =>
              dsimp only
              rw [Prog.run_bind, Exec.bind_apply, run_execution]
              rcases hupdate : store.answer (String.ofList updateSql) db with ⟨e' | listing, db'⟩
              · rw [execute_rejected hupdate]
                exact ⟨e, rfl⟩
              · rw [execute_accepted hupdate]
                exact becomes_accepted
      · rw [execute_accepted hanswer]
        exact becomes_accepted

/-- The loop logs what its rows put, and ends with an error exactly if one is refused. -/
theorem run_postRows (items : List Json) (inserted : Nat) (returned : List Json) (w : Logged σ) :
    ∃ result db, (postRows host ofFloat ofFloat32 table schema req ctx inserted returned items).run
        store.handler w =
        (.ok result, ⟨db, w.log ++ entries host table schema req store w.db items⟩) ∧
      (result.isOk = !refuses host table schema req store w.db items) := by
  induction items generalizing inserted returned w with
  | nil => exact ⟨.ok (inserted, returned), w.db, by rw [entries, List.append_nil]; rfl, rfl⟩
  | cons item items ih =>
      cases item with
      | object obj =>
          have hrow := @run_postRow _ host ofFloat ofFloat32 table schema req ctx store obj w
          rw [postRows, Prog.run_bind, Exec.bind_apply, entries, refuses]
          cases hturn : turn host table schema req store w.db (.object obj) with
          | puts entry s' =>
              rw [hturn] at hrow
              obtain ⟨n, rows, hrow⟩ := hrow
              rw [hrow]
              obtain ⟨result, db, hrun, hok⟩ := ih (inserted + n) (returned ++ rows)
                ⟨s', w.log ++ [entry]⟩
              rw [List.append_assoc] at hrun
              exact ⟨result, db, hrun, hok⟩
          | passes s' =>
              rw [hturn] at hrow
              rcases hrow with ⟨n, rows, hrow⟩ | hrow <;> rw [hrow]
              · exact ih _ _ ⟨s', w.log⟩
              · exact ih _ _ ⟨s', w.log⟩
          | refused s' =>
              rw [hturn] at hrow
              obtain ⟨e, hrow⟩ := hrow
              rw [hrow]
              exact ⟨.error e, s', by rw [List.append_nil]; rfl, rfl⟩
      | _ => exact ih inserted returned w

/-! ### Whole batches -/

theorem length_entries_le (items : List Json) (s : σ) :
    (entries host table schema req store s items).length ≤ items.length := by
  induction items generalizing s with
  | nil => exact Nat.le_refl 0
  | cons item items ih =>
      rw [entries, List.length_cons]
      split
      · next s' _ => exact Nat.succ_le_succ (ih s')
      · next s' _ => exact Nat.le_succ_of_le (ih s')
      · exact Nat.zero_le _

theorem allPut_iff (items : List Json) (s : σ) :
    allPut host table schema req store s items ↔ refuses host table schema req store s items = false ∧
      (entries host table schema req store s items).length = items.length := by
  induction items generalizing s with
  | nil => exact iff_of_true rfl ⟨rfl, rfl⟩
  | cons item items ih =>
      rw [allPut, refuses, entries]
      cases hturn : turn host table schema req store s item with
      | puts entry s' => simpa using ih s'
      | passes s' =>
          refine iff_of_false Bool.false_ne_true fun h => ?_
          have hle := @length_entries_le _ host table schema req store items s'
          have heq : (entries host table schema req store s' items).length = items.length + 1 := h.2
          omega
      | refused s' => exact iff_of_false Bool.false_ne_true fun h => Bool.noConfusion h.1

theorem nonePut_iff (items : List Json) (s : σ) :
    nonePut host table schema req store s items ↔ refuses host table schema req store s items ∧
      entries host table schema req store s items = [] := by
  induction items generalizing s with
  | nil => exact iff_of_false Bool.false_ne_true fun h => Bool.noConfusion h.1
  | cons item items ih =>
      rw [nonePut, refuses, entries]
      cases hturn : turn host table schema req store s item with
      | puts entry s' => exact iff_of_false Bool.false_ne_true fun h => List.cons_ne_nil _ _ h.2
      | passes s' => exact ih s'
      | refused s' => exact iff_of_true rfl ⟨rfl, rfl⟩

theorem sql_of_accepted {sql : Chars} {rows : List Row} {s s' : σ} {entry : Entry}
    (h : accepted sql rows s = .puts entry s') : entry.sql = sql := by
  rw [accepted] at h
  split at h
  · cases h
  · cases h
    rfl

/-- A row is put by its insertion or by its update. -/
theorem turn_own {s s' : σ} {item : Json} {entry : Entry}
    (h : turn host table schema req store s item = .puts entry s') :
    entry.sql ∈ ownSql host table schema req item := by
  cases item with
  | object obj =>
      rw [turn] at h
      cases hsql : insertSql host.lib table schema obj with
      | none =>
          rw [hsql] at h
          cases h
      | some sql =>
          rw [hsql] at h
          dsimp only at h
          split at h
          · rw [sql_of_accepted h, ownSql, hsql]
            exact List.mem_append_left _ List.mem_cons_self
          · split at h
            · cases h
            · split at h
              · cases h
              · next updateSql hmerge =>
                  split at h
                  · rw [mergeSql] at hmerge
                    split at hmerge
                    · rw [sql_of_accepted h, ownSql, hmerge]
                      exact List.mem_append_right _ List.mem_cons_self
                    · cases hmerge
                  · cases h
  | _ => cases h

theorem forall₂_own {items : List Json} {s : σ}
    (h : allPut host table schema req store s items) :
    List.Forall₂ (fun item entry => entry.sql ∈ ownSql host table schema req item) items
      (entries host table schema req store s items) := by
  induction items generalizing s with
  | nil => exact .nil
  | cons item items ih =>
      rw [allPut] at h
      rw [entries]
      cases hturn : turn host table schema req store s item with
      | puts entry s' =>
          rw [hturn] at h
          exact .cons (turn_own hturn) (ih h)
      | passes s' =>
          rw [hturn] at h
          cases h
      | refused s' =>
          rw [hturn] at h
          cases h

theorem created_status (inserted : Nat) (returned : List Json) :
    (created req inserted returned).status ≠ 400 := by
  rw [created]
  split
  · simp
  · split <;> simp

theorem run_post {body : String} {items : List Json} (hitems : rowsToInsert host body = .ok items)
    (s : σ) : ∃ reply db, (post host ofFloat ofFloat32 table schema req ctx body).run store.handler
        ⟨s, []⟩ = (.ok reply, ⟨db, entries host table schema req store s items⟩) ∧
      (reply.status = 400 ↔ refuses host table schema req store s items) := by
  obtain ⟨result, db, hrun, hok⟩ := @run_postRows _ host ofFloat ofFloat32 table schema req ctx store
    items 0 [] ⟨s, []⟩
  rw [List.nil_append] at hrun
  dsimp only at hok hrun
  rw [post, hitems]
  dsimp only
  rw [Prog.run_bind, Exec.bind_apply, hrun]
  cases result with
  | error e =>
      have hrefuses : refuses host table schema req store s items = true := by
        simpa [Except.isOk, Except.toBool] using hok
      exact ⟨_, _, rfl, iff_of_true rfl hrefuses⟩
  | ok counts =>
      have hrefuses : refuses host table schema req store s items = false := by
        simpa [Except.isOk, Except.toBool] using hok
      refine ⟨_, _, rfl, iff_of_false (created_status _ _) ?_⟩
      rw [hrefuses]
      exact Bool.false_ne_true

end Runs

/-! ## The engine as a database -/

/-- The engine behind a clone; where it panics, the statement counts as refused. -/
def engineStore (host : Host) (ctx : ExecutionContext) : Store SharedDatabase where
  answer sql d :=
    match SharedDatabase.executeWithContext host sql ctx d with
    | (.ok (.rows columns rows), d') =>
        if wide : ∀ row ∈ rows, columns.length ≤ row.length then (.ok ⟨columns, rows, wide⟩, d')
        else (.error (.db (.exec (.invalidValue "panic"))), d')
    | (.ok _, d') => (.ok ⟨[], [], nofun⟩, d')
    | (.error e, d') => (.error e, d')
    | (.stop _, d') => (.error (.db (.exec (.invalidValue "panic"))), d')

/-- A row with both columns, and one without the first, which must not be null. -/
def twoRows : String := "[\x7b\"a\":2,\"b\":2\x7d,\x7b\"b\":7\x7d]"

def integer (n : Int64) : Json := .number ⟨some n, toString n.toInt⟩

/-- A server whose JSON library reads this body. -/
def batchHost : Host :=
  { Running.plainHost with lib := { plainLibrary with
    parseJson := fun body =>
      if body = twoRows then
        .ok (.array [.object [("a", integer 2), ("b", integer 2)], .object [("b", integer 7)]])
      else .error "expected value" } }

/-- A clone of the database with the empty table. -/
def emptyPairs : SharedDatabase := ⟨pairs, fun _ => [], 1, none⟩

def plainPost : Posting := ⟨false, [], none, []⟩

def postTwoRows : Talk Reply :=
  post batchHost (fun _ => .null) (fun _ => .null) "pairs".toList pairsSchema plainPost .admin twoRows

end ChocoBase.Server.Rest
