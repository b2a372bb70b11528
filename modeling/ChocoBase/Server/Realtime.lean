import ChocoBase.Server.Connections

/-!
# Change events for subscribers

Three ways to a subscriber: the JSON session, the WebSocket and the stream of server
sent events.  Only the first one filters, and not by the policies of the table.
-/

namespace ChocoBase.Server

open ChocoBase.Foundation ChocoBase.Engine ChocoBase.Sql ChocoBase.Types ChocoBase.Auth
  ChocoBase.Plan

inductive Path where
  /-- with the filter of the subscription -/
  | json (filter : Option String)
  | websocket
  | sse (channel : String)

variable (host : Host) (d : Database) (ctx : ExecutionContext) (event : ChangeEvent)

/-- `table_schema`, whose errors stand for no table -/
def schemaOf (table : String) : Option TableSchema :=
  match ((Catalog.getTable table).run (Database.answer host.env) d).1 with
  | .ok found => found
  | _ => none

/-- A stream on a private channel is refused to a client that is not logged in. -/
def sseRefused (channel : String) : Bool :=
  PostgresWire.startsWith "private:" channel.toList && !ctx.userId.isSome && !ctx.isAdmin

/-- Whether the event is written to the subscriber. -/
def delivers : Path → Bool
  | .json filter =>
      Session.tableMatches filter event &&
        Session.checkEventRls (schemaOf host d event.table) event ctx
  | .websocket => true
  | .sse channel => !sseRefused ctx channel

/-- The session asks the database for the schema and decides by it. -/
theorem admits_eq (hadmin : ctx.isAdmin = false) : Session.admits event ctx = do
    let schema ← call (.tableSchema event.table)
    return Session.checkEventRls schema event ctx := by
  rw [Session.admits, hadmin]
  rfl

/-! ## What the subscriber may see -/

/-- The rows that the event carries. -/
def images : List Row := event.oldRow.toList ++ event.newRow.toList

/-- Whether the user's own `SELECT` on the table lets this row through. -/
def sees (table : String) (row : Row) : Bool :=
  let execute := executeStatement host.lib ctx host.depth
  let selected := selectRows host.lib ctx execute table .select none
  match (selected.run (Database.answer host.env) d).1 with
  | .ok (schema, _, some predicate) =>
      match evalWithContext host.lib schema row ctx predicate with
      | .ok v => isTruthy v
      | _ => false
  | .ok (_, _, none) => true
  | _ => false

/-- The row by which the JSON session decides is of another user. -/
def OfAnother (schema : TableSchema) : Prop :=
  ∃ row idx uid, event.newRow.or event.oldRow = some row ∧
    schema.columnIndex "user_id" = some idx ∧ row[idx]? = some (.integer uid) ∧
      some uid ≠ ctx.userId

/-- What each path keeps back. -/
def Withheld : Path → Prop
  | .json filter => (∃ table, filter = some table ∧ event.table ≠ table) ∨
      ctx.isAdmin = false ∧ ∃ schema, schemaOf host d event.table = some schema ∧
        schema.rlsEnabled = true ∧ (ctx.userId = none ∨ OfAnother ctx event schema)
  | .websocket => False
  | .sse channel => "private:".toList <+: channel.toList ∧ ctx.userId = none ∧ ctx.isAdmin = false

variable {host d ctx event}

theorem tableMatches_eq_false_iff {filter : Option String} :
    Session.tableMatches filter event = false ↔
      ∃ table, filter = some table ∧ event.table ≠ table := by
  cases filter <;> simp [Session.tableMatches]

/-- The image that decides: the new row, or else the old one. -/
theorem ownerCheck_eq_false_iff {schema : TableSchema} :
    (match event.newRow.or event.oldRow, schema.columnIndex "user_id" with
      | some row, some idx =>
          match row[idx]? with
          | some (.integer uid) => decide (some uid = ctx.userId)
          | _ => true
      | _, _ => true) = false ↔ OfAnother ctx event schema := by
  unfold OfAnother
  cases event.newRow.or event.oldRow with
  | none => simp
  | some row =>
      cases schema.columnIndex "user_id" with
      | none => simp
      | some idx =>
          rcases hv : row[idx]? with _ | ⟨_ | uid | _ | _ | _ | _ | _⟩ <;> simp [hv]

theorem checkEventRls_eq_false_iff {schema : Option TableSchema} :
    Session.checkEventRls schema event ctx = false ↔ ctx.isAdmin = false ∧ ∃ found,
      schema = some found ∧ found.rlsEnabled = true ∧
        (ctx.userId = none ∨ OfAnother ctx event found) := by
  unfold Session.checkEventRls
  cases ctx.isAdmin with
  | true => simp
  | false =>
      cases schema with
      | none => simp
      | some found =>
          cases hrls : found.rlsEnabled with
          | false => simp [hrls]
          | true =>
              cases huser : ctx.userId with
              | none => simp [hrls]
              | some user =>
                  simp only [Bool.false_eq_true, if_false, hrls, Bool.not_true, Option.isNone_some]
                  rw [← huser]
                  refine ownerCheck_eq_false_iff.trans ?_
                  simp [hrls, huser]

theorem delivers_eq_false_iff {path : Path} :
    delivers host d ctx event path = false ↔ Withheld host d ctx event path := by
  cases path with
  | json filter =>
      rw [delivers, Bool.and_eq_false_iff, tableMatches_eq_false_iff, checkEventRls_eq_false_iff]
      rfl
  | websocket => simp [delivers, Withheld]
  | sse channel =>
      simp [delivers, Withheld, sseRefused, PostgresWire.startsWith, and_assoc]

variable (host d ctx event)

/-- A table whose rows no policy shows to anyone, and one row in it. -/
def hiddenNotes : Database :=
  Database.runAll plainLibrary Running.plainHost.env [
    .createTable "notes" [⟨"body", .text, true, true⟩], .alterTableRls "notes" true,
    .insert "notes" none [[.stringLiteral "secret"]] none]
    { Running.atRest.db.sorting with subscribed := true }

end ChocoBase.Server
