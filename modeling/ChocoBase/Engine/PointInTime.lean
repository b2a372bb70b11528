import ChocoBase.BTree.Tree
import ChocoBase.Engine.Mutate
import ChocoBase.Types.Row
import Mathlib.Data.List.Induction

/-!
# Recovery to a point in time

The log of statements is a table whose key is the time of the entry.  An entry that the
table does not take is lost without an error.  The statements on the table appear as
what they do to its rows.
-/

namespace ChocoBase.Engine.PointInTime

open ChocoBase.BTree ChocoBase.Foundation ChocoBase.Storage ChocoBase.Types

structure PitrRow where
  id : Int64
  timestampMs : Int64
  sql : String

abbrev PitrTable := List PitrRow

/-- A number of a statement: one that is not an `i64` is no literal. -/
def intLiteral (n : UInt64) : Option Int64 :=
  if n.toNat < 2 ^ 63 then some (Int64.ofNat n.toNat) else none

def pitrSchema : TableSchema where
  name := "_pitr_wal_log"
  columns := [⟨"id", .integer, true, true⟩, ⟨"timestamp_ms", .integer, true, false⟩,
    ⟨"sql", .text, true, false⟩]
  rootPage := 0
  rlsEnabled := false

def PitrRow.values (r : PitrRow) : Row := [.integer r.id, .integer r.timestampMs, .text r.sql]

/-- The size by which the tree accepts the row; none if its text fails an assertion. -/
def PitrRow.size (r : PitrRow) : Option Nat := do
  let key ← rowKey pitrSchema r.values
  let payload ← encodeRow pitrSchema r.values
  return singleEntrySize key payload

inductive Inserted where
  | ok (t : PitrTable)
  | error
  | panic

/-- `INSERT INTO _pitr_wal_log (id, timestamp_ms, sql) VALUES (..)` -/
def insertRow (timestampMs : UInt64) (sql : String) (t : PitrTable) : Inserted :=
  match intLiteral timestampMs with
  | none => .error
  | some time =>
      let row : PitrRow := ⟨time, time, sql⟩
      match row.size with
      | none => .panic
      | some size =>
          if pageSize < size then .error
          else if row.id ∈ t.map PitrRow.id then .error
          else .ok (t ++ [row])

/-- None if the call panics. -/
def recordPitrEntry (t : PitrTable) (timestampMs : UInt64) (sql : String) : Option PitrTable :=
  match insertRow timestampMs sql t with
  | .ok t => some t
  | .error => some t
  | .panic => none

/-- `SELECT sql FROM _pitr_wal_log WHERE timestamp_ms <= .. ORDER BY id ASC` -/
def selectSql (t : PitrTable) (target : UInt64) : Option (List String) :=
  (intLiteral target).map fun limit =>
    ((t.filter fun r => r.timestampMs ≤ limit).insertionSort fun a b => a.id ≤ b.id).map PitrRow.sql

def walStatements (t : PitrTable) (target : UInt64) : List String :=
  (selectSql t target).getD []

/-! ## Replaying -/

section Replay

variable {δ ε : Type} (execute : String → δ → Except ε δ)

/-- The statements one after another; an error is met with a rollback, and ends it. -/
def replay : List String → δ → Except ε (Nat × δ)
  | [], d => .ok (0, d)
  | stmt :: stmts, d => do
      let d ← execute stmt d
      let (total, d) ← replay stmts d
      return (total + 1, d)

def restoreToPointInTime (restoreDatabase : String → δ → Except ε (Nat × δ)) (t : PitrTable)
    (baseDumpSql : String) (target : UInt64) (d : δ) : Except ε (Nat × δ) := do
  let statements := walStatements t target
  let (total, d) ← if baseDumpSql.isEmpty then pure (0, d) else restoreDatabase baseDumpSql d
  if statements.isEmpty then return (total, d)
  else do
    let d ← execute "BEGIN TRANSACTION" d
    let (replayed, d) ← replay execute statements d
    let d ← execute "COMMIT" d
    return (total + replayed, d)

/-- Execution that keeps a log of its statements. -/
def logged (stmt : String) (d : δ × List String) : Except ε (δ × List String) :=
  (execute stmt d.1).map fun d' => (d', d.2 ++ [stmt])

variable {execute}

theorem log_of_logged {stmt : String} {d d' : δ × List String}
    (h : logged execute stmt d = .ok d') : d'.2 = d.2 ++ [stmt] := by
  unfold logged at h
  cases hstmt : execute stmt d.1 with
  | error e =>
      rw [hstmt] at h
      cases h
  | ok d₁ =>
      rw [hstmt] at h
      obtain rfl := Except.ok.inj h
      rfl

/-- A replay that succeeds has executed each statement once and in order. -/
theorem replay_logged {stmts : List String} {d d' : δ × List String} {total : Nat}
    (h : replay (logged execute) stmts d = .ok (total, d')) :
    total = stmts.length ∧ d'.2 = d.2 ++ stmts := by
  induction stmts generalizing d d' total with
  | nil =>
      obtain ⟨rfl, rfl⟩ := Prod.mk.inj (Except.ok.inj h)
      simp
  | cons stmt stmts ih =>
      simp only [replay, logged] at h
      cases hstmt : execute stmt d.1 with
      | error e => simp [hstmt, Except.map, bind, Except.bind] at h
      | ok d₁ =>
          simp only [hstmt, Except.map, bind, Except.bind] at h
          cases hrest : replay (logged execute) stmts (d₁, d.2 ++ [stmt]) with
          | error e => simp [hrest] at h
          | ok found =>
              rw [hrest] at h
              obtain ⟨rfl, rfl⟩ := Prod.mk.inj (Except.ok.inj h)
              obtain ⟨htotal, hlog⟩ := ih hrest
              exact ⟨by rw [htotal, List.length_cons], by simp [hlog]⟩

/-- Without a base dump, the statements of the log are all that is replayed. -/
theorem restore_logged
    {restoreDatabase : String → δ × List String → Except ε (Nat × (δ × List String))}
    {t : PitrTable} {target : UInt64} {d d' : δ × List String} {total : Nat}
    (h : restoreToPointInTime (logged execute) restoreDatabase t "" target d = .ok (total, d')) :
    total = (walStatements t target).length ∧ (walStatements t target ≠ [] →
      d'.2 = d.2 ++ "BEGIN TRANSACTION" :: walStatements t target ++ ["COMMIT"]) := by
  unfold restoreToPointInTime at h
  cases hwal : walStatements t target with
  | nil =>
      rw [hwal] at h
      obtain ⟨rfl, rfl⟩ := Prod.mk.inj (Except.ok.inj h)
      simp
  | cons stmt stmts =>
      simp only [hwal, List.isEmpty_cons, if_true, Bool.false_eq_true, if_false,
        show "".isEmpty = true from rfl, pure, Except.pure, bind, Except.bind] at h
      cases hbegin : logged execute "BEGIN TRANSACTION" d with
      | error e => simp [hbegin] at h
      | ok d₁ =>
          simp only [hbegin] at h
          cases hreplay : replay (logged execute) (stmt :: stmts) d₁ with
          | error e => simp [hreplay] at h
          | ok found =>
              simp only [hreplay] at h
              cases hcommit : logged execute "COMMIT" found.2 with
              | error e => simp [hcommit] at h
              | ok d₂ =>
                  simp only [hcommit] at h
                  obtain ⟨rfl, rfl⟩ := Prod.mk.inj (Except.ok.inj h)
                  obtain ⟨htotal, hlog⟩ := replay_logged hreplay
                  refine ⟨by rw [htotal, Nat.zero_add], fun _ => ?_⟩
                  rw [log_of_logged hcommit, hlog, log_of_logged hbegin]
                  simp

end Replay

/-! ## What is lost -/

structure Entry where
  timestampMs : UInt64
  sql : String

def recordAll (entries : List Entry) : Option PitrTable :=
  entries.foldlM (fun t e => recordPitrEntry t e.timestampMs e.sql) []

/-- The row of the entry, if it has one and it fits in a page. -/
def Entry.row? (e : Entry) : Option PitrRow := do
  let time ← intLiteral e.timestampMs
  let row : PitrRow := ⟨time, time, e.sql⟩
  let size ← row.size
  if size ≤ pageSize then some row else none

/-- The entry fits in a page, and no earlier entry that does is of the same time. -/
def Taken (earlier : List Entry) (e : Entry) : Prop :=
  e.row?.isSome ∧ ∀ e' ∈ earlier, e'.row?.isSome → e'.timestampMs ≠ e.timestampMs

/-- The statements recorded up to the target. -/
def upTo (target : UInt64) (entries : List Entry) : List String :=
  (entries.filter fun e => e.timestampMs ≤ target).map Entry.sql

section Literals

variable {n n' : UInt64} {i i' : Int64}

theorem toInt_of_intLiteral (h : intLiteral n = some i) : i.toInt = n.toNat := by
  obtain ⟨hlt, hi⟩ := Option.ite_none_right_eq_some.mp h
  obtain rfl := Option.some.inj hi
  exact Int64.toInt_ofNat_of_lt hlt

theorem intLiteral_le_iff (h : intLiteral n = some i) (h' : intLiteral n' = some i') :
    i ≤ i' ↔ n ≤ n' := by
  rw [Int64.le_iff_toInt_le, toInt_of_intLiteral h, toInt_of_intLiteral h', UInt64.le_iff_toNat_le]
  exact Int.ofNat_le

theorem intLiteral_injective (h : intLiteral n = some i) (h' : intLiteral n' = some i) :
    n = n' := by
  have heq := (toInt_of_intLiteral h).symm.trans (toInt_of_intLiteral h')
  exact UInt64.toNat_inj.mp (Int.ofNat.inj heq)

end Literals

section Recording

variable {entries earlier : List Entry} {e : Entry} {t t' : PitrTable} {r : PitrRow}
  {target : UInt64} {limit : Int64}

theorem Entry.row?_eq_some (h : e.row? = some r) :
    intLiteral e.timestampMs = some r.id ∧ r.timestampMs = r.id ∧ r.sql = e.sql := by
  obtain ⟨time, htime, h⟩ := Option.bind_eq_some_iff.mp h
  obtain ⟨size, -, h⟩ := Option.bind_eq_some_iff.mp h
  obtain ⟨-, hr⟩ := Option.ite_none_right_eq_some.mp h
  obtain rfl := Option.some.inj hr
  exact ⟨htime, rfl, rfl⟩

/-- What a call that returns has done to the table. -/
theorem recordPitrEntry_eq_some (h : recordPitrEntry t e.timestampMs e.sql = some t') :
    (∃ r, e.row? = some r ∧ r.id ∉ t.map PitrRow.id ∧ t' = t ++ [r]) ∨
      (t' = t ∧ ∀ r, e.row? = some r → r.id ∈ t.map PitrRow.id) := by
  unfold recordPitrEntry insertRow at h
  unfold Entry.row?
  cases htime : intLiteral e.timestampMs with
  | none =>
      rw [htime] at h
      exact .inr ⟨(Option.some.inj h).symm, fun r hr => by cases hr⟩
  | some time =>
      simp only [htime] at h
      cases hsize : (⟨time, time, e.sql⟩ : PitrRow).size with
      | none => simp [hsize] at h
      | some size =>
          simp only [hsize] at h
          by_cases hbig : pageSize < size
          · rw [if_pos hbig] at h
            refine .inr ⟨(Option.some.inj h).symm, fun r hr => ?_⟩
            simp [hsize, Nat.not_le.mpr hbig] at hr
          · rw [if_neg hbig] at h
            have hrow : ((some time).bind fun time => (⟨time, time, e.sql⟩ : PitrRow).size.bind
                fun size => if size ≤ pageSize then some (⟨time, time, e.sql⟩ : PitrRow) else none) =
                some ⟨time, time, e.sql⟩ := by
              simp [hsize, Nat.not_lt.mp hbig]
            by_cases hdup : time ∈ t.map PitrRow.id
            · rw [if_pos hdup] at h
              refine .inr ⟨(Option.some.inj h).symm, fun r hr => ?_⟩
              obtain rfl := Option.some.inj (hrow.symm.trans hr)
              exact hdup
            · rw [if_neg hdup] at h
              exact .inl ⟨_, hrow, hdup, (Option.some.inj h).symm⟩

/-- The rows of the table, after these entries. -/
structure Logged (entries : List Entry) (t : PitrTable) : Prop where
  sorted : t.Pairwise fun r r' => r.id < r'.id
  timed : ∀ r ∈ t, r.timestampMs = r.id
  ids : ∀ id, id ∈ t.map PitrRow.id ↔ ∃ e ∈ entries, ∃ r, e.row? = some r ∧ r.id = id

theorem Logged.taken_iff (h : Logged earlier t) (hrow : e.row? = some r) :
    Taken earlier e ↔ r.id ∉ t.map PitrRow.id := by
  rw [h.ids]
  constructor
  · rintro ⟨-, hno⟩ ⟨e', he', r', hrow', hid⟩
    refine hno e' he' (by simp [hrow']) ?_
    exact intLiteral_injective (hid ▸ (Entry.row?_eq_some hrow').1) (Entry.row?_eq_some hrow).1
  · intro hno
    refine ⟨by simp [hrow], fun e' he' hsome heq => hno ?_⟩
    obtain ⟨r', hrow'⟩ := Option.isSome_iff_exists.mp hsome
    have hid := (Entry.row?_eq_some hrow').1
    rw [heq, (Entry.row?_eq_some hrow).1] at hid
    exact ⟨e', he', r', hrow', (Option.some.inj hid).symm⟩

theorem Logged.snoc (h : Logged entries t) (hlast : ∀ e' ∈ entries, e'.timestampMs ≤ e.timestampMs)
    (hrecord : recordPitrEntry t e.timestampMs e.sql = some t') :
    Logged (entries ++ [e]) t' := by
  rcases recordPitrEntry_eq_some hrecord with ⟨r, hrow, hfresh, rfl⟩ | ⟨rfl, hlost⟩
  · have hless : ∀ r' ∈ t, r'.id < r.id := by
      intro r' hr'
      have hmem := List.mem_map_of_mem (f := PitrRow.id) hr'
      obtain ⟨e', he', r'', hrow', hid⟩ := (h.ids _).mp hmem
      have hle := (intLiteral_le_iff (Entry.row?_eq_some hrow').1 (Entry.row?_eq_some hrow).1).mpr
        (hlast e' he')
      rw [hid] at hle
      refine Int64.lt_of_le_of_ne hle fun heq => hfresh ?_
      exact heq ▸ hmem
    refine ⟨?_, ?_, fun id => ?_⟩
    · rw [List.pairwise_append]
      refine ⟨h.sorted, List.pairwise_singleton _ _, fun r' hr' r'' hr'' => ?_⟩
      rw [List.mem_singleton.mp hr'']
      exact hless r' hr'
    · intro r' hr'
      rcases List.mem_append.mp hr' with hr' | hr'
      · exact h.timed r' hr'
      · rw [List.mem_singleton.mp hr']
        exact (Entry.row?_eq_some hrow).2.1
    · rw [List.map_append, List.mem_append, h.ids]
      simp only [List.mem_append, List.mem_singleton, List.map_singleton, or_and_right, exists_or,
        exists_eq_left, hrow, Option.some.injEq]
      exact or_congr_right ⟨fun h => ⟨r, rfl, h.symm⟩, fun ⟨_, hr, hid⟩ => by rw [← hid, ← hr]⟩
  · refine ⟨h.sorted, h.timed, fun id => ?_⟩
    rw [h.ids]
    constructor
    · rintro ⟨e', he', hrest⟩
      exact ⟨e', List.mem_append_left _ he', hrest⟩
    · rintro ⟨e', he', r, hrow, rfl⟩
      rcases List.mem_append.mp he' with he' | he'
      · exact ⟨e', he', r, hrow, rfl⟩
      · rw [List.mem_singleton.mp he'] at hrow
        exact (h.ids _).mp (hlost r hrow)

theorem recordAll_append (h : recordAll (entries ++ [e]) = some t') :
    ∃ t, recordAll entries = some t ∧ recordPitrEntry t e.timestampMs e.sql = some t' := by
  unfold recordAll at h ⊢
  rw [List.foldlM_append] at h
  obtain ⟨t, ht, hrest⟩ := Option.bind_eq_some_iff.mp h
  refine ⟨t, ht, ?_⟩
  simpa using hrest

theorem logged_recordAll (hsorted : entries.Pairwise fun e e' => e.timestampMs ≤ e'.timestampMs)
    (h : recordAll entries = some t) : Logged entries t := by
  induction entries using List.reverseRecOn generalizing t with
  | nil =>
      obtain rfl := Option.some.inj h
      exact ⟨.nil, by simp, by simp⟩
  | append_singleton entries e ih =>
      obtain ⟨t₀, ht₀, hrecord⟩ := recordAll_append h
      obtain ⟨hentries, -, hlast⟩ := List.pairwise_append.mp hsorted
      exact (ih hentries ht₀).snoc (fun e' he' => hlast e' he' e (List.mem_singleton.mpr rfl))
        hrecord

/-- The rows are in the order of the ids already. -/
theorem Logged.walStatements (h : Logged entries t) (hlimit : intLiteral target = some limit) :
    walStatements t target = (t.filter fun r => r.id ≤ limit).map PitrRow.sql := by
  have hfilter : (t.filter fun r => r.timestampMs ≤ limit) = t.filter fun r => r.id ≤ limit :=
    List.filter_congr fun r hr => by rw [h.timed r hr]
  have hsorted : (t.filter fun r => r.id ≤ limit).Pairwise fun a b => a.id ≤ b.id :=
    (h.sorted.filter _).imp fun hlt => Int64.le_of_lt hlt
  rw [PointInTime.walStatements, selectSql, hlimit, Option.map_some, Option.getD_some, hfilter,
    hsorted.insertionSort_eq]

theorem upTo_append : upTo target (entries ++ [e]) =
    upTo target entries ++ if e.timestampMs ≤ target then [e.sql] else [] := by
  by_cases hle : e.timestampMs ≤ target <;> simp [upTo, List.filter_append, hle]

theorem splits_snoc {P : List Entry → Entry → Prop} :
    (∀ before x after, entries ++ [e] = before ++ x :: after → P before x) ↔
      (∀ before x after, entries = before ++ x :: after → P before x) ∧ P entries e := by
  constructor
  · intro h
    refine ⟨fun before x after heq => h before x (after ++ [e]) (by simp [heq]), ?_⟩
    exact h entries e [] rfl
  · rintro ⟨hold, hlast⟩ before x after heq
    rcases List.eq_nil_or_concat after with rfl | ⟨after', last, rfl⟩
    · obtain ⟨rfl, hx⟩ := List.append_inj' heq rfl
      obtain rfl := List.head_eq_of_cons_eq hx
      exact hlast
    · have hsplit : entries ++ [e] = (before ++ x :: after') ++ [last] := by simpa using heq
      obtain ⟨rfl, -⟩ := List.append_inj' hsplit rfl
      exact hold before x after' rfl

/-- Within the range of the literals, what is replayed is what was taken. -/
theorem wal_eq_upTo_iff (hlimit : intLiteral target = some limit)
    (hsorted : entries.Pairwise fun e e' => e.timestampMs ≤ e'.timestampMs)
    (h : recordAll entries = some t) :
    (walStatements t target).length ≤ (upTo target entries).length ∧
      (walStatements t target = upTo target entries ↔
        ∀ before e after, entries = before ++ e :: after → e.timestampMs ≤ target →
          Taken before e) := by
  induction entries using List.reverseRecOn generalizing t with
  | nil =>
      obtain rfl := Option.some.inj h
      simp [walStatements, selectSql, hlimit, upTo]
  | append_singleton entries e ih =>
      obtain ⟨t₀, ht₀, hrecord⟩ := recordAll_append h
      obtain ⟨hentries, -, hlast⟩ := List.pairwise_append.mp hsorted
      obtain ⟨hlength, hiff⟩ := ih hentries ht₀
      have hlogged := logged_recordAll hentries ht₀
      rw [(logged_recordAll hsorted h).walStatements hlimit, upTo_append, splits_snoc, ← hiff]
      rw [hlogged.walStatements hlimit] at hlength hiff ⊢
      rcases recordPitrEntry_eq_some hrecord with ⟨r, hrow, hfresh, rfl⟩ | ⟨rfl, hlost⟩
      · obtain ⟨htime, -, hsql⟩ := Entry.row?_eq_some hrow
        have htaken := (hlogged.taken_iff hrow).mpr hfresh
        have hle := intLiteral_le_iff htime hlimit
        by_cases hin : e.timestampMs ≤ target
        · simp only [List.filter_append, List.map_append, hin, if_true]
          simp only [List.filter_singleton, hle.mpr hin, decide_true, cond_true,
            List.map_singleton, hsql, List.append_cancel_right_eq, List.length_append]
          exact ⟨by simpa using hlength, by simp [htaken]⟩
        · have hout : ¬r.id ≤ limit := fun h => hin (hle.mp h)
          simpa [List.filter_append, hin, hout] using hlength
      · by_cases hin : e.timestampMs ≤ target
        · have hno : ¬Taken entries e := by
            intro htaken
            obtain ⟨r, hrow⟩ := Option.isSome_iff_exists.mp htaken.1
            exact (hlogged.taken_iff hrow).mp htaken (hlost r hrow)
          refine ⟨hlength.trans (by simp), ?_⟩
          refine iff_of_false (fun heq => ?_) fun hall => hno (hall.2 hin)
          have hlong := congrArg List.length heq
          simp only [hin, if_true, List.length_append, List.length_singleton] at hlong
          omega
        · simpa [hin] using hlength

end Recording

/-- Three statements, two of them due. -/
def ordered : List Entry := [⟨100, "A"⟩, ⟨200, "B"⟩, ⟨300, "C"⟩]

/-- Two statements of one millisecond. -/
def burst : List Entry := [⟨100, "A"⟩, ⟨100, "B"⟩]

end ChocoBase.Engine.PointInTime
