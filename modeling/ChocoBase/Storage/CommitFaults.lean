import ChocoBase.Storage.CrashSafety

/-!
# Commit and rollback under refused requests

Any journal or file request may be refused.  `commitTransaction` takes the journal
handle out of the pager before the steps that can fail, so a failed commit leaves
a half-finished state: the transaction is open but has no journal.  A session is
regular if it goes on from there only with a rollback, begins transactions on a
pager whose changes are in the file, and commits when page 0 holds the header.
-/

namespace ChocoBase.Storage

open ChocoBase.Foundation
open Exec (Post)

/-- A pager, with the logical state at its last `BEGIN`. -/
structure Session where
  pager : Pager
  began : Logical

inductive Call where
  | op (operation : PagerOp)
  | begin
  | commit
  | rollback

namespace Session

def call (s : Session) : Call → Session
  | .op operation => { s with pager := (operation.perform s.pager).2 }
  | .begin =>
      match Pager.beginTransaction s.pager with
      | (.ok (), pager) => { pager, began := pager.logical }
      | (_, pager) => { s with pager }
  | .commit => { s with pager := (Pager.commitTransaction s.pager).2 }
  | .rollback => { s with pager := (Pager.rollbackTransaction s.pager).2 }

def run (s : Session) (calls : List Call) : Session := calls.foldl call s

end Session

/-- A commit or a rollback failed: the transaction is open but has no journal handle. -/
def Pager.HalfFinished (p : Pager) : Prop := p.inTransaction = true ∧ p.journal = none

def Call.Regular (p : Pager) : Call → Prop
  | .op operation => operation.AvoidsHeader ∧ ¬p.HalfFinished
  | .begin => p.inTransaction = false → p.FileCurrent
  | .commit => p.inTransaction = true →
      p.journal.isSome ∧ p.file.disk.db[0]? = some p.header.toPage
  | .rollback => True

/-- Every call of a session meets its condition in the state it is made in. -/
def Session.Regular : Session → List Call → Prop
  | _, [] => True
  | s, call :: calls => call.Regular s.pager ∧ (s.call call).Regular calls

/-- The base of the open transaction is the state at its `BEGIN`. -/
structure BaseOf (base : List Page) (began : Logical) : Prop where
  header : ∃ header : Header, base[0]? = some header.toPage ∧
    base.length = header.pageCount.toNat ∧ began = fileLogical base header

inductive SessionInv : Session → Prop
  | idle {s} (coherent : s.pager.Coherent) (state : s.pager.inTransaction = false) :
      SessionInv s
  | active {s base start} (hbase : BaseOf base s.began)
      (hstart : JournalState base [] [] start.disk)
      (guarded : s.pager.Guarded base start true) : SessionInv s
  | half {s base} (hbase : BaseOf base s.began) (state : s.pager.HalfFinished)
      (restorable : Restorable base s.pager.file.disk) : SessionInv s

namespace SessionInv

theorem guarded_of_idle {p : Pager} (hp : p.Coherent) (hidle : p.inTransaction = false) :
    p.Guarded [] p.file false :=
  ⟨hp, hidle, fun _ => rfl, by simp⟩

/-- The files of an open transaction restore its base. -/
theorem recoverable_of_guarded {base : List Page} {start : Os} {p : Pager}
    (hstart : JournalState base [] [] start.disk) (h : p.Guarded base start true) :
    Recoverable base p.file.disk := by
  obtain ⟨-, recs, htxn⟩ := h.guard rfl
  obtain ⟨ops, hissues, hops⟩ := htxn.trace
  exact hissues.disk ▸ hstart.crash hops (.all _ _)

/-- Rolling back from restorable files: the base is back, or another rollback restores it. -/
theorem wp_rollback {base : List Page} {p : Pager} {began : Logical} (hbase : BaseOf base began)
    (hactive : p.inTransaction = true) (h : Restorable base p.file.disk) :
    Exec.wp Pager.rollbackTransaction
      ⟨fun _ p' => p'.Coherent ∧ p'.inTransaction = false ∧ p'.logical = began,
        fun _ p' => p.file.faults ≠ [] ∧ p'.HalfFinished ∧ Restorable base p'.file.disk,
        fun _ _ => False⟩ p := by
  obtain ⟨header, hheader, hlength, rfl⟩ := hbase.header
  have hrecover : Exec.wp recoverIfNeeded
      ⟨fun _ os => os.disk.db[0]? = some header.toPage ∧ os.disk.db = base,
        fun _ os => p.file.faults ≠ [] ∧ Restorable base os.disk, fun _ _ => False⟩ p.file := by
    refine Exec.wp_mono (recoverIfNeeded_spec h) ?_ ?_ (fun _ _ h => h)
    · exact fun _ os hok => ⟨by rw [hok.1, hheader], hok.1⟩
    · rintro - os ⟨hfaults, ops, hissues, hcrash⟩
      exact ⟨hfaults, hissues.disk ▸ hcrash _ (.all _ _)⟩
  refine Exec.wp_mono (Pager.wp_rollbackTransaction hactive hrecover) ?_ ?_ (fun _ _ h => h)
  · rintro - p' ⟨hempty, hheader', hdb⟩
    have hpos := (List.getElem?_eq_some_iff.mp hheader).1
    refine ⟨hempty.coherent ?_ (by rw [hdb]; exact hpos), hempty.idle, ?_⟩
    · rw [hdb, hheader', hlength]
    · rw [hempty.logical, hdb, hheader']
  · exact fun _ p' ⟨hactive', hjournal, hfaults, hrestorable⟩ =>
      ⟨hfaults, ⟨hactive', hjournal⟩, hrestorable⟩

/-- A successful commit from a guarded pager leaves it idle, a failed one half finished. -/
theorem wp_commit {base : List Page} {start : Os} {p : Pager}
    (hstart : JournalState base [] [] start.disk) (h : p.Guarded base start true) :
    Exec.wp Pager.commitTransaction
      ⟨fun _ p' => Pager.Committed base start p p',
        fun _ p' => p'.HalfFinished ∧ Restorable base p'.file.disk, fun _ _ => False⟩ p := by
  refine Exec.wp_mono (Pager.wp_commitTransaction h hstart.holds) (fun _ _ h => h) ?_
    (fun _ _ h => h)
  intro _ p' hfailed
  obtain ⟨ops, recs, hissues, hops⟩ := hfailed.trace
  exact ⟨⟨hfailed.active, hfailed.handle⟩, .inl (hissues.disk ▸ hstart.crash hops (.all _ _))⟩

theorem call_op {s : Session} (h : SessionInv s) {op : PagerOp} (hop : op.AvoidsHeader)
    (hhalf : ¬s.pager.HalfFinished) : SessionInv (s.call (.op op)) := by
  cases h with
  | idle hcoherent hidle =>
      have hkeeps := (Exec.wp_always_iff ..).mp
        (Pager.wp_perform (guarded_of_idle hcoherent hidle) hop)
      exact .idle hkeeps.guarded.coherent hkeeps.guarded.state
  | active hbase hstart hguarded =>
      have hkeeps := (Exec.wp_always_iff ..).mp (Pager.wp_perform hguarded hop)
      exact .active hbase hstart hkeeps.guarded
  | half hbase hstate hrestorable => exact absurd hstate hhalf

theorem call_begin {s : Session} (h : SessionInv s)
    (hcurrent : s.pager.inTransaction = false → s.pager.FileCurrent) :
    SessionInv (s.call .begin) := by
  have hrefused (hactive : s.pager.inTransaction = true) : s.call .begin = s := by
    simp [Session.call, Pager.beginTransaction, Exec.bind_apply, hactive]
  cases h with
  | idle hcoherent hidle =>
      have hcurrent := hcurrent hidle
      have hbegin := Pager.wp_beginTransaction hidle
      unfold Exec.wp at hbegin
      simp only [Session.call]
      rcases hresult : Pager.beginTransaction s.pager with ⟨_ | _ | _, p⟩
      all_goals rw [hresult] at hbegin
      · have hcurrent' : p.FileCurrent :=
          ⟨by rw [hbegin.db, hcurrent.length, hbegin.header],
            by rw [hbegin.db, hcurrent.header, hbegin.header],
            fun no => by rw [hbegin.content, hbegin.db, hcurrent.pages]⟩
        refine .active ⟨p.header, hcurrent'.header, hcurrent'.length, hcurrent'.logical⟩
          ⟨hbegin.holds ?_, .refl _⟩ (hbegin.guarded_of_fileCurrent hcoherent hcurrent')
        rw [hcurrent'.length, hbegin.header]
      · obtain ⟨-, file, hdb, rfl⟩ := hbegin
        refine .idle ?_ hidle
        exact { hcoherent with
          clean := by simpa [hdb] using hcoherent.clean
          cached_lt := by simpa [hdb] using hcoherent.cached_lt
          length_le := by simpa [hdb] using hcoherent.length_le
          file_pos := by simpa [hdb] using hcoherent.file_pos }
      · exact hbegin.elim
  | active hbase hstart hguarded =>
      rw [hrefused hguarded.state]
      exact .active hbase hstart hguarded
  | half hbase hstate hrestorable =>
      rw [hrefused hstate.1]
      exact .half hbase hstate hrestorable

theorem call_commit {s : Session} (h : SessionInv s)
    (hhandle : s.pager.inTransaction = true → s.pager.journal.isSome) :
    SessionInv (s.call .commit) := by
  cases h with
  | idle hcoherent hidle =>
      have hsame : s.call .commit = s := by
        simp [Session.call, Pager.commitTransaction, Exec.bind_apply, hidle]
      rw [hsame]
      exact .idle hcoherent hidle
  | active hbase hstart hguarded =>
      have hcommit := wp_commit hstart hguarded
      unfold Exec.wp at hcommit
      simp only [Session.call]
      rcases hresult : Pager.commitTransaction s.pager with ⟨_ | _ | _, p⟩
      all_goals rw [hresult] at hcommit
      · exact .idle hcommit.coherent hcommit.idle
      · exact .half hbase hcommit.1 hcommit.2
      · exact hcommit.elim
  | half hbase hstate hrestorable =>
      have := hhandle hstate.1
      simp [hstate.2] at this

theorem call_rollback {s : Session} (h : SessionInv s) : SessionInv (s.call .rollback) := by
  have hroll {base : List Page} (hbase : BaseOf base s.began)
      (hactive : s.pager.inTransaction = true) (hrestorable : Restorable base s.pager.file.disk) :
      SessionInv (s.call .rollback) := by
    have hrollback := wp_rollback hbase hactive hrestorable
    unfold Exec.wp at hrollback
    simp only [Session.call]
    rcases hresult : Pager.rollbackTransaction s.pager with ⟨_ | _ | _, p⟩
    all_goals rw [hresult] at hrollback
    · exact .idle hrollback.1 hrollback.2.1
    · exact .half hbase hrollback.2.1 hrollback.2.2
    · exact hrollback.elim
  cases h with
  | idle hcoherent hidle =>
      have hsame : s.call .rollback = s := by
        simp [Session.call, Pager.rollbackTransaction, Exec.bind_apply, hidle]
      rw [hsame]
      exact .idle hcoherent hidle
  | active hbase hstart hguarded =>
      exact hroll hbase hguarded.state (.inl (recoverable_of_guarded hstart hguarded))
  | half hbase hstate hrestorable => exact hroll hbase hstate.1 hrestorable

/-- Without refused requests a commit with a journal handle succeeds. -/
theorem commit_calm {s : Session} (h : SessionInv s) (hactive : s.pager.inTransaction = true)
    (hhandle : s.pager.journal.isSome) (hcalm : s.pager.file.faults = []) :
    ∃ q, Pager.commitTransaction s.pager = (.ok (), q) := by
  cases h with
  | idle _ hidle => simp [hactive] at hidle
  | active _ hstart hguarded =>
      obtain ⟨_, q, hq, -⟩ := Exec.exists_of_wp (Exec.wp_mono
        (Pager.wp_commitTransaction hguarded hstart.holds) (fun _ _ h => h)
        (fun _ _ h => h.faults hcalm) (fun _ _ h => h))
      exact ⟨q, hq⟩
  | half _ hstate _ => simp [hstate.2] at hhandle

/-- One regular call keeps the invariant of a session. -/
theorem call {s : Session} (h : SessionInv s) {c : Call} (hc : c.Regular s.pager) :
    SessionInv (s.call c) := by
  cases c with
  | op op => exact h.call_op hc.1 hc.2
  | begin => exact h.call_begin hc
  | commit => exact h.call_commit fun hactive => (hc hactive).1
  | rollback => exact h.call_rollback

/-- Every regular session keeps it. -/
theorem run {s : Session} (h : SessionInv s) {calls : List Call} (hcalls : s.Regular calls) :
    SessionInv (s.run calls) := by
  induction calls generalizing s with
  | nil => exact h
  | cons c calls ih => exact ih (h.call hcalls.1) hcalls.2

end SessionInv

/--
In a regular session with refused requests, a commit that succeeds leaves files
that open to the logical state it was called on, and after one that fails a
rollback restores the state at `BEGIN`; it can only fail by another refusal.
-/
theorem commit_honest {p : Pager} (hp : p.Coherent) (hidle : p.inTransaction = false)
    (calls : List Call) (hcalls : Session.Regular ⟨p, p.logical⟩ calls) :
    let s := Session.run ⟨p, p.logical⟩ calls
    (Call.commit.Regular s.pager → s.pager.inTransaction = true →
      ∀ q, Pager.commitTransaction s.pager = (.ok (), q) → OpensTo q.file.disk s.pager.logical) ∧
    (∀ e q, Pager.commitTransaction s.pager = (.error e, q) →
      (∀ r, Pager.rollbackTransaction q = (.ok (), r) → r.logical = s.began) ∧
      (q.file.faults = [] → ∃ r, Pager.rollbackTransaction q = (.ok (), r))) := by
  intro s
  have hs : SessionInv s := .run (.idle hp hidle) hcalls
  clear_value s
  cases hs with
  | idle hcoherent hidle =>
      refine ⟨fun _ hactive => by simp [hidle] at hactive, fun e q hcommit => ?_⟩
      simp [Pager.commitTransaction, Exec.bind_apply, hidle] at hcommit
  | active hbase hstart hguarded =>
      have hwp := SessionInv.wp_commit hstart hguarded
      refine ⟨fun hregular hactive q hcommit => ?_, fun e q hcommit => ?_⟩
      · have hq := Exec.wp_ok hwp hcommit
        have hlogical : q.logical = s.pager.logical := by
          simp only [Pager.logical, hq.content, hq.header]
        rw [← hlogical]
        refine Pager.opensTo_of_flushed hq.coherent hq.dirty ?_ hq.journal
        rw [hq.content, hq.header, hguarded.coherent.content_zero, (hregular hactive).2]
      · obtain ⟨hstate, hrestorable⟩ := Exec.wp_error hwp hcommit
        have hrollback := SessionInv.wp_rollback hbase hstate.1 hrestorable
        refine ⟨fun r hr => (Exec.wp_ok hrollback hr).2.2, fun hcalm => ?_⟩
        obtain ⟨_, r, hr, -⟩ := Exec.exists_of_wp (Exec.wp_mono hrollback (fun _ _ h => h)
          (fun _ _ h => h.1 hcalm) (fun _ _ h => h))
        exact ⟨r, hr⟩
  | half hbase hstate hrestorable =>
      refine ⟨fun hregular hactive => ?_, fun e q hcommit => ?_⟩
      · have := (hregular hactive).1
        simp [hstate.2] at this
      · simp [Pager.commitTransaction, Exec.bind_apply, hstate.1, hstate.2] at hcommit

theorem Pager.not_halfFinished {p : Pager} {journal : Journal} (h : p.journal = some journal) :
    ¬p.HalfFinished := by
  rintro ⟨-, hnone⟩
  simp [h] at hnone

/-- A new database on a system with the given answers to its coming requests. -/
def Pager.createdWith (faults : List Bool) : Pager :=
  { created with file := { created.file with faults } }

theorem Pager.createdWith_coherent (faults : List Bool) : (createdWith faults).Coherent :=
  { created_coherent with }

theorem Pager.createdWith_fileCurrent (faults : List Bool) : (createdWith faults).FileCurrent :=
  ⟨rfl, rfl, fun _ => Pager.content_of_not_mem (AList.notMem_empty _)⟩

/-- A commit of a new catalog root succeeds and leaves files that open to it. -/
theorem commit_honest_created :
    let p := Pager.createdWith []
    let s := Session.run ⟨p, p.logical⟩ [.begin, .op (.setCatalogRoot 7)]
    ∃ q, Pager.commitTransaction s.pager = (.ok (), q) ∧ OpensTo q.file.disk s.pager.logical := by
  intro p s
  have hregular : Session.Regular ⟨p, p.logical⟩ [.begin, .op (.setCatalogRoot 7)] :=
    ⟨fun _ => Pager.createdWith_fileCurrent _, ⟨trivial, Pager.not_halfFinished rfl⟩, trivial⟩
  have hs : SessionInv s := .run (.idle (Pager.createdWith_coherent _) rfl) hregular
  have hcommits : Call.commit.Regular s.pager := fun _ => ⟨rfl, rfl⟩
  obtain ⟨q, hcommit⟩ := hs.commit_calm rfl rfl rfl
  exact ⟨q, hcommit, (commit_honest (Pager.createdWith_coherent _) rfl _ hregular).1 hcommits rfl
    q hcommit⟩

/--
The journal's header write is refused in the first commit.  The second commit
succeeds, but the files open to the state at `BEGIN`.
-/
theorem second_commit_loses_transaction :
    let p := Pager.createdWith [false, false, false, false, false, true]
    let s := Session.run ⟨p, p.logical⟩ [.begin, .op (.setCatalogRoot 7), .commit]
    s.pager.inTransaction = true ∧
      ∃ q, Pager.commitTransaction s.pager = (.ok (), q) ∧
        ¬OpensTo q.file.disk s.pager.logical := by
  intro p s
  have hregular : Session.Regular ⟨p, p.logical⟩ [.begin, .op (.setCatalogRoot 7), .commit] :=
    ⟨fun _ => Pager.createdWith_fileCurrent _, ⟨trivial, Pager.not_halfFinished rfl⟩,
      fun _ => ⟨rfl, rfl⟩, trivial⟩
  have hs : SessionInv s := .run (.idle (Pager.createdWith_coherent _) rfl) hregular
  have hactive : s.pager.inTransaction = true := rfl
  have hjournal : s.pager.journal = none := rfl
  have hroot : s.pager.logical.header.catalogRoot = 7 := rfl
  have hbegan : s.began.header.catalogRoot = 0 := rfl
  have hfile : (Pager.commitTransaction s.pager).2.file = s.pager.file := rfl
  refine ⟨hactive, (Pager.commitTransaction s.pager).2, rfl, fun hopens => ?_⟩
  rw [hfile] at hopens
  clear_value s
  cases hs with
  | idle _ hidle => simp [hactive] at hidle
  | active _ _ hguarded =>
      obtain ⟨⟨journal, hsome, -⟩, -⟩ := hguarded.guard rfl
      simp [hjournal] at hsome
  | half hbase _ hrestorable =>
      obtain ⟨header, hheader, -, heq⟩ := hbase.header
      obtain ⟨_, _, hrun, hlogical⟩ := hopens [] fun _ => .ascending
      obtain ⟨_, _, hrun', hlogical'⟩ := hrestorable.opensTo hheader [] fun _ => .ascending
      obtain ⟨rfl, -⟩ : _ ∧ _ := by simpa using hrun.symm.trans hrun'
      rw [← hlogical, hlogical', ← heq, hbegan] at hroot
      simp at hroot

end ChocoBase.Storage
