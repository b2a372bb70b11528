import ChocoBase.Storage.Session
import Mathlib.Logic.Relation

/-!
# Crash recovery

After a crash during a transaction the files open to the state at `BEGIN` as long
as the journal exists, and to the committed state once it is gone.  A crash
during recovery, or during any number of recoveries, changes nothing about that.
-/

namespace ChocoBase.Storage

open ChocoBase.Foundation
open Exec (Post)
open Relation (ReflTransGen)

/-- The work of a transaction, up to its commit or to its end without one. -/
def transaction (ops : List PagerOp) (commits : Bool) : Pager.Action Unit := do
  runOps ops
  if commits then Pager.commitTransaction

/-- The requests that took effect between two states of a pager. -/
def Pager.issuedSince (p p' : Pager) : List DiskOp :=
  p'.file.issued.drop p.file.issued.length

theorem Os.Issues.issuedSince {p p' : Pager} {ops : List DiskOp}
    (h : p.file.Issues p'.file ops) : p.issuedSince p' = ops := by
  simp [Pager.issuedSince, h.issued]

/-- A recovery that runs on `disk` crashes and leaves `crashed` behind. -/
def RecoveryCrash (disk crashed : Disk) : Prop :=
  ∃ orders, CrashState disk
    (recoverIfNeeded { disk, faults := [], issued := [], orders }).2.issued crashed

/-- A crash inside recovery leaves the disk restorable to the same base. -/
theorem Restorable.recoveryCrash {base : List Page} {disk crashed : Disk}
    (h : Restorable base disk) (hcrash : RecoveryCrash disk crashed) :
    Restorable base crashed := by
  obtain ⟨orders, hcrash⟩ := hcrash
  have hspec := @recoverIfNeeded_spec base { disk, faults := [], issued := [], orders } h
  unfold Exec.wp at hspec
  rcases hrun : recoverIfNeeded { disk, faults := [], issued := [], orders } with ⟨_ | _ | _, os⟩
  all_goals rw [hrun] at hspec hcrash
  · obtain ⟨-, -, ops, hissues, hcrashes⟩ := hspec
    exact hcrashes crashed (by simpa [hissues.issued] using hcrash)
  · exact absurd rfl hspec.1
  · exact hspec.elim

theorem Restorable.recoveryCrashes {base : List Page} {disk crashed : Disk}
    (h : Restorable base disk) (hcrash : ReflTransGen RecoveryCrash disk crashed) :
    Restorable base crashed := by
  induction hcrash with
  | refl => exact h
  | tail _ hstep ih => exact ih.recoveryCrash hstep

/-- A transaction either leaves a trace that recovery undoes, or commits what it built. -/
theorem transaction_trace {base : List Page} {start : Os} {p : Pager}
    (h : p.Guarded base start true) (hstart : JournalHolds base [] [] start.disk)
    {ops : List PagerOp} (hops : ∀ op ∈ ops, op.AvoidsHeader) (commits : Bool) :
    (∃ trace recs, start.Issues (transaction ops commits p).2.file trace ∧
      LogSteps base [] trace recs) ∨
    commits = true ∧
      Pager.Committed base start (runOps ops p).2 (transaction ops commits p).2 := by
  have hrun := (Exec.wp_always_iff ..).mp (Pager.wp_runOps h hops)
  have hguarded := hrun.guarded
  have htrace (q : Pager) (hq : q = (runOps ops p).2) :
      ∃ trace recs, start.Issues q.file trace ∧ LogSteps base [] trace recs := by
    obtain ⟨-, recs, htxn⟩ := hguarded.guard rfl
    obtain ⟨trace, htrace⟩ := htxn.trace
    exact ⟨trace, recs, hq ▸ htrace⟩
  simp only [transaction, Exec.bind_apply]
  rcases hresult : runOps ops p with ⟨_ | _ | _, q⟩
  · rw [hresult] at hguarded htrace
    cases commits with
    | false => exact .inl (htrace q rfl)
    | true =>
        have hcommit := Pager.wp_commitTransaction hguarded hstart
        unfold Exec.wp at hcommit
        simp only [if_true]
        rcases hq : Pager.commitTransaction q with ⟨_ | _ | _, q'⟩
        all_goals rw [hq] at hcommit
        · exact .inr ⟨trivial, hcommit⟩
        · obtain ⟨trace, recs, h⟩ := hcommit.trace
          exact .inl ⟨trace, recs, h⟩
        · exact hcommit.elim
  · exact .inl (htrace q (by rw [hresult]))
  · exact .inl (htrace q (by rw [hresult]))

namespace Pager

/-- A pager whose changes are all in the file opens to its own logical state. -/
theorem opensTo_of_flushed {p : Pager} (hp : p.Coherent) (hdirty : p.dirty = ∅)
    (hheader : p.content 0 = some p.header.toPage) (hjournal : p.file.disk.journal = none) :
    OpensTo p.file.disk p.logical := by
  have hlogical : p.logical = fileLogical p.file.disk.db p.header := by
    have hclean (no : PageNo) : no ∉ p.dirty := by simp [hdirty]
    simp only [logical, fileLogical, hp.content_of_clean (hclean _)]
  rw [hlogical]
  exact Restorable.opensTo (.inr ⟨hjournal, rfl⟩) (hp.content_zero ▸ hheader)

/-- The transaction that begins on a pager whose logical state is its file. -/
theorem Began.guarded_of_fileCurrent {p₀ p : Pager} (h : Began p₀ p) (hp : p₀.Coherent)
    (hcurrent : p.FileCurrent) : p.Guarded p.file.disk.db p.file true := by
  refine h.guarded hp ?_ ?_ (fun no _ => ?_)
  · rw [hcurrent.length, h.header]
  · rw [hcurrent.header, h.header]
  · rw [← h.content, hcurrent.pages]

end Pager

/--
Whatever a transaction did when the machine stopped, the files open to the state
at `BEGIN` while the journal exists, also after crashes of the recovery itself,
and to the state the transaction built once the journal is deleted.
-/
theorem crash_recovery {p₀ p : Pager} (hp : p₀.Coherent) (hidle : p₀.inTransaction = false)
    (hcalm : p₀.file.faults = []) (hbegin : Pager.beginTransaction p₀ = (.ok (), p))
    (hcurrent : p.FileCurrent) (ops : List PagerOp) (hops : ∀ op ∈ ops, op.AvoidsHeader)
    (commits : Bool) {crashed : Disk}
    (hcrash : CrashState p.file.disk (p.issuedSince (transaction ops commits p).2) crashed) :
    (crashed.journal.isSome → ∀ again, ReflTransGen RecoveryCrash crashed again →
      OpensTo again p.logical) ∧
    (crashed.journal = none → commits = true ∧ OpensTo crashed (runOps ops p).2.logical) := by
  have hbegan := Exec.wp_ok (Pager.wp_beginTransaction hidle) hbegin
  have hguarded := hbegan.guarded_of_fileCurrent hp hcurrent
  have hholds : JournalHolds p.file.disk.db [] [] p.file.disk := hbegan.holds (by
    rw [hcurrent.length, hbegan.header])
  have hstate : JournalState p.file.disk.db [] [] p.file.disk := ⟨hholds, .refl _⟩
  have hopens (disk : Disk) (h : Restorable p.file.disk.db disk) : OpensTo disk p.logical :=
    hcurrent.logical ▸ h.opensTo hcurrent.header
  -- before the journal is removed, every crash state is recoverable
  have hjournaled {trace : List DiskOp} {recs : List Preimage}
      (htrace : LogSteps p.file.disk.db [] trace recs)
      (hcrash : CrashState p.file.disk trace crashed) :
      crashed.journal.isSome ∧ ∀ again, ReflTransGen RecoveryCrash crashed again →
        OpensTo again p.logical := by
    have hrec := hstate.crash htrace hcrash
    refine ⟨?_, fun again hagain => hopens again (Restorable.recoveryCrashes (.inl hrec) hagain)⟩
    obtain ⟨_, _, ⟨⟨_, -, hbytes⟩, -⟩, -⟩ := hrec
    simp [hbytes]
  rcases transaction_trace hguarded hholds hops commits with ⟨trace, recs, hissues, htrace⟩ | h
  · rw [hissues.issuedSince] at hcrash
    obtain ⟨hsome, hagain⟩ := hjournaled htrace hcrash
    exact ⟨fun _ => hagain, fun hnone => by simp [hnone] at hsome⟩
  · obtain ⟨hcommits, hcommitted⟩ := h
    obtain ⟨trace, recs, hissues, htrace⟩ := hcommitted.trace
    rw [hissues.issuedSince] at hcrash
    rcases CrashState.of_append hcrash with hcrash | hcrash
    · obtain ⟨hsome, hagain⟩ := hjournaled htrace hcrash
      exact ⟨fun _ => hagain, fun hnone => by simp [hnone] at hsome⟩
    · rcases CrashState.of_cons hcrash with hbefore | ⟨_, _, hop, -⟩ | hcrash
      · obtain ⟨hsome, hagain⟩ := hjournaled htrace (hbefore ▸ .all _ _)
        exact ⟨fun _ => hagain, fun hnone => by simp [hnone] at hsome⟩
      · cases hop
      · have hdisk : crashed = (transaction ops commits p).2.file.disk := by
          rw [hissues.disk, Disk.after_append, CrashState.of_nil hcrash]
          rfl
        subst hdisk
        have hsettled : (runOps ops p).2.Settled :=
          ((Exec.wp_always_iff ..).mp (Pager.wp_runOps hguarded hops)).settled
            (hcurrent.settled (hbegan.calm hcalm))
        have hlogical : (transaction ops commits p).2.logical = (runOps ops p).2.logical := by
          simp only [Pager.logical, hcommitted.content, hcommitted.header]
        refine ⟨fun hsome => by simp [hcommitted.journal] at hsome, fun _ => ⟨hcommits, ?_⟩⟩
        rw [← hlogical]
        refine Pager.opensTo_of_flushed hcommitted.coherent hcommitted.dirty ?_ hcommitted.journal
        rw [hcommitted.content, hcommitted.header, hsettled.header]

/-- A transaction on a new database allocates a page and stops before its commit. -/
theorem crash_recovery_created :
    let p := (Pager.beginTransaction Pager.created).2
    ∀ again, ReflTransGen RecoveryCrash p.file.disk again → OpensTo again p.logical := by
  intro p
  have hcurrent : p.FileCurrent :=
    ⟨rfl, rfl, fun no => Pager.content_of_not_mem (p := p) (AList.notMem_empty no)⟩
  exact (crash_recovery Pager.created_coherent rfl rfl rfl hcurrent [.allocatePage]
    (by simp [PagerOp.AvoidsHeader]) false (.clean 0)).1 rfl

end ChocoBase.Storage
