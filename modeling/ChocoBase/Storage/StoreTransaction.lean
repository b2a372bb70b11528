import ChocoBase.Storage.CommitFaults
import ChocoBase.Storage.Rollback
import ChocoBase.Storage.Store

/-!
# Transactions of the store

`BEGIN` on a pager with nothing dirty saves the store: `ROLLBACK` gives it back,
whatever pages were written, allocated or freed in between.  `COMMIT` keeps the
store that was reached, also when pages were dirty at `BEGIN`.
-/

namespace ChocoBase.Storage

open ChocoBase.Foundation
open Exec (Post)
open UndoLog (Undoes)

/-- Outside of a transaction, with nothing waiting in the cache. -/
structure Idle (p : Pager) (st : Store) : Prop where
  serves : Serves p st
  clean : p.dirty = ∅

/-- The file `db` with this header holds the pages of the store. -/
structure FileHolds (db : List Page) (header : Header) (st : Store) : Prop where
  zero : db[0]? = some header.toPage
  models : ∀ p : Pager, p.Empty → p.header = header → p.file.disk.db = db →
    p.file.faults = [] → Models p st

/-- A transaction that began on `start` can go back to the store `st`. -/
structure Saves (base : List Page) (start : Os) (st : Store) : Prop where
  db : start.disk.db = base
  file : ∃ header, FileHolds base header st

namespace Idle

variable {p : Pager} {st : Store}

theorem content (h : Idle p st) (no : PageNo) : p.content no = p.file.disk.db[no.toNat]? :=
  h.serves.models.coherent.content_of_clean (by simp [h.clean])

theorem zero (h : Idle p st) : p.file.disk.db[0]? = some p.header.toPage := by
  rw [← h.serves.models.settled.header, h.content]
  rfl

theorem fileHolds (h : Idle p st) : FileHolds p.file.disk.db p.header st := by
  have hmodels := h.serves.models
  refine ⟨h.zero, fun p' hempty hheader' hdb hcalm => ?_⟩
  have hsame : p'.content = p.content := by
    funext no
    rw [hempty.content, hdb, h.content]
  have hsettled : p'.Settled := {
    calm := hcalm
    length := by rw [hdb, hheader', hmodels.settled.length]
    header := by rw [hsame, hmodels.settled.header, hheader'] }
  exact hmodels.of_same hsettled
    (hempty.coherent hsettled.length.le (hdb ▸ hmodels.coherent.file_pos)) hheader' hsame

theorem image_eq (h : Idle p st) : p.image = p.file.disk.db := by
  have hmodels := h.serves.models
  refine List.ext_getElem? fun i => ?_
  by_cases hi : i < p.header.pageCount.toNat
  · have hno : (UInt32.ofNat i).toNat = i :=
      UInt32.toNat_ofNat_of_lt' (hi.trans p.header.pageCount.toNat_lt)
    rw [← hno, hmodels.settled.image_getElem? hmodels.coherent, h.content]
  · rw [List.getElem?_eq_none (by rw [Pager.image_length]; omega),
      List.getElem?_eq_none (by rw [hmodels.settled.length]; omega)]

end Idle

/-- The pager just after `BEGIN`. -/
structure Begins (st : Store) (p p' : Pager) : Prop where
  models : Models p' st
  guarded : p'.Guarded p.image p'.file true
  holds : JournalHolds p.image [] [] p'.file.disk
  dirty : p'.dirty = p.dirty
  saves : p.dirty = ∅ → Saves p.image p'.file st

theorem wp_begin {p : Pager} {st : Store} (h : Serves p st) :
    Exec.wp Pager.beginTransaction
      ⟨fun _ p' => Begins st p p', fun _ _ => False, fun _ _ => False⟩ p := by
  have hmodels := h.models
  refine Exec.wp_mono (Pager.wp_beginTransaction h.idle) ?_
    (fun _ _ h' => h'.1 hmodels.settled.calm) (fun _ _ h' => h')
  intro _ p' hbegan
  have hzero : p.image[0]? = some p.header.toPage := by
    rw [← hmodels.settled.header]
    exact hmodels.settled.image_getElem? hmodels.coherent 0
  refine ⟨?_, ?_, hbegan.holds (by simp), ?_, fun hclean => ?_⟩
  · exact hmodels.of_same (hbegan.settled hmodels.settled) (hbegan.coherent hmodels.coherent)
      hbegan.header hbegan.content
  · exact hbegan.guarded hmodels.coherent (by simp) hzero fun no _ =>
      (hmodels.settled.image_getElem? hmodels.coherent no).symm
  · rw [hbegan.pager]
  · have hidle : Idle p st := ⟨h, hclean⟩
    rw [hidle.image_eq]
    exact ⟨hbegan.db, p.header, hidle.fileHolds⟩

section End

variable {p : Pager} {st : Store} {base : List Page} {start : Os}

theorem wp_commit (hguarded : p.Guarded base start true)
    (hstart : JournalHolds base [] [] start.disk) (hmodels : Models p st) :
    Exec.wp Pager.commitTransaction
      ⟨fun _ p' => Idle p' st, fun _ _ => False, fun _ _ => False⟩ p := by
  refine Exec.wp_mono (Pager.wp_commitTransaction hguarded hstart) ?_
    (fun _ _ h' => h'.faults hmodels.settled.calm) (fun _ _ h' => h')
  intro _ p' h'
  have hsettled : p'.Settled := {
    calm := h'.calm hmodels.settled.calm
    length := by rw [h'.length, hmodels.settled.length, h'.header]
    header := by rw [h'.content, hmodels.settled.header, h'.header] }
  exact ⟨⟨hmodels.of_same hsettled h'.coherent h'.header h'.content, h'.idle, h'.journal⟩, h'.dirty⟩

theorem wp_rollback {saved : Store} (hguarded : p.Guarded base start true)
    (hstart : JournalHolds base [] [] start.disk) (hsaves : Saves base start saved)
    (hcalm : p.file.faults = []) :
    Exec.wp Pager.rollbackTransaction
      ⟨fun _ p' => Idle p' saved, fun _ _ => False, fun _ _ => False⟩ p := by
  obtain ⟨header, hfile⟩ := hsaves.file
  have hstate : JournalState base [] [] start.disk := ⟨hstart, hsaves.db ▸ Undoes.refl _⟩
  have hrecoverable := SessionInv.recoverable_of_guarded hstate hguarded
  have hrecover : Exec.wp recoverIfNeeded
      ⟨fun _ os => os.disk.db[0]? = some header.toPage ∧ os.disk.db = base ∧
        os.disk.journal = none ∧ os.faults = [], fun _ _ => False, fun _ _ => False⟩ p.file := by
    refine Exec.wp_mono (recoverIfNeeded_spec (.inl hrecoverable)) ?_
      (fun _ _ h => h.1 hcalm) (fun _ _ h => h)
    rintro - os ⟨hdb, hjournal, ops, hissues, -⟩
    exact ⟨hdb ▸ hfile.zero, hdb, hjournal hcalm, hissues.calm hcalm⟩
  refine Exec.wp_mono (Pager.wp_rollbackTransaction hguarded.state hrecover) ?_
    (fun _ _ h => h.2.2) (fun _ _ h => h)
  rintro - p' ⟨hempty, hheader, hdb, hjournal, hcalm'⟩
  exact ⟨⟨hfile.models p' hempty hheader hdb hcalm', hempty.idle, hjournal⟩, hempty.dirty⟩

end End

end ChocoBase.Storage
