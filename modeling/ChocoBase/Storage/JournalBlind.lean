import ChocoBase.Storage.Session

/-!
# Operations do not read the journal

Within a transaction the pager only appends to the journal file.  So each operation does the
same whatever the file has before, and leaves it there.
-/

namespace ChocoBase.Storage

open ChocoBase.Foundation

/-- The pager with more bytes before those of its journal file. -/
def Pager.before (front : Bytes) (p : Pager) : Pager :=
  { p with file := { p.file with disk :=
    { p.file.disk with journal := p.file.disk.journal.map (front ++ ·) } } }

namespace Pager

open Exec (Commutes)

variable {front : Bytes}

/-- The requests of operations on pages. -/
inductive PageRequest : DiskOp → Prop
  | writePage (no : Nat) (page : Page) : PageRequest (.writePage no page)
  | setLen (pages : Nat) : PageRequest (.setLen pages)
  | syncDb : PageRequest .syncDb
  | appendJournal (bytes : Bytes) : PageRequest (.appendJournal bytes)

theorem request_commutes {op : DiskOp} (hop : PageRequest op) :
    Commutes (before front) (onFile (Os.request op)) := by
  rintro ⟨⟨⟨db, journal⟩, faults, issued, orders⟩, cache, recency, dirty, header, capacity,
    pagesRead, inTransaction, handle, journaledPages, origPageCount⟩
  rcases faults with _ | ⟨_ | _, faults⟩ <;> cases hop <;> cases journal <;>
    simp [onFile, Exec.zoom, Os.request, before, Disk.apply]

theorem flushHeader_commutes : Commutes (before front) flushHeader :=
  .get_bind (fun _ => rfl) fun _ => request_commutes (.writePage ..)

theorem readPageFromDisk_commutes (no : PageNo) :
    Commutes (before front) (readPageFromDisk no) := by
  refine .get_bind (fun _ => rfl) fun p => ?_
  cases p.file.disk.db[no.toNat]? with
  | none => exact .throw _
  | some page => exact .pure _

theorem writePageToDisk_commutes (no : PageNo) : Commutes (before front) (writePageToDisk no) :=
  .get_bind (fun _ => rfl) fun _ => .bind (.unwrap _) fun _ => request_commutes (.writePage ..)

theorem touch_commutes (no : PageNo) : Commutes (before front) (touch no) :=
  .modify fun _ => rfl

theorem evictLoop_commutes (victims : List PageNo) :
    Commutes (before front) (evictLoop victims) := by
  induction victims with
  | nil => exact .pure ()
  | cons victim rest ih =>
      refine .get_bind (fun _ => rfl) fun p => .ite (.pure ()) ?_
      have hrest : Commutes (before front) (do
          Exec.modify fun pager : Pager =>
            { pager with cache := pager.cache.erase victim, recency := rest }
          evictLoop rest : Action Unit) := .bind (.modify fun _ => rfl) fun _ => ih
      refine .ite ?_ hrest
      exact .bind (writePageToDisk_commutes victim) fun _ =>
        .bind (.modify fun _ => rfl) fun _ => hrest

theorem evictIfNeeded_commutes : Commutes (before front) evictIfNeeded :=
  .get_bind (fun _ => rfl) fun _ => evictLoop_commutes _

theorem ensureLoaded_commutes (no : PageNo) : Commutes (before front) (ensureLoaded no) := by
  refine .get_bind (fun _ => rfl) fun p => .ite ?_ (touch_commutes no)
  exact .bind evictIfNeeded_commutes fun _ => .bind (readPageFromDisk_commutes no) fun _ =>
    .bind (.modify fun _ => rfl) fun _ => touch_commutes no

theorem getPage_commutes (no : PageNo) : Commutes (before front) (getPage no) :=
  .bind (ensureLoaded_commutes no) fun _ => .get_bind (fun _ => rfl) fun _ => .unwrap _

/-! ## Journaling -/

theorem appendPage_commutes (journal : Journal) (no : PageNo) (page : Page) :
    Commutes (before front) (onFile (journal.appendPage no page)) := by
  have happend : (onFile (journal.appendPage no page) : Action Journal) =
      onFile (Os.request (.appendJournal (recordBytes no page))) >>= fun _ =>
        pure ⟨{ journal.header with recordCount := journal.header.recordCount + 1 }⟩ := by
    funext p
    simp only [onFile, Exec.zoom, Journal.appendPage, Exec.bind_apply]
    rcases Os.request (.appendJournal (recordBytes no page)) p.file with ⟨_ | _ | _, os⟩ <;> rfl
  rw [happend]
  exact .bind (request_commutes (.appendJournal _)) fun _ => .pure _

theorem journalImage_commutes (no : PageNo) (page : Page) :
    Commutes (before front) (journalImage no page) := by
  refine .get_bind (fun _ => rfl) fun p => ?_
  cases p.journal with
  | none => exact .pure ()
  | some journal =>
      exact .bind (appendPage_commutes journal no page) fun _ => .modify fun _ => rfl

theorem markJournaled_commutes (no : PageNo) : Commutes (before front) (markJournaled no) :=
  .modify fun _ => rfl

theorem journalCached_commutes (no : PageNo) : Commutes (before front) (journalCached no) :=
  .get_bind (fun _ => rfl) fun _ => .bind (.unwrap _) fun _ => journalImage_commutes _ _

theorem recordPreimageForHeader_commutes : Commutes (before front) recordPreimageForHeader :=
  .get_bind (fun _ => rfl) fun _ =>
    .ite (.bind (journalImage_commutes _ _) fun _ => markJournaled_commutes 0) (.pure ())

theorem journalForReuse_commutes (no : PageNo) : Commutes (before front) (journalForReuse no) :=
  .get_bind (fun _ => rfl) fun _ =>
    .ite (.bind (journalCached_commutes no) fun _ => markJournaled_commutes no) (.pure ())

theorem journalForWrite_commutes (no : PageNo) : Commutes (before front) (journalForWrite no) := by
  refine .get_bind (fun _ => rfl) fun _ => .ite ?_ (.pure ())
  exact .ite (.bind (journalCached_commutes no) fun _ => markJournaled_commutes no)
    (markJournaled_commutes no)

theorem getPageMut_commutes (no : PageNo) (write : Page → Option Page) :
    Commutes (before front) (getPageMut no write) :=
  .bind (ensureLoaded_commutes no) fun _ => .bind (journalForWrite_commutes no) fun _ =>
    .bind (.modify fun _ => rfl) fun _ => .get_bind (fun _ => rfl) fun _ =>
      .bind (.unwrap _) fun _ => .bind (.unwrap _) fun _ => .modify fun _ => rfl

/-! ## Allocation -/

theorem insertDirty_commutes (no : PageNo) (page : Page) :
    Commutes (before front) (insertDirty no page) :=
  .bind (.modify fun _ => rfl) fun _ => touch_commutes no

theorem popFreelist_commutes (no : PageNo) : Commutes (before front) (popFreelist no) :=
  .bind (ensureLoaded_commutes no) fun _ => .bind (journalForReuse_commutes no) fun _ =>
    .get_bind (fun _ => rfl) fun _ => .bind (.unwrap _) fun _ => .bind (.unwrap _) fun _ =>
      .bind (.modify fun _ => rfl) fun _ => .bind flushHeader_commutes fun _ => .pure _

theorem growFile_commutes : Commutes (before front) growFile := by
  refine .get_bind (fun _ => rfl) fun p => ?_
  have hgrow : Commutes (before front) (do
      Exec.modify fun pager : Pager =>
        { pager with header := { pager.header with pageCount := p.header.pageCount + 1 } }
      flushHeader
      onFile (Os.request (.setLen (p.header.pageCount + 1).toNat))
      return p.header.pageCount : Action PageNo) :=
    .bind (.modify fun _ => rfl) fun _ => .bind flushHeader_commutes fun _ =>
      .bind (request_commutes (.setLen _)) fun _ => .pure _
  exact .ite (.bind (.halt _) fun _ => hgrow) hgrow

theorem acquirePage_commutes : Commutes (before front) acquirePage :=
  .bind recordPreimageForHeader_commutes fun _ => .get_bind (fun _ => rfl) fun _ =>
    .ite (popFreelist_commutes _) growFile_commutes

theorem allocatePage_commutes : Commutes (before front) allocatePage :=
  .bind acquirePage_commutes fun _ => .bind evictIfNeeded_commutes fun _ =>
    .bind (insertDirty_commutes _ _) fun _ => .pure _

theorem freePage_commutes (no : PageNo) : Commutes (before front) (freePage no) :=
  .bind recordPreimageForHeader_commutes fun _ => .bind (ensureLoaded_commutes no) fun _ =>
    .bind (journalForReuse_commutes no) fun _ => .get_bind (fun _ => rfl) fun _ =>
      .bind (.unwrap _) fun _ => .bind evictIfNeeded_commutes fun _ =>
        .bind (insertDirty_commutes _ _) fun _ => .bind (.modify fun _ => rfl) fun _ =>
          flushHeader_commutes

theorem setCatalogRoot_commutes (root : PageNo) : Commutes (before front) (setCatalogRoot root) :=
  .bind recordPreimageForHeader_commutes fun _ => .bind (.modify fun _ => rfl) fun _ =>
    flushHeader_commutes

theorem flushPages_commutes (pages : List PageNo) :
    Commutes (before front) (flushPages pages) := by
  induction pages with
  | nil => exact .pure ()
  | cons no pages ih =>
      exact .bind (writePageToDisk_commutes no) fun _ => .bind (.modify fun _ => rfl) fun _ => ih

theorem flush_commutes : Commutes (before front) flush :=
  .get_bind (fun _ => rfl) fun _ => .bind (fun _ => rfl) fun _ =>
    .bind (flushPages_commutes _) fun _ => request_commutes .syncDb

end Pager

theorem perform_commutes {front : Bytes} (op : PagerOp) :
    Exec.Commutes (Pager.before front) op.perform := by
  cases op with
  | getPage no => exact .bind (Pager.getPage_commutes no) fun _ => .pure _
  | getPageMut no write => exact .bind (Pager.getPageMut_commutes no write) fun _ => .pure _
  | allocatePage => exact .bind Pager.allocatePage_commutes fun _ => .pure _
  | freePage no => exact .bind (Pager.freePage_commutes no) fun _ => .pure _
  | setCatalogRoot root => exact .bind (Pager.setCatalogRoot_commutes root) fun _ => .pure _
  | evict => exact .bind Pager.evictIfNeeded_commutes fun _ => .pure _
  | flush => exact .bind Pager.flush_commutes fun _ => .pure _

theorem runOps_commutes (front : Bytes) (ops : List PagerOp) :
    Exec.Commutes (Pager.before front) (runOps ops) := by
  induction ops with
  | nil => exact .pure ()
  | cons op ops ih => exact .bind (perform_commutes op).attempt fun _ => ih

end ChocoBase.Storage
