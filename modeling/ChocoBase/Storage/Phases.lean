import ChocoBase.Storage.Pager

/-!
# Which calls open and close a transaction

Only three calls of the pager change whether a transaction is open.
-/

namespace ChocoBase.Storage.Pager

open ChocoBase.Foundation
open Exec (Preserves)

/-- The call neither opens nor closes a transaction. -/
abbrev InPhase {α : Type} (x : Action α) : Prop := Preserves Pager.inTransaction x

variable {α : Type}

theorem onFile_inPhase (x : Exec Os StorageError α) : InPhase (onFile x) :=
  .zoom fun _ _ => rfl

theorem readPageFromDisk_inPhase (no : PageNo) : InPhase (readPageFromDisk no) :=
  .get_bind fun p => by
    split
    · exact .pure _
    · exact .throw _

theorem writePageToDisk_inPhase (no : PageNo) : InPhase (writePageToDisk no) :=
  .get_bind fun _ => (Preserves.unwrap _).bind fun _ => onFile_inPhase _

theorem flushHeader_inPhase : InPhase flushHeader := .get_bind fun _ => onFile_inPhase _

theorem touch_inPhase (no : PageNo) : InPhase (touch no) := .modify fun _ => rfl

theorem evictLoop_inPhase (queue : List PageNo) : InPhase (evictLoop queue) := by
  induction queue with
  | nil => exact .pure ()
  | cons victim rest ih =>
      refine .get_bind fun p => ?_
      split
      · exact .pure ()
      · split
        · exact (writePageToDisk_inPhase victim).bind fun _ => .modify_bind (fun _ => rfl) fun _ =>
            .modify_bind (fun _ => rfl) fun _ => ih
        · exact .modify_bind (fun _ => rfl) fun _ => ih

theorem evictIfNeeded_inPhase : InPhase evictIfNeeded := .get_bind fun _ => evictLoop_inPhase _

theorem ensureLoaded_inPhase (no : PageNo) : InPhase (ensureLoaded no) := by
  refine .get_bind fun p => ?_
  split
  · exact evictIfNeeded_inPhase.bind fun _ => (readPageFromDisk_inPhase no).bind fun _ =>
      .modify_bind (fun _ => rfl) fun _ => touch_inPhase no
  · exact touch_inPhase no

theorem getPage_inPhase (no : PageNo) : InPhase (getPage no) :=
  (ensureLoaded_inPhase no).bind fun _ => .get_bind fun _ => .unwrap _

theorem journalImage_inPhase (no : PageNo) (page : Page) : InPhase (journalImage no page) :=
  .get_bind fun p => by
    split
    · exact .pure ()
    · exact (onFile_inPhase _).bind fun _ => .modify fun _ => rfl

theorem markJournaled_inPhase (no : PageNo) : InPhase (markJournaled no) := .modify fun _ => rfl

theorem journalCached_inPhase (no : PageNo) : InPhase (journalCached no) :=
  .get_bind fun _ => (Preserves.unwrap _).bind fun _ => journalImage_inPhase _ _

theorem recordPreimageForHeader_inPhase : InPhase recordPreimageForHeader := by
  refine .get_bind fun p => ?_
  split
  · exact (journalImage_inPhase _ _).bind fun _ => markJournaled_inPhase 0
  · exact .pure ()

theorem journalForReuse_inPhase (no : PageNo) : InPhase (journalForReuse no) := by
  refine .get_bind fun p => ?_
  split
  · exact (journalCached_inPhase no).bind fun _ => markJournaled_inPhase no
  · exact .pure ()

theorem journalForWrite_inPhase (no : PageNo) : InPhase (journalForWrite no) := by
  refine .get_bind fun p => ?_
  split
  · split
    · exact (journalCached_inPhase no).bind fun _ => markJournaled_inPhase no
    · exact markJournaled_inPhase no
  · exact .pure ()

theorem getPageMut_inPhase (no : PageNo) (write : Page → Option Page) :
    InPhase (getPageMut no write) :=
  (ensureLoaded_inPhase no).bind fun _ => (journalForWrite_inPhase no).bind fun _ =>
    .modify_bind (fun _ => rfl) fun _ => .get_bind fun _ => (Preserves.unwrap _).bind fun _ =>
      (Preserves.unwrap _).bind fun _ => .modify fun _ => rfl

theorem insertDirty_inPhase (no : PageNo) (page : Page) : InPhase (insertDirty no page) :=
  .modify_bind (fun _ => rfl) fun _ => touch_inPhase no

theorem popFreelist_inPhase (no : PageNo) : InPhase (popFreelist no) :=
  (ensureLoaded_inPhase no).bind fun _ => (journalForReuse_inPhase no).bind fun _ =>
    .get_bind fun _ => (Preserves.unwrap _).bind fun _ => (Preserves.unwrap _).bind fun _ =>
      .modify_bind (fun _ => rfl) fun _ => flushHeader_inPhase.bind fun _ => .pure _

theorem growFile_inPhase : InPhase growFile := by
  refine .get_bind fun p => ?_
  simp only
  split
  · exact (Preserves.halt _).bind fun _ => .modify_bind (fun _ => rfl) fun _ =>
      flushHeader_inPhase.bind fun _ => (onFile_inPhase _).bind fun _ => .pure _
  · exact .modify_bind (fun _ => rfl) fun _ =>
      flushHeader_inPhase.bind fun _ => (onFile_inPhase _).bind fun _ => .pure _

theorem allocatePage_inPhase : InPhase allocatePage := by
  refine Preserves.bind (recordPreimageForHeader_inPhase.bind fun _ => .get_bind fun p => ?_) fun _ =>
    evictIfNeeded_inPhase.bind fun _ => (insertDirty_inPhase _ _).bind fun _ => .pure _
  split
  · exact popFreelist_inPhase _
  · exact growFile_inPhase

theorem freePage_inPhase (no : PageNo) : InPhase (freePage no) :=
  recordPreimageForHeader_inPhase.bind fun _ => (ensureLoaded_inPhase no).bind fun _ =>
    (journalForReuse_inPhase no).bind fun _ => .get_bind fun _ => (Preserves.unwrap _).bind fun _ =>
      evictIfNeeded_inPhase.bind fun _ => (insertDirty_inPhase _ _).bind fun _ =>
        .modify_bind (fun _ => rfl) fun _ => flushHeader_inPhase

theorem catalogRoot_inPhase : InPhase catalogRoot := .get_bind fun _ => .pure _

theorem setCatalogRoot_inPhase (root : PageNo) : InPhase (setCatalogRoot root) :=
  recordPreimageForHeader_inPhase.bind fun _ => .modify_bind (fun _ => rfl) fun _ =>
    flushHeader_inPhase

theorem flushPages_inPhase (pages : List PageNo) : InPhase (flushPages pages) := by
  induction pages with
  | nil => exact .pure ()
  | cons no rest ih =>
      exact (writePageToDisk_inPhase no).bind fun _ => .modify_bind (fun _ => rfl) fun _ => ih

theorem flush_inPhase : InPhase flush :=
  .get_bind fun _ => (onFile_inPhase _).bind fun _ => (flushPages_inPhase _).bind fun _ =>
    onFile_inPhase _

/-! ## Rolling back -/

/-- The journal can be played back, and the file starts with a header then. -/
def canRollBack (p : Pager) : Bool :=
  match recoverIfNeeded p.file with
  | (.ok _, os) =>
      match os.disk.db[0]?.map Header.readFrom with
      | some (.ok _) => true
      | _ => false
  | _ => false

theorem rollbackTransaction_closes {p : Pager} (h : p.canRollBack = true) :
    ∃ p', rollbackTransaction p = (.ok (), p') ∧ p'.inTransaction = false := by
  obtain ⟨os, page, header, hrecover, hpage, hheader⟩ : ∃ os page header,
      recoverIfNeeded p.file = (.ok (), os) ∧ os.disk.db[0]? = some page ∧
        Header.readFrom page = .ok header := by
    unfold canRollBack at h
    split at h
    · next os hrecover =>
        split at h
        · next header hheader =>
            obtain ⟨page, hpage, hread⟩ := Option.map_eq_some_iff.mp hheader
            exact ⟨os, page, header, hrecover, hpage, hread⟩
        · cases h
    · cases h
  cases hactive : p.inTransaction with
  | false => exact ⟨p, by simp [rollbackTransaction, Exec.bind_apply, hactive], hactive⟩
  | true =>
      have hzero : os.disk.db[(0 : PageNo).toNat]? = some page := hpage
      refine ⟨{ p with
        file := os, journal := none, cache := ∅, recency := [], dirty := ∅, header,
        journaledPages := ∅, inTransaction := false }, ?_, rfl⟩
      simp only [rollbackTransaction, Exec.bind_apply, Exec.get_apply, hactive, if_true,
        Exec.modify_apply, onFile, Exec.zoom, hrecover, readPageFromDisk, hzero, Exec.pure_apply,
        hheader]

/-- A rollback opens nothing. -/
theorem rollbackTransaction_opens_nothing {p : Pager} (h : p.inTransaction = false) :
    (rollbackTransaction p).2.inTransaction = false := by
  simp [rollbackTransaction, Exec.bind_apply, h]

end ChocoBase.Storage.Pager
