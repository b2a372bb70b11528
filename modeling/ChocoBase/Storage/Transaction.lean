import ChocoBase.Storage.Cache

/-!
# What a transaction keeps

`Txn base start recs p` says that the pager `p` is in a transaction that began on
the operating-system state `start`, that the journal holds the pre-images `recs`
of pages of `base`, and that every other page of `base` still reads as it did.
`Guarded` says the same of a pager that may or may not be in a transaction.  It
survives every pager operation, also one that fails.
-/

namespace ChocoBase.Storage.Pager

open ChocoBase.Foundation
open Exec (Post)
open UndoLog (logged)

structure Txn (base : List Page) (start : Os) (recs : List Preimage) (p : Pager) : Prop where
  base_length : base.length = p.origPageCount.toNat
  nonempty : 0 < base.length
  grown : p.origPageCount.toNat ≤ p.header.pageCount.toNat
  journaled : ∀ no : PageNo, no.toNat < base.length →
    (no ∈ p.journaledPages ↔ no ∈ recs.map Prod.fst)
  recorded : ∀ r ∈ recs, base[r.1.toNat]? = some r.2
  kept : ∀ no : PageNo, no.toNat < base.length → no ∉ recs.map Prod.fst →
    p.content no = base[no.toNat]?
  header : (0 : PageNo) ∉ recs.map Prod.fst → base[0]? = some p.header.toPage
  trace : ∃ ops, start.Issues p.file ops ∧ LogSteps base [] ops recs

/-- The pager holds the handle of a journal for its transaction. -/
def HasJournal (p : Pager) : Prop :=
  ∃ journal, p.journal = some journal ∧ journal.header.origPageCount = p.origPageCount

structure Guarded (base : List Page) (start : Os) (active : Bool) (p : Pager) : Prop where
  coherent : p.Coherent
  state : p.inTransaction = active
  quiet : active = false → p.file.disk.journal = start.disk.journal
  guard : active = true → p.HasJournal ∧ ∃ recs, p.Txn base start recs

/-- `p'` is `p` after images were appended to the journal. -/
structure Journals (p p' : Pager) : Prop where
  cache : p'.cache = p.cache
  recency : p'.recency = p.recency
  dirty : p'.dirty = p.dirty
  header : p'.header = p.header
  capacity : p'.capacity = p.capacity
  inTransaction : p'.inTransaction = p.inTransaction
  origPageCount : p'.origPageCount = p.origPageCount
  journaledPages : p.journaledPages ⊆ p'.journaledPages
  db : p'.file.disk.db = p.file.disk.db
  calm : p.file.faults = [] → p'.file.faults = []

namespace Journals

variable {p p' p'' : Pager}

theorem refl (p : Pager) : Journals p p :=
  ⟨rfl, rfl, rfl, rfl, rfl, rfl, rfl, Finset.Subset.refl _, rfl, id⟩

theorem content (h : Journals p p') (no : PageNo) : p'.content no = p.content no := by
  simp [Pager.content, h.cache, h.db]

theorem coherent (h : Journals p p') (hp : p.Coherent) : p'.Coherent where
  recency_nodup := h.recency ▸ hp.recency_nodup
  mem_recency := by simpa [h.recency, h.cache] using hp.mem_recency
  dirty_cached := by simpa [h.dirty, h.cache] using hp.dirty_cached
  clean := by simpa [h.cache, h.dirty, h.db] using hp.clean
  header_uncached := h.cache ▸ hp.header_uncached
  cached_lt := by simpa [h.cache, h.db] using hp.cached_lt
  length_le := by simpa [h.db, h.header] using hp.length_le
  file_pos := h.db ▸ hp.file_pos

end Journals

namespace Txn

variable {base : List Page} {start : Os} {recs : List Preimage} {p p' : Pager}

/-- A page with no image in the journal still has its old content in the base. -/
theorem image (h : p.Txn base start recs) {no : PageNo} {page : Page}
    (hno : no.toNat < base.length) (hfresh : no ∉ p.journaledPages)
    (hpage : p.content no = some page) : base[no.toNat]? = some page := by
  rw [← hpage, h.kept no hno fun hmem => hfresh ((h.journaled no hno).mpr hmem)]

/-- A change that touches only recorded pages and pages beyond the base. -/
theorem update (h : p.Txn base start recs) {ops : List DiskOp}
    (hissues : p.file.Issues p'.file ops) (hops : LogSteps base recs ops recs)
    (horig : p'.origPageCount = p.origPageCount)
    (hjournaled : p'.journaledPages = p.journaledPages)
    (hcount : p.header.pageCount.toNat ≤ p'.header.pageCount.toNat)
    (hheader : (0 : PageNo) ∉ recs.map Prod.fst → p'.header = p.header)
    (hcontent : ∀ no : PageNo, no.toNat < base.length → no ∉ recs.map Prod.fst →
      p'.content no = p.content no) : p'.Txn base start recs where
  base_length := horig ▸ h.base_length
  nonempty := h.nonempty
  grown := horig ▸ h.grown.trans hcount
  journaled := hjournaled ▸ h.journaled
  recorded := h.recorded
  kept no hno hmem := (hcontent no hno hmem).trans (h.kept no hno hmem)
  header hmem := hheader hmem ▸ h.header hmem
  trace := by
    obtain ⟨ops', hissues', hops'⟩ := h.trace
    exact ⟨ops' ++ ops, hissues'.trans hissues, hops'.append hops⟩

theorem logSteps_of_writesBack (h : p.Txn base start recs) {ops : List DiskOp}
    (hops : ∀ op ∈ ops, WritesBack p op) : LogSteps base recs ops recs := by
  induction ops with
  | nil => exact .nil
  | cons op ops ih =>
      rw [List.forall_mem_cons] at hops
      refine .cons ?_ (ih hops.2)
      cases hops.1 with
      | @page no page hdirty hcontent =>
          refine .overwrite fun hlt => ?_
          by_cases hmem : no ∈ recs.map Prod.fst
          · exact .inl (mem_logged_undoLog.mpr hmem)
          · exact .inr (by rw [← h.kept no hlt hmem, hcontent])
      | sync => exact .syncDb

theorem steady (h : p.Txn base start recs) (hsteady : Steady p p') :
    p'.Txn base start recs := by
  obtain ⟨ops, hissues, hops⟩ := hsteady.trace
  exact h.update hissues (h.logSteps_of_writesBack hops) hsteady.origPageCount
    hsteady.journaledPages (by rw [hsteady.header]) (fun _ => hsteady.header)
    (fun no _ _ => hsteady.content no)

end Txn

namespace Guarded

variable {base : List Page} {start : Os} {active : Bool} {p p' : Pager}

theorem steady (h : p.Guarded base start active) (hsteady : Steady p p') :
    p'.Guarded base start active where
  coherent := hsteady.coherent
  state := hsteady.inTransaction.trans h.state
  quiet hactive := hsteady.journal_file.trans (h.quiet hactive)
  guard hactive := by
    obtain ⟨⟨journal, hjournal, horig⟩, recs, htxn⟩ := h.guard hactive
    refine ⟨⟨journal, hsteady.journal.trans hjournal, ?_⟩, recs, htxn.steady hsteady⟩
    rw [horig, hsteady.origPageCount]

end Guarded

/-! ## Journaling -/

/-- Appending an image fails only if the system refuses it, and then changes nothing. -/
theorem wp_journalImage {p : Pager} {no : PageNo} {page : Page}
    {Q : Post Pager StorageError Unit} (hnone : p.journal = none → Q.ok () p)
    (hok : ∀ (journal : Journal) (file : Os), p.journal = some journal →
      p.file.Issues file [.appendJournal (recordBytes no page)] →
      Q.ok () { p with
        file
        journal := some { journal with header :=
          { journal.header with recordCount := journal.header.recordCount + 1 } } })
    (herror : ∀ e file, p.file.Issues file [] → p.file.faults ≠ [] →
      Q.error e { p with file }) : Exec.wp (journalImage no page) Q p := by
  simp only [journalImage, Exec.wp_bind, Exec.wp_get, Post.withOk_ok]
  rcases hjournal : p.journal with _ | journal
  · exact hnone hjournal
  · simp only [Exec.wp_bind, wp_onFile, Journal.appendPage]
    exact Os.wp_request (fun file h => hok journal file hjournal h)
      (fun file h hfaults => herror _ file h hfaults)

theorem Journals.of_issues {p : Pager} {file : Os} {bytes : Bytes} {journal : Option Journal}
    {journaledPages : Finset PageNo} (h : p.file.Issues file [.appendJournal bytes])
    (hsub : p.journaledPages ⊆ journaledPages) :
    Journals p { p with file, journal, journaledPages } := by
  refine { refl p with journaledPages := hsub, db := ?_, calm := h.calm }
  simp [h.disk, Disk.apply]

theorem Journals.of_mark {p : Pager} {no : PageNo} :
    Journals p { p with journaledPages := insert no p.journaledPages } :=
  { refl p with journaledPages := Finset.subset_insert _ _ }

/-- The pager after the image of a page was recorded, or found not to need recording. -/
structure Recorded (base : List Page) (start : Os) (active : Bool) (no : PageNo)
    (p p' : Pager) : Prop where
  guarded : p'.Guarded base start active
  journals : Journals p p'
  journaled : active = true → no.toNat < base.length → no ∈ p'.journaledPages

namespace Guarded

variable {base : List Page} {start : Os} {active : Bool} {p p' : Pager}

theorem of_refused (h : p.Guarded base start active) {file : Os}
    (hissues : p.file.Issues file []) : { p with file }.Guarded base start active :=
  h.steady (.of_refused h.coherent hissues)

/-- Mark a page whose image is not needed. -/
theorem mark (h : p.Guarded base start active) {no : PageNo}
    (hno : active = true → no.toNat < base.length → no ∈ p.journaledPages) :
    { p with journaledPages := insert no p.journaledPages }.Guarded base start active where
  coherent := { h.coherent with }
  state := h.state
  quiet := h.quiet
  guard hactive := by
    obtain ⟨hjournal, recs, htxn⟩ := h.guard hactive
    refine ⟨hjournal, recs, { htxn with journaled := fun no' hlt => ?_ }⟩
    rw [← htxn.journaled no' hlt, Finset.mem_insert]
    refine ⟨fun hmem => ?_, .inr⟩
    rcases hmem with rfl | hmem
    · exact hno hactive hlt
    · exact hmem

/-- Append the image of a page of the base and mark the page. -/
theorem record (h : p.Guarded base start true) {no : PageNo} {page : Page}
    {journal : Journal} {file : Os} {recordCount : UInt32}
    (hjournal : p.journal = some journal) (hpage : base[no.toNat]? = some page)
    (hissues : p.file.Issues file [.appendJournal (recordBytes no page)]) :
    { p with
      file
      journal := some { journal with header := { journal.header with recordCount } }
      journaledPages := insert no p.journaledPages }.Guarded base start true where
  coherent := (Journals.of_issues hissues (Finset.subset_insert _ _)).coherent h.coherent
  state := h.state
  quiet := by simp
  guard hactive := by
    obtain ⟨⟨journal', hjournal', horig⟩, recs, htxn⟩ := h.guard hactive
    obtain rfl := Option.some.inj (hjournal.symm.trans hjournal')
    refine ⟨⟨_, rfl, horig⟩, recs ++ [(no, page)], ?_⟩
    have hjournals : Journals p { p with file } := .of_issues hissues (Finset.Subset.refl _)
    refine { htxn with journaled := ?_, recorded := ?_, kept := ?_, header := ?_, trace := ?_ }
    · intro no' hlt
      rw [Finset.mem_insert, htxn.journaled no' hlt]
      simp [or_comm]
    · intro r hr
      rcases List.mem_append.mp hr with hr | hr
      · exact htxn.recorded r hr
      · obtain rfl := List.mem_singleton.mp hr
        exact hpage
    · intro no' hlt hmem
      rw [List.map_append, List.mem_append, not_or] at hmem
      exact (hjournals.content no').trans (htxn.kept no' hlt hmem.1)
    · intro hmem
      rw [List.map_append, List.mem_append, not_or] at hmem
      exact htxn.header hmem.1
    · obtain ⟨ops, hissues', hops⟩ := htxn.trace
      exact ⟨ops ++ [_], hissues'.trans hissues, hops.append (
        .single (.record hpage))⟩

theorem image (h : p.Guarded base start true) {no : PageNo} {page : Page}
    (hno : no.toNat < base.length) (hfresh : no ∉ p.journaledPages)
    (hpage : p.content no = some page) : base[no.toNat]? = some page := by
  obtain ⟨-, recs, htxn⟩ := h.guard rfl
  exact htxn.image hno hfresh hpage

end Guarded

/-- A recording step; it fails only if the system refuses the append. -/
def recordedPost (base : List Page) (start : Os) (active : Bool) (no : PageNo) (p : Pager) :
    Post Pager StorageError Unit where
  ok _ p' := Recorded base start active no p p'
  error _ p' := p'.Guarded base start active ∧ p.file.faults ≠ []
  stop _ _ := False

section Recording

variable {base : List Page} {start : Os} {active : Bool} {p : Pager}

/-- Journal the image of a page of the base and mark the page. -/
theorem wp_journalImage_mark (h : p.Guarded base start true) {no : PageNo} {page : Page}
    (hpage : base[no.toNat]? = some page) {Q : Post Pager StorageError Unit}
    (hok : ∀ p', Recorded base start true no p p' → Q.ok () p')
    (herror : ∀ e p', p'.Guarded base start true → p.file.faults ≠ [] → Q.error e p') :
    Exec.wp (journalImage no page) (Q.withOk fun _ p' => Exec.wp (markJournaled no) Q p') p := by
  refine wp_journalImage (fun hnone => ?_) (fun journal file hjournal hissues => ?_)
    (fun _ file hissues hfaults => herror _ _ (h.of_refused hissues) hfaults)
  · obtain ⟨⟨journal, hjournal, -⟩, -⟩ := h.guard rfl
    simp [hnone] at hjournal
  · exact hok _ ⟨h.record hjournal hpage hissues, .of_issues hissues (Finset.subset_insert _ _),
      by simp⟩

theorem wp_recordPreimageForHeader (h : p.Guarded base start active) :
    Exec.wp recordPreimageForHeader (recordedPost base start active 0 p) p := by
  simp only [recordPreimageForHeader, Exec.wp_bind, Exec.wp_get, Post.withOk_ok]
  split
  next hcond =>
    obtain rfl : active = true := h.state.symm.trans hcond.1
    obtain ⟨-, recs, htxn⟩ := h.guard rfl
    have hmem : (0 : PageNo) ∉ recs.map Prod.fst := fun hmem =>
      hcond.2 ((htxn.journaled 0 htxn.nonempty).mpr hmem)
    have himage : base[(0 : PageNo).toNat]? = some p.header.toPage := htxn.header hmem
    simp only [Exec.wp_bind]
    exact wp_journalImage_mark h himage (fun _ h => h) (fun _ _ h hf => ⟨h, hf⟩)
  next hcond =>
    refine ⟨h, .refl p, fun hactive _ => ?_⟩
    by_contra hmem
    exact hcond ⟨h.state.trans hactive, hmem⟩

/-- The pages below `origPageCount` are those of the base. -/
theorem Guarded.lt_orig_iff (h : p.Guarded base start true) (no : PageNo) :
    no < p.origPageCount ↔ no.toNat < base.length := by
  obtain ⟨-, recs, htxn⟩ := h.guard rfl
  rw [htxn.base_length, UInt32.lt_iff_toNat_lt]

theorem wp_journalCached_mark (h : p.Guarded base start true) {no : PageNo} {page : Page}
    (hpage : p.cache.lookup no = some page) (hfresh : no ∉ p.journaledPages)
    (hlt : no < p.origPageCount) {Q : Post Pager StorageError Unit}
    (hok : ∀ p', Recorded base start true no p p' → Q.ok () p')
    (herror : ∀ e p', p'.Guarded base start true → p.file.faults ≠ [] → Q.error e p') :
    Exec.wp (journalCached no) (Q.withOk fun _ p' => Exec.wp (markJournaled no) Q p') p := by
  simp only [journalCached, Exec.wp_bind, Exec.wp_get, Post.withOk_ok, hpage, Exec.unwrap,
    Exec.wp_pure]
  exact wp_journalImage_mark h
    (h.image ((h.lt_orig_iff no).mp hlt) hfresh (content_of_lookup hpage)) hok herror

theorem wp_journalForReuse (h : p.Guarded base start active) {no : PageNo} {page : Page}
    (hpage : p.cache.lookup no = some page) :
    Exec.wp (journalForReuse no) (recordedPost base start active no p) p := by
  simp only [journalForReuse, Exec.wp_bind, Exec.wp_get, Post.withOk_ok]
  split
  next hcond =>
    obtain rfl : active = true := h.state.symm.trans hcond.1
    simp only [Exec.wp_bind]
    exact wp_journalCached_mark h hpage hcond.2.1 hcond.2.2 (fun _ h => h)
      (fun _ _ h hf => ⟨h, hf⟩)
  next hcond =>
    refine ⟨h, .refl p, fun hactive hlt => ?_⟩
    subst hactive
    by_contra hmem
    exact hcond ⟨h.state, hmem, (h.lt_orig_iff no).mpr hlt⟩

theorem wp_journalForWrite (h : p.Guarded base start active) {no : PageNo} {page : Page}
    (hpage : p.cache.lookup no = some page) :
    Exec.wp (journalForWrite no) (recordedPost base start active no p) p := by
  simp only [journalForWrite, Exec.wp_bind, Exec.wp_get, Post.withOk_ok]
  split
  next hcond =>
    obtain rfl : active = true := h.state.symm.trans hcond.1
    split
    next hlt =>
      simp only [Exec.wp_bind]
      exact wp_journalCached_mark h hpage hcond.2 hlt (fun _ h => h) (fun _ _ h hf => ⟨h, hf⟩)
    next hlt =>
      have hbeyond : ¬no.toNat < base.length := fun h' => hlt ((h.lt_orig_iff no).mpr h')
      exact ⟨h.mark fun _ h' => absurd h' hbeyond, .of_mark, fun _ h' => absurd h' hbeyond⟩
  next hcond =>
    refine ⟨h, .refl p, fun hactive _ => ?_⟩
    by_contra hmem
    exact hcond ⟨h.state.trans hactive, hmem⟩

end Recording

end ChocoBase.Storage.Pager
