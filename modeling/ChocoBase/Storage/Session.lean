import ChocoBase.Storage.PagerSpec

/-!
# Sessions of pager operations

The operations a caller performs between the transaction calls, and the
specifications of those calls.  Callers reach pages only through page numbers
that were allocated or recorded, so page 0, the header's page, is never one of
them.
-/

namespace ChocoBase.Storage

open ChocoBase.Foundation
open Exec (Post)

inductive PagerOp where
  | getPage (no : PageNo)
  | getPageMut (no : PageNo) (write : Page → Option Page)
  | allocatePage
  | freePage (no : PageNo)
  | setCatalogRoot (root : PageNo)
  | evict
  | flush

inductive Response where
  | page (page : Page)
  | allocated (no : PageNo)
  | done

namespace PagerOp

def perform : PagerOp → Pager.Action Response
  | .getPage no => do
      let page ← Pager.getPage no
      return .page page
  | .getPageMut no write => do
      Pager.getPageMut no write
      return .done
  | .allocatePage => do
      let no ← Pager.allocatePage
      return .allocated no
  | .freePage no => do
      Pager.freePage no
      return .done
  | .setCatalogRoot root => do
      Pager.setCatalogRoot root
      return .done
  | .evict => do
      Pager.evictIfNeeded
      return .done
  | .flush => do
      Pager.flush
      return .done

/-- The operation does not borrow or free the header's page. -/
def AvoidsHeader : PagerOp → Prop
  | .getPage no => no ≠ 0
  | .getPageMut no _ => no ≠ 0
  | .freePage no => no ≠ 0
  | _ => True

end PagerOp

/-- Perform operations in turn; the caller goes on after an error. -/
def runOps : List PagerOp → Pager.Action Unit
  | [] => pure ()
  | op :: ops => do
      let _ ← (Exec.attempt op.perform : Pager.Action (Except StorageError Response))
      runOps ops

/-- What a pager means to its callers: the header fields and the bytes of each page. -/
structure Logical where
  header : Header
  page : PageNo → Option Page

def Pager.logical (p : Pager) : Logical where
  header := p.header
  page no := if no = 0 then none else p.content no

/-- Opening the files, with no refused request, gives a pager with this meaning. -/
def OpensTo (disk : Disk) (state : Logical) : Prop :=
  ∀ issued orders, ∃ p os,
    Pager.open { disk, faults := [], issued, orders } = (.ok p, os) ∧ p.logical = state

/-- The logical state is the file: nothing is waiting in the cache. -/
structure Pager.FileCurrent (p : Pager) : Prop where
  length : p.file.disk.db.length = p.header.pageCount.toNat
  header : p.file.disk.db[0]? = some p.header.toPage
  pages : ∀ no, p.content no = p.file.disk.db[no.toNat]?

/-- The meaning of a database file with a given header. -/
def fileLogical (db : List Page) (header : Header) : Logical where
  header
  page no := if no = 0 then none else db[no.toNat]?

namespace Pager

theorem FileCurrent.logical {p : Pager} (h : p.FileCurrent) :
    p.logical = fileLogical p.file.disk.db p.header := by
  simp only [Pager.logical, fileLogical, h.pages]

theorem FileCurrent.settled {p : Pager} (h : p.FileCurrent) (hcalm : p.file.faults = []) :
    p.Settled where
  calm := hcalm
  length := h.length
  header := by rw [h.pages, UInt32.toNat_zero, h.header]

section Keeping

variable {base : List Page} {start : Os} {active : Bool} {p : Pager}

theorem wp_perform (h : p.Guarded base start active) {op : PagerOp} (hop : op.AvoidsHeader) :
    Exec.wp op.perform (Post.always fun p' => Keeps base start active p p') p := by
  cases op with
  | getPage no =>
      refine Exec.wp_seq (wp_getPage h.coherent hop) ?_ ?_ (fun _ _ h => h.elim)
      · exact fun _ _ h' => h.keeps_steady h'.1
      · exact fun _ _ h' => h.keeps_steady h'.1
  | getPageMut no write =>
      exact Exec.wp_seq (wp_getPageMut h hop write) (fun _ _ h => h.1) (fun _ _ h => h.1)
        (fun _ _ h => h.1)
  | allocatePage =>
      exact Exec.wp_seq (wp_allocatePage h) (fun _ _ h => h.1) (fun _ _ h => h.1)
        (fun _ _ h => h.1)
  | freePage no =>
      exact Exec.wp_seq (wp_freePage h hop) (fun _ _ h => h.1) (fun _ _ h => h.1)
        (fun _ _ h => h.elim)
  | setCatalogRoot root =>
      exact Exec.wp_seq (wp_setCatalogRoot h root) (fun _ _ h => h.1) (fun _ _ h => h.1)
        (fun _ _ h => h.elim)
  | evict =>
      exact Exec.wp_seq (wp_evictIfNeeded h.coherent) (fun _ _ h' => h.keeps_steady h'.1)
        (fun _ _ h' => h.keeps_steady h'.1) (fun _ _ h => h.elim)
  | flush =>
      exact Exec.wp_seq (wp_flush h.coherent) (fun _ _ h' => h.keeps_steady h'.1)
        (fun _ _ h' => h.keeps_steady h'.1) (fun _ _ h => h.elim)

/-- Every run of operations keeps the pager guarded, also when some of them fail. -/
theorem wp_runOps (h : p.Guarded base start active) {ops : List PagerOp}
    (hops : ∀ op ∈ ops, op.AvoidsHeader) :
    Exec.wp (runOps ops) (Post.always fun p' => Keeps base start active p p') p := by
  induction ops generalizing p with
  | nil => exact ⟨h, id⟩
  | cons op ops ih =>
      rw [List.forall_mem_cons] at hops
      have hnext (p' : Pager) (h' : Keeps base start active p p') :
          Exec.wp (runOps ops) (Post.always fun p'' => Keeps base start active p p'') p' :=
        Exec.wp_mono (ih h'.guarded hops.2) (fun _ _ h => h'.trans h) (fun _ _ h => h'.trans h)
          (fun _ _ h => h'.trans h)
      rw [runOps, Exec.wp_bind, Exec.wp_attempt]
      exact Exec.wp_mono (wp_perform h hops.1) (fun _ => hnext) (fun _ => hnext) (fun _ _ h => h)

end Keeping

/-! ## BEGIN -/

/-- The pager after a successful `BEGIN`. -/
structure Began (p p' : Pager) : Prop where
  db : p'.file.disk.db = p.file.disk.db
  journal : p'.file.disk.journal = some (JournalHeader.new p.header.pageCount).bytes
  calm : p.file.faults = [] → p'.file.faults = []
  pager : p' = { p with
    file := p'.file
    origPageCount := p.header.pageCount
    journal := some { header := JournalHeader.new p.header.pageCount }
    journaledPages := ∅
    inTransaction := true }

theorem wp_beginTransaction {p : Pager} (hidle : p.inTransaction = false) :
    Exec.wp beginTransaction
      ⟨fun _ p' => Began p p',
        fun _ p' => p.file.faults ≠ [] ∧ ∃ file : Os, file.disk.db = p.file.disk.db ∧
          p' = { p with file, origPageCount := p.header.pageCount },
        fun _ _ => False⟩ p := by
  simp only [beginTransaction, Exec.wp_bind, Exec.wp_get, Post.withOk_ok, hidle,
    Bool.false_eq_true, if_false, Exec.wp_modify, wp_onFile, Journal.create,
    JournalHeader.writeTo]
  refine Os.wp_request (fun os₁ h₁ => ?_) (fun os₁ h₁ hfaults => ⟨hfaults, os₁, ?_, rfl⟩)
  · refine Os.wp_request (fun os₂ h₂ => ?_) (fun os₂ h₂ hfaults => ⟨fun hcalm =>
      hfaults (h₁.calm hcalm), os₂, ?_, rfl⟩)
    · refine Os.wp_request (fun os₃ h₃ => ⟨?_, ?_, fun hcalm => h₃.calm (h₂.calm (h₁.calm hcalm)),
        rfl⟩) (fun os₃ h₃ hfaults => ⟨fun hcalm => hfaults (h₂.calm (h₁.calm hcalm)), os₃, ?_,
        rfl⟩)
      · simp [h₃.disk, h₂.disk, h₁.disk, Disk.apply]
      · simp [h₃.disk, h₂.disk, h₁.disk, Disk.apply]
      · simp [h₃.disk, h₂.disk, h₁.disk, Disk.apply]
    · simp [h₂.disk, h₁.disk, Disk.apply]
  · simp [h₁.disk]

namespace Began

variable {base : List Page} {p p' : Pager}

theorem coherent (h : Began p p') (hp : p.Coherent) : p'.Coherent := by
  rw [h.pager]
  exact { hp with
    clean := by simpa [h.db] using hp.clean
    cached_lt := by simpa [h.db] using hp.cached_lt
    length_le := by simpa [h.db] using hp.length_le
    file_pos := by simpa [h.db] using hp.file_pos }

theorem content (h : Began p p') : p'.content = p.content := by
  rw [h.pager]
  funext no
  simp [Pager.content, h.db]

theorem header (h : Began p p') : p'.header = p.header := by
  rw [h.pager]

theorem logical (h : Began p p') : p'.logical = p.logical := by
  simp only [Pager.logical, h.content, h.header]

theorem settled (h : Began p p') (hp : p.Settled) : p'.Settled where
  calm := h.calm hp.calm
  length := by rw [h.db, hp.length, h.header]
  header := by rw [h.content, hp.header, h.header]

theorem holds (h : Began p p') (hbase : base.length = p.header.pageCount.toNat) :
    JournalHolds base [] [] p'.file.disk :=
  ⟨⟨JournalHeader.new p.header.pageCount, hbase.symm, by simp [h.journal]⟩,
    by simp [journalRecordSize]⟩

/-- A transaction starts with every page of the base as it is, and none recorded. -/
theorem guarded (h : Began p p') (hp : p.Coherent)
    (hlength : base.length = p.header.pageCount.toNat)
    (hheader : base[0]? = some p.header.toPage)
    (hpages : ∀ no : PageNo, no.toNat < base.length → p.content no = base[no.toNat]?) :
    p'.Guarded base p'.file true where
  coherent := h.coherent hp
  state := by rw [h.pager]
  quiet := by simp
  guard _ := by
    refine ⟨⟨_, by rw [h.pager], by rw [h.pager]; rfl⟩, [], ?_⟩
    exact {
      base_length := by rw [h.pager, hlength]
      nonempty := (List.getElem?_eq_some_iff.mp hheader).1
      grown := by rw [h.pager]
      journaled := by rw [h.pager]; simp
      recorded := by simp
      kept := fun no hlt _ => by rw [h.content, hpages no hlt]
      header := fun _ => by rw [hheader, h.header]
      trace := ⟨[], .refl _, .nil⟩ }

end Began

/-! ## COMMIT -/

/-- The pager after a successful `COMMIT` of a transaction that began on `start`. -/
structure Committed (base : List Page) (start : Os) (p p' : Pager) : Prop where
  coherent : p'.Coherent
  idle : p'.inTransaction = false
  header : p'.header = p.header
  content : p'.content = p.content
  dirty : p'.dirty = ∅
  length : p'.file.disk.db.length = p.file.disk.db.length
  journal : p'.file.disk.journal = none
  calm : p.file.faults = [] → p'.file.faults = []
  trace : ∃ ops recs, start.Issues p'.file (ops ++ [.removeJournal]) ∧ LogSteps base [] ops recs

/-- The pager after a `COMMIT` that failed: the handle is gone, the journal file is not. -/
structure CommitFailed (base : List Page) (start : Os) (p p' : Pager) : Prop where
  faults : p.file.faults ≠ []
  active : p'.inTransaction = true
  handle : p'.journal = none
  trace : ∃ ops recs, start.Issues p'.file ops ∧ LogSteps base [] ops recs

theorem wp_commitTransaction {base : List Page} {start : Os} {p : Pager}
    (h : p.Guarded base start true) (hstart : JournalHolds base [] [] start.disk) :
    Exec.wp commitTransaction
      ⟨fun _ p' => Committed base start p p', fun _ p' => CommitFailed base start p p',
        fun _ _ => False⟩ p := by
  obtain ⟨⟨journal, hjournal, horig⟩, recs, htxn⟩ := h.guard rfl
  obtain ⟨ops, hissues, hops⟩ := htxn.trace
  have hheader : journal.header.origPageCount.toNat = base.length := by
    rw [horig, htxn.base_length]
  simp only [commitTransaction, Exec.wp_bind, Exec.wp_get, Post.withOk_ok, h.state, if_true,
    hjournal, Exec.wp_modify, wp_onFile, Journal.sync, JournalHeader.writeTo]
  refine Os.wp_request (fun os₁ h₁ => ?_) (fun os₁ h₁ hfaults => ⟨hfaults, rfl, rfl, ops, recs,
    by simpa using hissues.trans h₁, hops⟩)
  have hissues₁ := hissues.trans h₁
  have hops₁ := hops.append (.single (.header hheader))
  refine Os.wp_request (fun os₂ h₂ => ?_) (fun os₂ h₂ hfaults => ⟨fun hcalm =>
    hfaults (h₁.calm hcalm), rfl, rfl, _, recs, by simpa using hissues₁.trans h₂, hops₁⟩)
  have hissues₂ := hissues₁.trans h₂
  have hops₂ := hops₁.append (.single .syncJournal)
  have hdb₂ : os₂.disk.db = p.file.disk.db := by simp [h₂.disk, h₁.disk, Disk.apply]
  have hcalm₂ (hcalm : p.file.faults = []) : os₂.faults = [] := h₂.calm (h₁.calm hcalm)
  let p₂ : Pager := { p with file := os₂, journal := none, inTransaction := true }
  have hj₂ : Journals p p₂ :=
    ⟨rfl, rfl, rfl, rfl, rfl, h.state.symm, rfl, Finset.Subset.refl _, hdb₂, hcalm₂⟩
  have htxn₂ : p₂.Txn base start recs := htxn.update (h₁.trans h₂)
    ((LogSteps.single (.header hheader)).append (.single .syncJournal)) rfl rfl le_rfl
    (fun _ => rfl) (fun no _ _ => hj₂.content no)
  -- the flush writes back only what may be overwritten
  refine Exec.wp_mono (x := flush) (wp_flush (hj₂.coherent h.coherent)) ?_ ?_ (fun _ _ h => h)
  · rintro - p₃ ⟨hs, hdirty⟩
    obtain ⟨ops₃, hissues₃, hops₃⟩ := (htxn₂.steady hs).trace
    have hsome : p₃.file.disk.journal.isSome := by
      obtain ⟨header, -, hbytes⟩ := (hstart.steps hops₃).bytes
      rw [hissues₃.disk, hbytes]
      rfl
    have hcalm₃ (hcalm : p.file.faults = []) : p₃.file.faults = [] := hs.calm (hcalm₂ hcalm)
    simp only [Journal.closeAndDelete, Exec.wp_bind, Exec.wp_get, Post.withOk_ok, hsome, if_true,
      Post.withOk_error, Post.withOk_stop]
    refine Os.wp_request (fun os₄ h₄ => ?_) (fun os₄ h₄ hfaults => ⟨fun hcalm =>
      hfaults (hcalm₃ hcalm), hs.inTransaction, hs.journal, ops₃, recs,
      by simpa using hissues₃.trans h₄, hops₃⟩)
    have hdb₄ : os₄.disk.db = p₃.file.disk.db := by simp [h₄.disk, Disk.apply]
    have hj₄ : Journals p₃ { p₃ with file := os₄ } :=
      ⟨rfl, rfl, rfl, rfl, rfl, rfl, rfl, Finset.Subset.refl _, hdb₄, h₄.calm⟩
    refine ⟨{ hj₄.coherent hs.coherent with }, rfl, hs.header, ?_, hdirty, ?_, ?_,
      fun hcalm => h₄.calm (hcalm₃ hcalm), ops₃, recs, hissues₃.trans h₄, hops₃⟩
    · exact funext fun no => (hj₄.content no).trans ((hs.content no).trans (hj₂.content no))
    · rw [hdb₄, hs.length, hdb₂]
    · rw [h₄.disk]
      rfl
  · rintro - p₃ ⟨hs, hfaults⟩
    obtain ⟨ops₃, hissues₃, hops₃⟩ := (htxn₂.steady hs).trace
    exact ⟨fun hcalm => hfaults (hcalm₂ hcalm), hs.inTransaction, hs.journal, ops₃, recs,
      hissues₃, hops₃⟩

/-! ## ROLLBACK and opening -/

/-- A pager with nothing cached, outside of a transaction. -/
structure Empty (p : Pager) : Prop where
  cache : p.cache = ∅
  recency : p.recency = []
  dirty : p.dirty = ∅
  idle : p.inTransaction = false

namespace Empty

variable {p : Pager}

theorem content (h : p.Empty) (no : PageNo) : p.content no = p.file.disk.db[no.toNat]? :=
  content_of_not_mem (by simp [h.cache])

theorem logical (h : p.Empty) : p.logical = fileLogical p.file.disk.db p.header := by
  simp only [Pager.logical, fileLogical, h.content]

theorem coherent (h : p.Empty) (hlength : p.file.disk.db.length ≤ p.header.pageCount.toNat)
    (hpos : 0 < p.file.disk.db.length) : p.Coherent where
  recency_nodup := by simp [h.recency]
  mem_recency := by simp [h.recency, h.cache]
  dirty_cached := by simp [h.dirty]
  clean := by simp [h.cache]
  header_uncached := by simp [h.cache]
  cached_lt := by simp [h.cache]
  length_le := hlength
  file_pos := hpos

end Empty

theorem wp_rollbackTransaction {p : Pager} (hactive : p.inTransaction = true) {header : Header}
    {R E : Os → Prop}
    (hrecover : Exec.wp recoverIfNeeded
      ⟨fun _ os => os.disk.db[0]? = some header.toPage ∧ R os, fun _ os => E os,
        fun _ _ => False⟩ p.file) :
    Exec.wp rollbackTransaction
      ⟨fun _ p' => p'.Empty ∧ p'.header = header ∧ R p'.file,
        fun _ p' => p'.inTransaction = true ∧ p'.journal = none ∧ E p'.file,
        fun _ _ => False⟩ p := by
  simp only [rollbackTransaction, Exec.wp_bind, Exec.wp_get, Post.withOk_ok, hactive, if_true,
    Exec.wp_modify, wp_onFile]
  refine Exec.wp_mono hrecover ?_ (fun _ os h => ⟨rfl, rfl, h⟩) (fun _ _ h => h)
  rintro - os ⟨hheader, hR⟩
  have hzero : os.disk.db[(0 : PageNo).toNat]? = some header.toPage := hheader
  simp only [readPageFromDisk, Exec.wp_bind, Exec.wp_get, Post.withOk_ok, hzero, Exec.wp_pure,
    Header.readFrom_toPage, Exec.wp_modify]
  exact ⟨⟨rfl, rfl, rfl, rfl⟩, trivial, hR⟩

theorem wp_open {os : Os} {header : Header} {R : Os → Prop}
    (hrecover : Exec.wp recoverIfNeeded
      ⟨fun _ os => os.disk.db[0]? = some header.toPage ∧ R os, fun _ _ => False,
        fun _ _ => False⟩ os) :
    Exec.wp Pager.open
      ⟨fun p os' => p.Empty ∧ p.header = header ∧ p.file = os' ∧ R os', fun _ _ => False,
        fun _ _ => False⟩ os := by
  simp only [Pager.open, Exec.wp_bind]
  refine Exec.wp_mono hrecover ?_ (fun _ _ h => h) (fun _ _ h => h)
  rintro - os' ⟨hheader, hR⟩
  simp only [Exec.wp_get, Post.withOk_ok, hheader, Header.readFrom_toPage, Exec.wp_pure]
  exact ⟨⟨rfl, rfl, rfl, rfl⟩, rfl, rfl, hR⟩

end Pager

/-- The pager of a database file that was just created. -/
def Pager.created : Pager :=
  Pager.fresh (Os.ofDisk { db := [Header.new.toPage], journal := none }) Header.new 1

namespace Pager

theorem create_eq : (Pager.create (Os.ofDisk { db := [], journal := none })).1 =
    .ok { created with file := (Pager.create (Os.ofDisk { db := [], journal := none })).2 } :=
  rfl

theorem created_empty : created.Empty := ⟨rfl, rfl, rfl, rfl⟩

theorem created_coherent : created.Coherent :=
  created_empty.coherent (by simp [created, fresh, Os.ofDisk, Header.new])
    (by simp [created, fresh, Os.ofDisk])

theorem created_fileCurrent : created.FileCurrent where
  length := rfl
  header := rfl
  pages := created_empty.content

end Pager

/-- A disk that is restorable to a base opens to what the base means. -/
theorem Restorable.opensTo {base : List Page} {disk : Disk} {header : Header}
    (h : Restorable base disk) (hheader : base[0]? = some header.toPage) :
    OpensTo disk (fileLogical base header) := by
  intro issued orders
  have hopen : Exec.wp Pager.open
      ⟨fun p os => p.Empty ∧ p.header = header ∧ p.file = os ∧ os.disk.db = base,
        fun _ _ => False, fun _ _ => False⟩ { disk, faults := [], issued, orders } :=
    Pager.wp_open <| Exec.wp_mono (recoverIfNeeded_spec h)
      (fun _ os h => ⟨by rw [h.1, hheader], h.1⟩) (fun _ _ h => h.1 rfl) (fun _ _ h => h)
  obtain ⟨p, os, hrun, hempty, rfl, rfl, hdb⟩ := Exec.exists_of_wp hopen
  exact ⟨p, p.file, hrun, by rw [hempty.logical, hdb]⟩

end ChocoBase.Storage
