import ChocoBase.Storage.JournalBlind
import ChocoBase.Storage.RecordScan
import ChocoBase.Storage.Rollback

/-!
# Appends that fail halfway

An append may fail when a part of its record is in the journal.  Nobody cuts the part off:
the records of later operations come behind it, and recovery, which counts records from the
header on, does not find them.  The pages that they record are lost as far as they have
reached the file.
-/

namespace ChocoBase.Storage

open ChocoBase.Foundation
open UndoLog (logged)

namespace Pager

def withFaults (p : Pager) (faults : List Bool) : Pager :=
  { p with file := { p.file with faults } }

/-- More bytes at the end of the journal file. -/
def withTorn (p : Pager) (torn : Bytes) : Pager :=
  { p with file := { p.file with disk := p.file.disk.apply (.appendJournal torn) } }

end Pager

/--
The operation fails at a request that appends a record, of which `m` bytes reach the journal.
Afterwards nothing else fails.
-/
def FailsAppending (op : PagerOp) (m : Nat) (p p' : Pager) : Prop :=
  ∃ k no page reason failed,
    (p.issuedSince (op.perform p).2)[k]? = some (.appendJournal (recordBytes no page)) ∧
    op.perform (p.withFaults (List.replicate k false ++ [true])) = (.error reason, failed) ∧
    p' = (failed.withFaults []).withTorn ((recordBytes no page).take m)

/-- The old pages that the transaction recorded read as they did before. -/
def SameOld (p₀ r s : Pager) : Prop :=
  ∀ no ∈ r.journaledPages, no < r.origPageCount → s.content no = p₀.content no

/-- A rollback restores what the transaction recorded, and so does a crash. -/
structure Restored (p₀ r : Pager) : Prop where
  rollback : ∃ s, Pager.rollbackTransaction r = (.ok (), s) ∧ SameOld p₀ r s
  reopen : ∀ issued orders, ∃ s os,
    Pager.open { disk := r.file.disk, faults := [], issued, orders } = (.ok s, os) ∧
      SameOld p₀ r s

/-- The images that recovery finds from the torn record on. -/
def strayImages (p' r : Pager) (m : Nat) : List (Nat × Page) :=
  scanRecords ((r.file.disk.journal.getD []).drop ((p'.file.disk.journal.getD []).length - m))

/-! ## Recovery of a transaction -/

section Recovery

variable {r : Pager} {journal : JournalHeader} {rest : Bytes} {header : Header}

theorem rollback_content {s : Pager} (hactive : r.inTransaction = true)
    (hcalm : r.file.faults = []) (hjournal : r.file.disk.journal = some (journal.bytes ++ rest))
    (hrun : Pager.rollbackTransaction r = (.ok (), s)) (no : PageNo) :
    s.content no = (UndoLog.restore journal.origPageCount.toNat (scanRecords rest)
      r.file.disk.db)[no.toNat]? := by
  let db := UndoLog.restore journal.origPageCount.toNat (scanRecords rest) r.file.disk.db
  have hrollback : Exec.wp Pager.rollbackTransaction
      ⟨fun _ s => s.Empty ∧ s.file.disk.db = db, fun _ _ => True, fun _ _ => True⟩ r := by
    simp only [Pager.rollbackTransaction, Exec.wp_bind, Exec.wp_get, Exec.Post.withOk_ok, hactive,
      if_true, Exec.wp_modify, Pager.wp_onFile]
    refine Exec.wp_mono (recoverIfNeeded_scan hjournal hcalm) ?_ (fun _ _ _ => trivial)
      (fun _ _ _ => trivial)
    rintro - os ⟨hdisk, -⟩
    simp only [Pager.readPageFromDisk, Exec.wp_bind, Exec.wp_get, Exec.Post.withOk_ok]
    split
    · simp only [Exec.wp_pure, Exec.Post.withOk_ok]
      split
      · trivial
      · exact ⟨⟨rfl, rfl, rfl, rfl⟩, by rw [hdisk]⟩
    · trivial
  obtain ⟨hempty, hdb⟩ := Exec.wp_ok hrollback hrun
  rw [hempty.content, hdb]

theorem exists_rollback (hactive : r.inTransaction = true) (hcalm : r.file.faults = [])
    (hjournal : r.file.disk.journal = some (journal.bytes ++ rest))
    (hheader : (UndoLog.restore journal.origPageCount.toNat (scanRecords rest)
      r.file.disk.db)[0]? = some header.toPage) :
    ∃ s, Pager.rollbackTransaction r = (.ok (), s) := by
  have hrecover := Exec.wp_mono (recoverIfNeeded_scan hjournal hcalm)
    (R := ⟨fun _ os => os.disk.db[0]? = some header.toPage ∧ True, fun _ _ => False,
      fun _ _ => False⟩)
    (fun _ os h => ⟨by rw [h.1, hheader], trivial⟩) (fun _ _ h => h) (fun _ _ h => h)
  have hrollback := Exec.wp_mono (Pager.wp_rollbackTransaction hactive hrecover)
    (R := ⟨fun _ _ => True, fun _ _ => False, fun _ _ => False⟩) (fun _ _ _ => trivial)
    (fun _ _ h => h.2.2) (fun _ _ h => h)
  obtain ⟨_, s, hrun, -⟩ := Exec.exists_of_wp hrollback
  exact ⟨s, hrun⟩

variable {disk : Disk} {issued : List DiskOp} {orders : Nat → SetOrder}

theorem open_content {s : Pager} {os : Os} (hjournal : disk.journal = some (journal.bytes ++ rest))
    (hrun : Pager.open { disk, faults := [], issued, orders } = (.ok s, os)) (no : PageNo) :
    s.content no = (UndoLog.restore journal.origPageCount.toNat (scanRecords rest)
      disk.db)[no.toNat]? := by
  have hopen : Exec.wp Pager.open
      ⟨fun s _ => s.Empty ∧ s.file.disk.db =
        UndoLog.restore journal.origPageCount.toNat (scanRecords rest) disk.db,
        fun _ _ => True, fun _ _ => True⟩ { disk, faults := [], issued, orders } := by
    simp only [Pager.open, Exec.wp_bind]
    refine Exec.wp_mono (recoverIfNeeded_scan hjournal rfl) ?_ (fun _ _ _ => trivial)
      (fun _ _ _ => trivial)
    rintro - os ⟨hdisk, -⟩
    simp only [Exec.wp_get, Exec.Post.withOk_ok]
    split
    · trivial
    · split
      · trivial
      · exact ⟨⟨rfl, rfl, rfl, rfl⟩, by rw [Pager.fresh, hdisk]⟩
  obtain ⟨hempty, hdb⟩ := Exec.wp_ok hopen hrun
  rw [hempty.content, hdb]

theorem exists_open (hjournal : disk.journal = some (journal.bytes ++ rest))
    (hheader : (UndoLog.restore journal.origPageCount.toNat (scanRecords rest)
      disk.db)[0]? = some header.toPage) (issued : List DiskOp) (orders : Nat → SetOrder) :
    ∃ s os, Pager.open { disk, faults := [], issued, orders } = (.ok s, os) := by
  have hopen := @Pager.wp_open { disk, faults := [], issued, orders } _ (fun _ => True)
    (Exec.wp_mono (recoverIfNeeded_scan hjournal rfl)
      (fun _ os h => ⟨by rw [h.1, hheader], trivial⟩) (fun _ _ h => h) (fun _ _ h => h))
  obtain ⟨s, os, hrun, -⟩ := Exec.exists_of_wp hopen
  exact ⟨s, os, hrun⟩

end Recovery

/-! ## The run behind the failed append -/

theorem LogSteps.length_le {base : List Page} {recs recs' : List Preimage} {disk : Disk}
    {ops : List DiskOp} (hops : LogSteps base recs ops recs')
    (h : base.length ≤ disk.db.length) : base.length ≤ (disk.after ops).db.length := by
  induction hops generalizing disk with
  | nil => exact h
  | cons hstep _ ih =>
      refine ih ?_
      cases hstep with
      | record himage => exact h
      | overwrite hlogged =>
          simp only [Disk.apply, writeAt_length]
          omega
      | extend hlen => simpa [Disk.apply] using hlen
      | header horig => exact h
      | syncDb => exact h
      | syncJournal => exact h

section Guarded

variable {base : List Page} {start : Os} {p : Pager}

/-- Which requests will be refused does not matter to a transaction. -/
theorem Pager.Guarded.withFaults (h : p.Guarded base start true) (faults refusals : List Bool)
    (hcalm : refusals = [] → faults = []) :
    (p.withFaults faults).Guarded base { start with faults := refusals } true where
  coherent := { h.coherent with }
  state := h.state
  quiet := by simp
  guard _ := by
    obtain ⟨hjournal, recs, htxn⟩ := h.guard rfl
    obtain ⟨ops, hissues, hops⟩ := htxn.trace
    exact ⟨hjournal, recs, { htxn with
      trace := ⟨ops, ⟨hissues.issued, hissues.disk, hcalm⟩, hops⟩ }⟩

/-- What a transaction has recorded, and what of it the file has, if no request is refused. -/
structure Holding (base : List Page) (recs : List Preimage) (p : Pager) : Prop where
  calm : p.file.faults = []
  length : base.length ≤ p.file.disk.db.length
  journaled : ∀ no : PageNo, no.toNat < base.length →
    (no ∈ p.journaledPages ↔ no ∈ recs.map Prod.fst)
  recorded : ∀ no page, (no, page) ∈ undoLog recs → base[no]? = some page
  header : (0 : PageNo) ∉ recs.map Prod.fst → p.file.disk.db[0]? = base[0]?

theorem Pager.Guarded.holding (h : p.Guarded base start true)
    (hstart : JournalHolds base [] [] start.disk) (hcalm : start.faults = [])
    (hlength : base.length ≤ start.disk.db.length) :
    ∃ (recs : List Preimage) (journal : JournalHeader), Holding base recs p ∧
      journal.origPageCount.toNat = base.length ∧
        p.file.disk.journal = some (journal.bytes ++ recordsBytes recs) := by
  obtain ⟨-, recs, htxn⟩ := h.guard rfl
  obtain ⟨ops, hissues, hops⟩ := htxn.trace
  obtain ⟨⟨journal, horig, hfile⟩, -⟩ := hstart.steps hops
  refine ⟨recs, journal, ⟨hissues.calm hcalm, ?_, htxn.journaled, ?_, ?_⟩, horig, ?_⟩
  · rw [hissues.disk]
    exact hops.length_le hlength
  · intro no page hmem
    obtain ⟨r, hr, heq⟩ := List.mem_map.mp hmem
    obtain ⟨rfl, rfl⟩ := Prod.mk.inj heq
    exact htxn.recorded r hr
  · intro hmem
    exact h.coherent.content_zero ▸ htxn.kept 0 htxn.nonempty hmem
  · rw [hissues.disk, hfile, List.append_nil]

end Guarded

/-- The records of a longer journal begin with those of a shorter one. -/
theorem scan_of_append {recs recs' : List Preimage} {journal journal' : JournalHeader}
    {more : Bytes} (h : journal'.bytes ++ recordsBytes recs' =
      journal.bytes ++ recordsBytes recs ++ more) :
    undoLog recs' = undoLog recs ++ scanRecords more := by
  rw [List.append_assoc] at h
  have hrest := (List.append_inj h (by simp)).2
  have hscan := scanRecords_records recs' []
  rw [List.append_nil, hrest, scanRecords_records, @scanRecords_short []
    (by simp [journalRecordSize]), List.append_nil] at hscan
  exact hscan.symm

/-- A transaction is restored if recovery brings back the pages that it recorded. -/
theorem restored_iff {base : List Page} {p₀ r : Pager} {journal : JournalHeader} {rest : Bytes}
    {header : Header} (hactive : r.inTransaction = true) (hcalm : r.file.faults = [])
    (hjournal : r.file.disk.journal = some (journal.bytes ++ rest))
    (horig : journal.origPageCount.toNat = base.length)
    (hbase : ∀ no : PageNo, p₀.content no = base[no.toNat]?)
    (hheader : base[0]? = some header.toPage) (hold : 0 < r.origPageCount)
    (hzero : 0 ∉ r.journaledPages → (UndoLog.restore base.length (scanRecords rest)
      r.file.disk.db)[0]? = base[0]?) :
    Restored p₀ r ↔ ∀ no ∈ r.journaledPages, no < r.origPageCount →
      (UndoLog.restore base.length (scanRecords rest) r.file.disk.db)[no.toNat]? =
        base[no.toNat]? := by
  rw [← horig] at hzero ⊢
  constructor
  · rintro ⟨⟨s, hrun, hsame⟩, -⟩ no hno hlt
    rw [← rollback_content hactive hcalm hjournal hrun, hsame no hno hlt, hbase]
  · intro hpages
    have hfirst : (UndoLog.restore journal.origPageCount.toNat (scanRecords rest)
        r.file.disk.db)[0]? = some header.toPage := by
      rw [← hheader]
      by_cases hmem : (0 : PageNo) ∈ r.journaledPages
      · exact hpages 0 hmem hold
      · exact hzero hmem
    refine ⟨?_, fun issued orders => ?_⟩
    · obtain ⟨s, hrun⟩ := exists_rollback hactive hcalm hjournal hfirst
      refine ⟨s, hrun, fun no hno hlt => ?_⟩
      rw [rollback_content hactive hcalm hjournal hrun, hpages no hno hlt, hbase]
    · obtain ⟨s, os, hrun⟩ := exists_open hjournal hfirst issued orders
      refine ⟨s, os, hrun, fun no hno hlt => ?_⟩
      rw [open_content hjournal hrun, hpages no hno hlt, hbase]

/--
What a failed append and the operations behind it leave: a journal with the torn record
between those of the pages recorded before it and those recorded behind it.
-/
structure TornRun (base : List Page) (torn : Bytes) (recs recs' : List Preimage)
    (journal : JournalHeader) (more : Bytes) (p' r : Pager) : Prop where
  active : r.inTransaction = true
  old : ∀ no, no < r.origPageCount ↔ no.toNat < base.length
  orig : journal.origPageCount.toNat = base.length
  held : Holding base recs p'
  holding : Holding base recs' r
  scan : undoLog recs' = undoLog recs ++ scanRecords more
  before : p'.file.disk.journal = some (journal.bytes ++ recordsBytes recs ++ torn)
  file : r.file.disk.journal = some (journal.bytes ++ (recordsBytes recs ++ (torn ++ more)))

theorem FailsAppending.tornRun {base : List Page} {start : Os} {q q' r : Pager} {op : PagerOp}
    {m : Nat} (hq : q.Guarded base start true) (hstart : JournalHolds base [] [] start.disk)
    (hlength : base.length ≤ start.disk.db.length) (hop : op.AvoidsHeader)
    (hfails : FailsAppending op m q q') (hm : m < journalRecordSize) {ops : List PagerOp}
    (hops : ∀ op ∈ ops, op.AvoidsHeader) (hrun : runOps ops q' = (.ok (), r)) :
    ∃ torn recs recs' journal more, torn.length = m ∧
      TornRun base torn recs recs' journal more q' r := by
  obtain ⟨k, no, page, reason, failed, -, hfail, rfl⟩ := hfails
  let torn := (recordBytes no page).take m
  have hfailed := (Exec.wp_always_iff ..).mp (Pager.wp_perform
    (hq.withFaults (List.replicate k false ++ [true]) [true] (by simp)) hop)
  rw [hfail] at hfailed
  dsimp only at hfailed
  have hhat := hfailed.guarded.withFaults [] [] fun h => h
  obtain ⟨recs, journal, hheld, horig, hfile⟩ := hhat.holding hstart rfl hlength
  -- the operations behind do the same on the journal without the torn record
  let bare : Pager := { failed.withFaults [] with file := { (failed.withFaults []).file with disk :=
    { (failed.withFaults []).file.disk with journal := some [] } } }
  let front := journal.bytes ++ recordsBytes recs
  have hfront : failed.withFaults [] = bare.before front := by
    simp only [Pager.before, bare, Option.map_some, List.append_nil, front, ← hfile]
  have htorn : (failed.withFaults []).withTorn torn = bare.before (front ++ torn) := by
    simp only [Pager.withTorn, Disk.apply, hfile, Pager.before, bare, Option.map_some,
      List.append_nil, front]
  have hcommutes := runOps_commutes (front ++ torn) ops bare
  rw [← htorn, hrun] at hcommutes
  obtain ⟨hresult, rfl⟩ := Prod.mk.inj hcommutes
  have hkeeps := (Exec.wp_always_iff ..).mp (Pager.wp_runOps hhat hops)
  rw [hfront, runOps_commutes] at hkeeps
  obtain ⟨recs', journal', hholding, horig', hfile'⟩ :=
    hkeeps.guarded.holding hstart rfl hlength
  obtain ⟨more, hmore, hbytes⟩ := Option.map_eq_some_iff.mp hfile'
  refine ⟨torn, recs, recs', journal, more, by simp [torn, hm.le], hkeeps.guarded.state,
    hkeeps.guarded.lt_orig_iff, horig, ?_, ?_, scan_of_append hbytes.symm, ?_, ?_⟩
  · exact { hheld with }
  · exact { hholding with }
  · rw [htorn]
    simp [Pager.before, bare, front]
  · simp [Pager.before, hmore, front]

namespace TornRun

variable {base : List Page} {torn : Bytes} {recs recs' : List Preimage} {journal : JournalHeader}
  {more : Bytes} {p₀ p' r : Pager} {header : Header}

theorem strayImages_eq (h : TornRun base torn recs recs' journal more p' r) :
    strayImages p' r torn.length = scanRecords (torn ++ more) := by
  have hlen : (journal.bytes ++ recordsBytes recs ++ torn).length - torn.length =
      (journal.bytes ++ recordsBytes recs).length := by
    rw [List.length_append, Nat.add_sub_cancel]
  rw [strayImages, h.before, h.file, Option.getD_some, Option.getD_some, hlen, ← List.append_assoc,
    List.drop_left]

theorem mem_logged (h : TornRun base torn recs recs' journal more p' r) {no : PageNo}
    (hno : no < r.origPageCount) : no ∈ r.journaledPages ↔ no.toNat ∈ logged (undoLog recs') :=
  (h.holding.journaled no ((h.old no).mp hno)).trans mem_logged_undoLog.symm

theorem mem_logged_before (h : TornRun base torn recs recs' journal more p' r) {no : PageNo}
    (hno : no < r.origPageCount) : no ∈ p'.journaledPages ↔ no.toNat ∈ logged (undoLog recs) :=
  (h.held.journaled no ((h.old no).mp hno)).trans mem_logged_undoLog.symm

/-- If no byte of the record was written, everything is restored. -/
theorem restored (h : TornRun base [] recs recs' journal more p' r)
    (hbase : ∀ no : PageNo, p₀.content no = base[no.toNat]?)
    (hheader : base[0]? = some header.toPage) : Restored p₀ r := by
  have hscan : scanRecords (recordsBytes recs ++ ([] ++ more)) = undoLog recs' := by
    rw [List.nil_append, scanRecords_records, h.scan]
  have hpos : 0 < base.length := (List.getElem?_eq_some_iff.mp hheader).1
  have hold : 0 < r.origPageCount := (h.old 0).mpr hpos
  refine (restored_iff h.active h.holding.calm h.file h.orig hbase hheader hold ?_).mpr ?_
  · intro hmem
    rw [hscan]
    refine UndoLog.Undoes.restore_getElem? h.holding.recorded (.inl (h.holding.header ?_)) hpos
    rwa [← h.holding.journaled 0 hpos]
  · intro no hmem hno
    rw [hscan]
    exact UndoLog.Undoes.restore_getElem? h.holding.recorded (.inr ((h.mem_logged hno).mp hmem))
      ((h.old no).mp hno)

/-- If recovery finds nothing behind the torn record, the pages recorded there are on their own. -/
theorem restored_iff_onFile (h : TornRun base torn recs recs' journal more p' r)
    (hbase : ∀ no : PageNo, p₀.content no = base[no.toNat]?)
    (hheader : base[0]? = some header.toPage) (hstray : scanRecords (torn ++ more) = []) :
    Restored p₀ r ↔ ∀ no ∈ r.journaledPages, no ∉ p'.journaledPages → no < r.origPageCount →
      r.file.disk.db[no.toNat]? = p₀.content no := by
  have hscan : scanRecords (recordsBytes recs ++ (torn ++ more)) = undoLog recs := by
    rw [scanRecords_records, hstray, List.append_nil]
  have hpos : 0 < base.length := (List.getElem?_eq_some_iff.mp hheader).1
  have hold : 0 < r.origPageCount := (h.old 0).mpr hpos
  have hrecorded : ∀ no page, (no, page) ∈ undoLog recs → base[no]? = some page :=
    fun no page hmem => h.holding.recorded no page (h.scan ▸ List.mem_append_left _ hmem)
  have huntouched {no : PageNo} (hno : no < r.origPageCount)
      (hmem : no.toNat ∉ logged (undoLog recs)) :
      (UndoLog.restore base.length (undoLog recs) r.file.disk.db)[no.toNat]? =
        r.file.disk.db[no.toNat]? := by
    have hlt := (h.old no).mp hno
    exact UndoLog.Undoes.restore_getElem?_untouched hmem (by have := h.holding.length; omega) hlt
  rw [restored_iff h.active h.holding.calm h.file h.orig hbase hheader hold, hscan]
  · constructor
    · intro hpages no hmem hbehind hno
      rw [← huntouched hno (mt (h.mem_logged_before hno).mpr hbehind), hpages no hmem hno, hbase]
    · intro hfile no hmem hno
      by_cases hbefore : no ∈ p'.journaledPages
      · exact UndoLog.Undoes.restore_getElem? hrecorded
          (.inr ((h.mem_logged_before hno).mp hbefore)) ((h.old no).mp hno)
      · rw [huntouched hno (mt (h.mem_logged_before hno).mpr hbefore),
          hfile no hmem hbefore hno, hbase]
  · intro hmem
    rw [hscan]
    refine UndoLog.Undoes.restore_getElem? hrecorded (.inl (h.holding.header ?_)) hpos
    rwa [← h.holding.journaled 0 hpos]

end TornRun

section Transaction

variable {p₀ p q q' r : Pager} {ops ops' : List PagerOp} {op : PagerOp} {m : Nat}

theorem exists_tornRun (hp : p₀.Coherent) (hidle : p₀.inTransaction = false)
    (hsettled : p₀.Settled) (hbegin : Pager.beginTransaction p₀ = (.ok (), p))
    (hops : ∀ op ∈ ops, op.AvoidsHeader) (hrun : runOps ops p = (.ok (), q))
    (hop : op.AvoidsHeader) (hm : m < journalRecordSize) (hfails : FailsAppending op m q q')
    (hops' : ∀ op ∈ ops', op.AvoidsHeader) (hrun' : runOps ops' q' = (.ok (), r)) :
    p₀.image[0]? = some p₀.header.toPage ∧ (∀ no : PageNo, p₀.content no = p₀.image[no.toNat]?) ∧
      ∃ torn recs recs' journal more, torn.length = m ∧
        TornRun p₀.image torn recs recs' journal more q' r := by
  have hbegan := Exec.wp_ok (Pager.wp_beginTransaction hidle) hbegin
  have hheader : p₀.image[0]? = some p₀.header.toPage := by
    rw [← hsettled.header]
    exact hsettled.image_getElem? hp 0
  have hbase (no : PageNo) : p₀.content no = p₀.image[no.toNat]? :=
    (hsettled.image_getElem? hp no).symm
  have hguarded : p.Guarded p₀.image p.file true :=
    hbegan.guarded hp (by simp) hheader fun no _ => hbase no
  have hkeeps := (Exec.wp_always_iff ..).mp (Pager.wp_runOps hguarded hops)
  rw [hrun] at hkeeps
  have hlength : p₀.image.length ≤ p.file.disk.db.length := by
    rw [hbegan.db, hsettled.length, Pager.image_length]
  exact ⟨hheader, hbase, FailsAppending.tornRun hkeeps.guarded (hbegan.holds (by simp)) hlength hop
    hfails hm hops' hrun'⟩

theorem restored_iff_of_stray (hp : p₀.Coherent) (hidle : p₀.inTransaction = false)
    (hsettled : p₀.Settled) (hbegin : Pager.beginTransaction p₀ = (.ok (), p))
    (hops : ∀ op ∈ ops, op.AvoidsHeader) (hrun : runOps ops p = (.ok (), q))
    (hop : op.AvoidsHeader) (hm : m < journalRecordSize) (hfails : FailsAppending op m q q')
    (hops' : ∀ op ∈ ops', op.AvoidsHeader) (hrun' : runOps ops' q' = (.ok (), r))
    (hstray : strayImages q' r m = []) :
    Restored p₀ r ↔ ∀ no ∈ r.journaledPages, no ∉ q'.journaledPages → no < r.origPageCount →
      r.file.disk.db[no.toNat]? = p₀.content no := by
  obtain ⟨hheader, hbase, torn, recs, recs', journal, more, rfl, htorn⟩ :=
    exists_tornRun hp hidle hsettled hbegin hops hrun hop hm hfails hops' hrun'
  rw [htorn.strayImages_eq] at hstray
  exact htorn.restored_iff_onFile hbase hheader hstray

end Transaction

/-! ## Three pages -/

/-- A database of three pages, the last with some content. -/
def threePages (page : Page) : Pager :=
  let header : Header := { Header.new with pageCount := 3 }
  Pager.fresh ⟨⟨[header.toPage, Page.zeroed, page], none⟩, [], [], fun _ => .byInsertion⟩ header 3

/-- Page 1 is borrowed, and four bytes of its record reach the journal. -/
def afterTorn (page : Page) : Pager :=
  ((((PagerOp.getPageMut 1 some).perform ((Pager.beginTransaction (threePages page)).2.withFaults
    [true])).2).withFaults []).withTorn ((recordBytes 1 Page.zeroed).take 4)

/-- Page 2 is overwritten and written back. -/
def afterWrite (page : Page) : Pager :=
  (runOps [.getPageMut 2 fun page => page.writeU8 0 1, .flush] (afterTorn page)).2

theorem failsAppending_threePages (page : Page) :
    FailsAppending (.getPageMut 1 some) 4 (Pager.beginTransaction (threePages page)).2
      (afterTorn page) :=
  ⟨0, 1, Page.zeroed, .io .other, _, rfl, rfl, rfl⟩

/-- Four bytes of a record before another one: the checksum is looked for in the page. -/
theorem scanRecords_shifted {no no' : PageNo} {image page : Page} {front last : Bytes}
    (hlast : last.length = 4) (hpage : page.bytes = front ++ last)
    (hbad : UInt32.ofNat (beValue last) ≠ crc32 (beBytes 4 no'.toNat ++ front)) :
    scanRecords ((recordBytes no image).take 4 ++ recordBytes no' page) = [] := by
  have hfront : 4 + front.length = pageSize := by
    have hlen := congrArg List.length hpage
    rw [Page.bytes_length, List.length_append, hlast] at hlen
    omega
  have htake : (recordBytes no image).take 4 = beBytes 4 no.toNat := by simp [recordBytes]
  have hshifted : (recordBytes no image).take 4 ++ recordBytes no' page =
      beBytes 4 no.toNat ++ (beBytes 4 no'.toNat ++ front) ++ last ++
        beBytes 4 (crc32 page.bytes).toNat := by
    rw [htake, recordBytes, hpage]
    simp only [List.append_assoc]
  have hdata : recordData (beBytes 4 no.toNat ++ (beBytes 4 no'.toNat ++ front) ++ last) =
      beBytes 4 no'.toNat ++ front := by
    have hdrop : (beBytes 4 no.toNat ++ ((beBytes 4 no'.toNat ++ front) ++ last)).drop 4 =
        (beBytes 4 no'.toNat ++ front) ++ last := List.drop_left' (by simp)
    rw [recordData, List.append_assoc, hdrop]
    exact List.take_left' (by simpa using hfront)
  have hcrc : recordCrc (beBytes 4 no.toNat ++ (beBytes 4 no'.toNat ++ front) ++ last) =
      UInt32.ofNat (beValue last) := by
    rw [recordCrc, List.drop_left' (by simpa using hfront)]
  rw [hshifted]
  refine scanRecords_bad ?_ ?_
  · simp [hlast, journalRecordSize, ← hfront]
    omega
  · rw [hdata, hcrc]
    exact hbad

/-- A page of zeros, but for four bytes that are no checksum of what recovery reads. -/
def strayPage : Page :=
  let front : Bytes := List.replicate 4092 0
  Page.ofBytes (front ++ beBytes 4 (~~~crc32 (beBytes 4 2 ++ front)).toNat)

theorem scan_strayPage :
    scanRecords ((recordBytes 1 Page.zeroed).take 4 ++ recordBytes 2 strayPage) = [] := by
  let front : Bytes := List.replicate 4092 0
  let crc := crc32 (beBytes 4 2 ++ front)
  have hlen : (front ++ beBytes 4 (~~~crc).toNat).length = pageSize := by
    rw [List.length_append, List.length_replicate, beBytes_length]
    rfl
  refine scanRecords_shifted (beBytes_length ..) (Page.bytes_ofBytes hlen) ?_
  have hvalue : UInt32.ofNat (beValue (beBytes 4 (~~~crc).toNat)) = ~~~crc := by
    have hlt : (~~~crc).toNat < 256 ^ 4 := UInt32.toNat_lt _
    rw [beValue_beBytes, Nat.mod_eq_of_lt hlt, UInt32.ofNat_toNat]
  rw [hvalue]
  intro (h : ~~~crc = crc)
  have hzero : crc = 0 := by
    have hand : crc &&& ~~~crc = 0 := UInt32.and_not_self
    rwa [h, UInt32.and_self] at hand
  rw [hzero] at h
  revert h
  decide

theorem threePages_empty (page : Page) : (threePages page).Empty := ⟨rfl, rfl, rfl, rfl⟩

theorem threePages_coherent (page : Page) : (threePages page).Coherent :=
  (threePages_empty page).coherent (Nat.le_refl 3) (Nat.zero_lt_succ 2)

theorem threePages_current (page : Page) : (threePages page).FileCurrent where
  length := rfl
  header := rfl
  pages := (threePages_empty page).content

theorem run_afterTorn (page : Page) :
    runOps [.getPageMut 2 fun page => page.writeU8 0 1, .flush] (afterTorn page) =
      (.ok (), afterWrite page) :=
  rfl

theorem afterWrite_journal (page : Page) : (afterWrite page).file.disk.journal =
    some ((JournalHeader.new 3).bytes ++ ((recordBytes 1 Page.zeroed).take 4 ++
      recordBytes 2 page)) := by
  rw [← List.append_assoc]
  rfl

theorem afterTorn_journal (page : Page) : (afterTorn page).file.disk.journal =
    some ((JournalHeader.new 3).bytes ++ (recordBytes 1 Page.zeroed).take 4) :=
  rfl

theorem afterWrite_page (page : Page) :
    (afterWrite page).file.disk.db[(2 : PageNo).toNat]? = some (page.patch 0 [1]) :=
  rfl

theorem threePages_page (page : Page) : (threePages page).content 2 = some page :=
  (threePages_empty page).content 2

theorem journaled_behind (page : Page) :
    2 ∈ (afterWrite page).journaledPages ∧ 2 ∉ (afterTorn page).journaledPages ∧
      2 < (afterWrite page).origPageCount := by
  have hafter : (afterWrite page).journaledPages = {2} := rfl
  have htorn : (afterTorn page).journaledPages = ∅ := rfl
  have horig : (afterWrite page).origPageCount = 3 := rfl
  simp [hafter, htorn, horig]

theorem strayImages_afterWrite : strayImages (afterTorn strayPage) (afterWrite strayPage) 4 = [] := by
  have hlen : ((JournalHeader.new 3).bytes ++ (recordBytes 1 Page.zeroed).take 4).length - 4 =
      (JournalHeader.new 3).bytes.length := by
    simp [recordBytes]
  rw [strayImages, afterWrite_journal, afterTorn_journal, Option.getD_some, Option.getD_some, hlen,
    List.drop_left, scan_strayPage]

theorem avoidsHeader_one : (PagerOp.getPageMut 1 some).AvoidsHeader := by
  simp [PagerOp.AvoidsHeader]

theorem avoidsHeader_two : ∀ op ∈ [PagerOp.getPageMut 2 fun page => page.writeU8 0 1, .flush],
    op.AvoidsHeader := by
  simp [PagerOp.AvoidsHeader]

end ChocoBase.Storage
