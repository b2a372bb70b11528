import ChocoBase.Storage.Pager

/-!
# What recovery restores

A disk is recoverable to a base when its journal holds an undo log for it,
possibly followed by a record that was cut off.  The requests of a transaction
keep a disk recoverable as long as every page is recorded before it is
overwritten (`LogStep`); so do the requests of recovery itself, until the journal
is gone and the base is back.
-/

namespace ChocoBase.Storage

open ChocoBase.Foundation
open UndoLog (Undoes logged)

abbrev Preimage : Type := PageNo × Page

/-- The records of a journal, as an undo log of the database file. -/
def undoLog (recs : List Preimage) : List (Nat × Page) :=
  recs.map fun r => (r.1.toNat, r.2)

def recordsBytes (recs : List Preimage) : Bytes :=
  (recs.map fun r => recordBytes r.1 r.2).flatten

@[simp] theorem recordsBytes_nil : recordsBytes [] = [] := rfl

@[simp] theorem recordsBytes_cons (r : Preimage) (recs : List Preimage) :
    recordsBytes (r :: recs) = recordBytes r.1 r.2 ++ recordsBytes recs := rfl

theorem recordsBytes_snoc (recs : List Preimage) (r : Preimage) :
    recordsBytes (recs ++ [r]) = recordsBytes recs ++ recordBytes r.1 r.2 := by
  simp [recordsBytes]

theorem mem_logged_undoLog {recs : List Preimage} {no : PageNo} :
    no.toNat ∈ logged (undoLog recs) ↔ no ∈ recs.map Prod.fst := by
  simp [logged, undoLog, UInt32.toNat_inj]

/-- The journal holds a header for `base`, complete records, and a record cut off. -/
structure JournalHolds (base : List Page) (recs : List Preimage) (torn : Bytes)
    (disk : Disk) : Prop where
  bytes : ∃ header : JournalHeader, header.origPageCount.toNat = base.length ∧
    disk.journal = some (header.bytes ++ (recordsBytes recs ++ torn))
  short : torn.length < journalRecordSize

/-- The journal of `disk` undoes what happened to the database file since `base`. -/
structure JournalState (base : List Page) (recs : List Preimage) (torn : Bytes)
    (disk : Disk) : Prop where
  holds : JournalHolds base recs torn disk
  undoes : Undoes base (undoLog recs) disk.db

def Recoverable (base : List Page) (disk : Disk) : Prop :=
  ∃ recs torn, JournalState base recs torn disk

/-- The disk recovers to `base`, or recovery to `base` has just finished. -/
def Restorable (base : List Page) (disk : Disk) : Prop :=
  Recoverable base disk ∨ disk.journal = none ∧ disk.db = base

/-! ## The discipline of a transaction -/

/-- One request of a transaction, with the pre-images recorded before and after it. -/
inductive LogStep (base : List Page) : List Preimage → DiskOp → List Preimage → Prop
  | record {recs no page} (h : base[no.toNat]? = some page) :
      LogStep base recs (.appendJournal (recordBytes no page)) (recs ++ [(no, page)])
  | overwrite {recs no page}
      (h : no < base.length → no ∈ logged (undoLog recs) ∨ base[no]? = some page) :
      LogStep base recs (.writePage no page) recs
  | extend {recs pages} (h : base.length ≤ pages) : LogStep base recs (.setLen pages) recs
  | header {recs} {header : JournalHeader} (h : header.origPageCount.toNat = base.length) :
      LogStep base recs (.writeJournalHeader header.bytes) recs
  | syncDb {recs} : LogStep base recs .syncDb recs
  | syncJournal {recs} : LogStep base recs .syncJournal recs

inductive LogSteps (base : List Page) : List Preimage → List DiskOp → List Preimage → Prop
  | nil {recs} : LogSteps base recs [] recs
  | cons {recs recs' recs'' op ops} (step : LogStep base recs op recs')
      (rest : LogSteps base recs' ops recs'') : LogSteps base recs (op :: ops) recs''

theorem LogSteps.append {base : List Page} {recs recs' recs'' : List Preimage}
    {ops more : List DiskOp} (h : LogSteps base recs ops recs')
    (hmore : LogSteps base recs' more recs'') : LogSteps base recs (ops ++ more) recs'' := by
  induction h with
  | nil => exact hmore
  | cons step _ ih => exact .cons step (ih hmore)

theorem LogSteps.single {base : List Page} {recs recs' : List Preimage} {op : DiskOp}
    (h : LogStep base recs op recs') : LogSteps base recs [op] recs' :=
  .cons h .nil

theorem JournalHolds.step {base : List Page} {recs recs' : List Preimage} {disk : Disk}
    {op : DiskOp} (h : JournalHolds base recs [] disk) (hstep : LogStep base recs op recs') :
    JournalHolds base recs' [] (disk.apply op) := by
  obtain ⟨⟨header, horig, hjournal⟩, hshort⟩ := h
  cases hstep with
  | record himage =>
      refine ⟨⟨header, horig, ?_⟩, hshort⟩
      simp [Disk.apply, hjournal, recordsBytes_snoc]
  | overwrite hlogged => exact ⟨⟨header, horig, hjournal⟩, hshort⟩
  | extend hlen => exact ⟨⟨header, horig, hjournal⟩, hshort⟩
  | header horig' =>
      refine ⟨⟨_, horig', ?_⟩, hshort⟩
      simp [Disk.apply, hjournal]
  | syncDb => exact ⟨⟨header, horig, hjournal⟩, hshort⟩
  | syncJournal => exact ⟨⟨header, horig, hjournal⟩, hshort⟩

theorem JournalHolds.steps {base : List Page} {recs recs' : List Preimage} {disk : Disk}
    {ops : List DiskOp} (h : JournalHolds base recs [] disk)
    (hops : LogSteps base recs ops recs') : JournalHolds base recs' [] (disk.after ops) := by
  induction hops generalizing disk with
  | nil => exact h
  | cons hstep _ ih => exact ih (h.step hstep)

namespace JournalState

variable {base : List Page} {recs recs' : List Preimage} {disk : Disk} {op : DiskOp}

theorem recoverable {torn : Bytes} (h : JournalState base recs torn disk) :
    Recoverable base disk :=
  ⟨recs, torn, h⟩

theorem step (h : JournalState base recs [] disk) (hstep : LogStep base recs op recs') :
    JournalState base recs' [] (disk.apply op) := by
  refine ⟨h.holds.step hstep, ?_⟩
  cases hstep with
  | record himage => simpa [Disk.apply, undoLog] using h.undoes.record himage
  | @overwrite no page hwrite =>
      by_cases hlogged : no < base.length → no ∈ logged (undoLog recs)
      · exact h.undoes.overwrite hlogged
      · obtain ⟨hlt, hmem⟩ := Classical.not_imp.mp hlogged
        exact h.undoes.writeBack ((hwrite hlt).resolve_left hmem)
  | extend hlen => exact h.undoes.resize hlen
  | header horig => exact h.undoes
  | syncDb => exact h.undoes
  | syncJournal => exact h.undoes

/-- A crash in the middle of an append leaves a record that is cut off, or all of it. -/
theorem torn_append {record : Bytes} (h : JournalState base recs [] disk)
    (hstep : LogStep base recs (.appendJournal record) recs') (m : Nat) :
    Recoverable base (disk.apply (.appendJournal (record.take m))) := by
  obtain ⟨⟨header, horig, hjournal⟩, -⟩ := h.holds
  cases hstep with
  | @record no page himage =>
      by_cases hm : m < journalRecordSize
      · refine ⟨recs, (recordBytes no page).take m, ⟨⟨header, horig, ?_⟩, ?_⟩, h.undoes⟩
        · simp [Disk.apply, hjournal]
        · simp
          omega
      · rw [List.take_of_length_le (by simp; omega)]
        exact (h.step (.record himage)).recoverable

/-- Every crash state of a transaction that records before it overwrites is recoverable. -/
theorem crash {ops : List DiskOp} {crashed : Disk} (h : JournalState base recs [] disk)
    (hops : LogSteps base recs ops recs') (hcrash : CrashState disk ops crashed) :
    Recoverable base crashed := by
  induction hops generalizing disk with
  | nil => exact CrashState.of_nil hcrash ▸ h.recoverable
  | cons hstep _ ih =>
      rcases CrashState.of_cons hcrash with rfl | ⟨record, m, rfl, rfl⟩ | hcrash
      · exact h.recoverable
      · exact h.torn_append hstep m
      · exact ih (h.step hstep) hcrash

end JournalState

/-! ## The requests of recovery -/

/-- A request of recovery before it removes the journal. -/
inductive RestoreStep (base : List Page) : DiskOp → Prop
  | writeBack {no page} (h : base[no]? = some page) : RestoreStep base (.writePage no page)
  | cut : RestoreStep base (.setLen base.length)
  | syncDb : RestoreStep base .syncDb

theorem Recoverable.restoreStep {base : List Page} {disk : Disk} {op : DiskOp}
    (h : Recoverable base disk) (hop : RestoreStep base op) :
    Recoverable base (disk.apply op) := by
  obtain ⟨recs, torn, ⟨hbytes, hshort⟩, hundoes⟩ := h
  cases hop with
  | writeBack hpage => exact ⟨recs, torn, ⟨hbytes, hshort⟩, hundoes.writeBack hpage⟩
  | cut => exact ⟨recs, torn, ⟨hbytes, hshort⟩, hundoes.resize le_rfl⟩
  | syncDb => exact ⟨recs, torn, ⟨hbytes, hshort⟩, hundoes⟩

theorem Recoverable.crash {base : List Page} {disk crashed : Disk} {ops : List DiskOp}
    (h : Recoverable base disk) (hops : ∀ op ∈ ops, RestoreStep base op)
    (hcrash : CrashState disk ops crashed) : Recoverable base crashed := by
  induction ops generalizing disk with
  | nil => exact CrashState.of_nil hcrash ▸ h
  | cons op ops ih =>
      rw [List.forall_mem_cons] at hops
      rcases CrashState.of_cons hcrash with rfl | ⟨record, m, rfl, -⟩ | hcrash
      · exact h
      · cases hops.1
      · exact ih (h.restoreStep hops.1) hops.2 hcrash

/-- What the requests of a complete recovery leave behind at a crash. -/
theorem Recoverable.crash_removed {base : List Page} {disk crashed : Disk}
    {ops : List DiskOp} (h : Recoverable base disk) (hops : ∀ op ∈ ops, RestoreStep base op)
    (hdb : (disk.after ops).db = base)
    (hcrash : CrashState disk (ops ++ [.removeJournal]) crashed) : Restorable base crashed := by
  rcases CrashState.of_append hcrash with hcrash | hcrash
  · exact .inl (h.crash hops hcrash)
  · rcases CrashState.of_cons hcrash with rfl | ⟨_, _, h, -⟩ | hcrash
    · exact .inl (h.crash hops (.all _ _))
    · cases h
    · rw [CrashState.of_nil hcrash]
      exact .inr ⟨rfl, hdb⟩

/-! ## Running recovery -/

theorem replayRecords_short {rest : Bytes} (h : rest.length < journalRecordSize) :
    replayRecords rest = pure () := by
  rw [replayRecords, dif_pos h]

theorem replayRecords_record (no : PageNo) (page : Page) (rest : Bytes) :
    replayRecords (recordBytes no page ++ rest) =
      (do Os.request (.writePage no.toNat page); replayRecords rest) := by
  have hlen : ¬(recordBytes no page ++ rest).length < journalRecordSize := by simp
  have hrecord : (recordBytes no page ++ rest).take journalRecordSize =
      recordBytes no page := by simp
  have hrest : (recordBytes no page ++ rest).drop journalRecordSize = rest := by simp
  have hno : (recordBytes no page).take 4 = beBytes 4 no.toNat := by simp [recordBytes]
  have hdata : ((recordBytes no page).drop 4).take pageSize = page.bytes := by
    simp [recordBytes]
  have hcrc : (recordBytes no page).drop (4 + pageSize) =
      beBytes 4 (crc32 page.bytes).toNat := by
    simp [recordBytes, List.drop_append]
  have hmod : no.toNat % 256 ^ 4 = no.toNat := Nat.mod_eq_of_lt (by simpa using no.toNat_lt)
  rw [replayRecords, dif_neg hlen]
  simp only [hrecord, hrest, hno, hdata, hcrc, beValue_beBytes, Page.ofBytes_bytes, hmod]
  rw [if_neg (by simp)]

/-- What a run of recovery does to a disk that is restorable to `base`. -/
def recoveryPost (base : List Page) (os : Os) : Exec.Post Os StorageError Unit where
  ok _ os' := os'.disk.db = base ∧ (os.faults = [] → os'.disk.journal = none) ∧
    ∃ ops, os.Issues os' ops ∧ ∀ crashed, CrashState os.disk ops crashed → Restorable base crashed
  error _ os' := os.faults ≠ [] ∧
    ∃ ops, os.Issues os' ops ∧ ∀ crashed, CrashState os.disk ops crashed → Restorable base crashed
  stop _ _ := False

/-- A part of recovery, before the journal is removed, whose requests are all `Step`s. -/
private def restorePost (Step : DiskOp → Prop) (os : Os) (db : List Page) :
    Exec.Post Os StorageError Unit where
  ok _ os' := os'.disk.db = db ∧ ∃ ops, os.Issues os' ops ∧ ∀ op ∈ ops, Step op
  error _ os' := os.faults ≠ [] ∧ ∃ ops, os.Issues os' ops ∧ ∀ op ∈ ops, Step op
  stop _ _ := False

private theorem wp_restoreStep {Step : DiskOp → Prop} {os os₀ : Os} {op : DiskOp}
    {done : List DiskOp} (hop : Step op) (hdone : os₀.Issues os done)
    (hops : ∀ op ∈ done, Step op) :
    Exec.wp (Os.request op) (restorePost Step os₀ (os.disk.apply op).db) os := by
  refine Os.wp_request (fun os' h => ⟨by rw [h.disk]; rfl, done ++ [op], hdone.trans h, ?_⟩)
    (fun os' h hfaults => ⟨fun hcalm => hfaults (hdone.calm hcalm), done, ?_, hops⟩)
  · simpa [or_imp, forall_and] using ⟨hops, hop⟩
  · simpa using hdone.trans h

private theorem wp_replayRecords {Step : DiskOp → Prop} {torn : Bytes} {os₀ : Os}
    (htorn : torn.length < journalRecordSize) (recs : List Preimage)
    (hrecs : ∀ no block, (no, block) ∈ undoLog recs → Step (.writePage no block))
    {os : Os} {done : List DiskOp} (hdone : os₀.Issues os done) (hops : ∀ op ∈ done, Step op) :
    Exec.wp (replayRecords (recordsBytes recs ++ torn))
      (restorePost Step os₀ (UndoLog.replay (undoLog recs) os.disk.db)) os := by
  induction recs generalizing os done with
  | nil =>
      rw [recordsBytes_nil, List.nil_append, replayRecords_short htorn]
      exact ⟨rfl, done, hdone, hops⟩
  | cons r recs ih =>
      rw [recordsBytes_cons, List.append_assoc, replayRecords_record]
      have himage := hrecs r.1.toNat r.2 List.mem_cons_self
      refine Exec.wp_seq (wp_restoreStep himage hdone hops) ?_
        (fun _ _ h => h) (fun _ _ h => h)
      rintro - os' ⟨hdb, done', hdone', hops'⟩
      have hnext := ih (fun no block h => hrecs no block (List.mem_cons_of_mem _ h)) hdone' hops'
      rwa [hdb] at hnext

theorem recoverIfNeeded_none {os : Os} (h : os.disk.journal = none) :
    recoverIfNeeded os = (.ok (), os) := by
  simp [recoverIfNeeded, Exec.bind_apply, h]

/-- With a complete header, recovery replays the records, cuts the file and drops the journal. -/
theorem recoverIfNeeded_some {os : Os} {header : JournalHeader} {rest : Bytes}
    (h : os.disk.journal = some (header.bytes ++ rest)) :
    recoverIfNeeded os = (do
      replayRecords rest
      Os.request (.setLen header.origPageCount.toNat)
      Os.request .syncDb
      discardJournal : Exec Os StorageError Unit) os := by
  have hlen : (header.bytes ++ rest).length ≠ 0 := by simp [journalHeaderSize]
  have hdrop : (header.bytes ++ rest).drop journalHeaderSize = rest := by
    rw [← header.bytes_length, List.drop_left]
  simp only [recoverIfNeeded, Exec.bind_apply, Exec.get_apply, h, if_neg hlen,
    JournalHeader.readFrom_bytes, hdrop]

/-- Recovery up to the removal of the journal. -/
private theorem wp_recoverIfNeeded (Step : DiskOp → Prop) {os : Os} {header : JournalHeader}
    {recs : List Preimage} {torn : Bytes}
    (hjournal : os.disk.journal = some (header.bytes ++ (recordsBytes recs ++ torn)))
    (hshort : torn.length < journalRecordSize)
    (hrecs : ∀ no block, (no, block) ∈ undoLog recs → Step (.writePage no block))
    (hcut : Step (.setLen header.origPageCount.toNat)) (hsync : Step .syncDb)
    {Q : Exec.Post Os StorageError Unit}
    (hok : ∀ os', os'.disk.db =
        UndoLog.restore header.origPageCount.toNat (undoLog recs) os.disk.db →
      ∀ ops, os.Issues os' ops → (∀ op ∈ ops, Step op) → Exec.wp discardJournal Q os')
    (herror : ∀ e os', os.faults ≠ [] → ∀ ops, os.Issues os' ops → (∀ op ∈ ops, Step op) →
      Q.error e os') : Exec.wp recoverIfNeeded Q os := by
  have hfail (e : StorageError) (os' : Os) (db : List Page)
      (h : (restorePost Step os db).error e os') : Q.error e os' := by
    obtain ⟨hfaults, ops, hissues, hops⟩ := h
    exact herror e os' hfaults ops hissues hops
  unfold Exec.wp
  rw [recoverIfNeeded_some hjournal]
  refine Exec.wp_seq (wp_replayRecords hshort recs hrecs (.refl os) (by simp)) ?_
    (fun _ _ => hfail _ _ _) (fun _ _ h => h.elim)
  rintro - os₁ ⟨hdb₁, ops₁, hissues₁, hops₁⟩
  refine Exec.wp_seq (wp_restoreStep hcut hissues₁ hops₁) ?_
    (fun _ _ => hfail _ _ _) (fun _ _ h => h.elim)
  rintro - os₂ ⟨hdb₂, ops₂, hissues₂, hops₂⟩
  refine Exec.wp_seq (wp_restoreStep hsync hissues₂ hops₂) ?_
    (fun _ _ => hfail _ _ _) (fun _ _ h => h.elim)
  rintro - os₃ ⟨hdb₃, ops₃, hissues₃, hops₃⟩
  refine hok os₃ (hdb₃.trans (hdb₂.trans ?_)) ops₃ hissues₃ hops₃
  rw [Disk.apply, hdb₁]
  rfl

theorem wp_discardJournal {Q : Exec.Post Os StorageError Unit} {os : Os}
    (hremoved : ∀ os', os.Issues os' [.removeJournal] → Q.ok () os')
    (hkept : ∀ os', os.Issues os' [] → os.faults ≠ [] → Q.ok () os') :
    Exec.wp discardJournal Q os := by
  rw [discardJournal, Exec.wp_bind, Exec.wp_attempt]
  exact Os.wp_request hremoved hkept

theorem recoverIfNeeded_spec {base : List Page} {os : Os} (h : Restorable base os.disk) :
    Exec.wp recoverIfNeeded (recoveryPost base os) os := by
  rcases h with h | ⟨hjournal, hdb⟩
  · have hrec := h
    obtain ⟨recs, torn, ⟨⟨header, horig, hjournal⟩, hshort⟩, hundoes⟩ := h
    refine wp_recoverIfNeeded (RestoreStep base) hjournal hshort
      (fun no block h => .writeBack (hundoes.recorded no block h)) (horig ▸ .cut) .syncDb
      (fun os₃ hdb₃ ops₃ hissues₃ hops₃ => ?_)
      (fun _ os' hfaults ops hissues hops =>
        ⟨hfaults, ops, hissues, fun crashed hcrash => .inl (hrec.crash hops hcrash)⟩)
    rw [horig, hundoes.restore_eq] at hdb₃
    refine wp_discardJournal (fun os₄ h₄ => ?_) (fun os₄ h₄ hfaults => ?_)
    · have hdb₄ : (os.disk.after ops₃).db = base := by rw [← hissues₃.disk, hdb₃]
      refine ⟨?_, fun _ => ?_, ops₃ ++ [.removeJournal], hissues₃.trans h₄, fun crashed hcrash =>
        hrec.crash_removed hops₃ hdb₄ hcrash⟩
      · rw [h₄.disk]; exact hdb₃
      · rw [h₄.disk]; rfl
    · refine ⟨?_, fun hcalm => absurd (hissues₃.calm hcalm) hfaults, ops₃, ?_, fun crashed hcrash =>
        .inl (hrec.crash hops₃ hcrash)⟩
      · rw [h₄.disk]; exact hdb₃
      · simpa using hissues₃.trans h₄
  · refine Exec.wp_of_ok (recoverIfNeeded_none hjournal) ⟨hdb, fun _ => hjournal, [], .refl os, ?_⟩
    intro crashed hcrash
    exact CrashState.of_nil hcrash ▸ .inr ⟨hjournal, hdb⟩

/-- Without refused requests recovery replays whatever the journal holds. -/
theorem recoverIfNeeded_calm {base : List Page} {recs : List Preimage} {torn : Bytes} {os : Os}
    (h : JournalHolds base recs torn os.disk) (hcalm : os.faults = []) :
    Exec.wp recoverIfNeeded
      ⟨fun _ os' => os'.disk =
          { db := UndoLog.restore base.length (undoLog recs) os.disk.db, journal := none },
        fun _ _ => False, fun _ _ => False⟩ os := by
  obtain ⟨⟨header, horig, hjournal⟩, hshort⟩ := h
  refine wp_recoverIfNeeded (fun _ => True) hjournal hshort (fun _ _ _ => trivial)
    trivial trivial (fun os₃ hdb₃ ops₃ hissues₃ _ => ?_) (fun _ _ hfaults => absurd hcalm hfaults)
  refine wp_discardJournal (fun os₄ h₄ => ?_)
    (fun _ _ hfaults => absurd (hissues₃.calm hcalm) hfaults)
  have hdisk : os₄.disk = { db := os₃.disk.db, journal := none } := h₄.disk
  exact hdisk.trans (by rw [hdb₃, horig])

end ChocoBase.Storage
