import ChocoBase.Storage.Recovery

/-!
# The scan of a journal

The pages that recovery writes back are a function of the bytes after the header: the
records up to the first that is cut off or fails its checksum.
-/

namespace ChocoBase.Storage

open ChocoBase.Foundation
open Exec (Post)

/-- The page number that a record names. -/
def recordNo (record : Bytes) : Nat := beValue (record.take 4)

def recordData (record : Bytes) : Bytes := (record.drop 4).take pageSize

def recordCrc (record : Bytes) : UInt32 := UInt32.ofNat (beValue (record.drop (4 + pageSize)))

/-- The images that recovery finds. -/
def scanRecords (rest : Bytes) : List (Nat × Page) :=
  if _h : rest.length < journalRecordSize then []
  else
    let record := rest.take journalRecordSize
    if recordCrc record ≠ crc32 (recordData record) then []
    else (recordNo record, Page.ofBytes (recordData record)) ::
      scanRecords (rest.drop journalRecordSize)
  termination_by rest.length
  decreasing_by
    simp only [List.length_drop]
    have : 0 < journalRecordSize := by simp [journalRecordSize]
    omega

def writeImages : List (Nat × Page) → Exec Os StorageError Unit
  | [] => pure ()
  | (no, page) :: images => do
      Os.request (.writePage no page)
      writeImages images

theorem replayRecords_eq (rest : Bytes) : replayRecords rest = writeImages (scanRecords rest) := by
  induction rest using scanRecords.induct with
  | case1 rest hshort => rw [replayRecords, dif_pos hshort, scanRecords, dif_pos hshort, writeImages]
  | case2 rest hlong record hbad =>
      rw [replayRecords, dif_neg hlong, scanRecords, dif_neg hlong]
      dsimp only
      rw [if_pos hbad]
      exact if_pos hbad
  | case3 rest hlong record hgood ih =>
      rw [replayRecords, dif_neg hlong, scanRecords, dif_neg hlong, ih]
      dsimp only
      rw [if_neg hgood]
      exact if_neg hgood

/-! ## What a scan finds -/

theorem scanRecords_short {rest : Bytes} (h : rest.length < journalRecordSize) :
    scanRecords rest = [] := by
  rw [scanRecords, dif_pos h]

theorem scanRecords_bad {record rest : Bytes} (hlen : record.length = journalRecordSize)
    (hbad : recordCrc record ≠ crc32 (recordData record)) : scanRecords (record ++ rest) = [] := by
  rw [scanRecords, dif_neg (by simp [hlen])]
  simp only [← hlen, List.take_left]
  rw [if_pos hbad]

theorem recordNo_recordBytes (no : PageNo) (page : Page) :
    recordNo (recordBytes no page) = no.toNat := by
  simp [recordNo, recordBytes]

theorem recordData_recordBytes (no : PageNo) (page : Page) :
    recordData (recordBytes no page) = page.bytes := by
  simp [recordData, recordBytes]

theorem recordCrc_recordBytes (no : PageNo) (page : Page) :
    recordCrc (recordBytes no page) = crc32 page.bytes := by
  have hdrop : (recordBytes no page).drop (4 + pageSize) = beBytes 4 (crc32 page.bytes).toNat := by
    simp [recordBytes, List.drop_append]
  rw [recordCrc, hdrop]
  simp

theorem scanRecords_record (no : PageNo) (page : Page) (rest : Bytes) :
    scanRecords (recordBytes no page ++ rest) = (no.toNat, page) :: scanRecords rest := by
  have hlen : ¬(recordBytes no page ++ rest).length < journalRecordSize := by simp
  have htake : (recordBytes no page ++ rest).take journalRecordSize = recordBytes no page := by
    simp
  have hdrop : (recordBytes no page ++ rest).drop journalRecordSize = rest := by simp
  rw [scanRecords, dif_neg hlen, htake, hdrop]
  simp only [recordNo_recordBytes, recordData_recordBytes, recordCrc_recordBytes,
    Page.ofBytes_bytes]
  rw [if_neg (by simp)]

theorem scanRecords_records (recs : List Preimage) (rest : Bytes) :
    scanRecords (recordsBytes recs ++ rest) = undoLog recs ++ scanRecords rest := by
  induction recs with
  | nil => rfl
  | cons r recs ih =>
      rw [recordsBytes_cons, List.append_assoc, scanRecords_record, ih]
      rfl

/-! ## The writes of a recovery -/

/-- The pages that requests write to the database file. -/
def pagesWritten (ops : List DiskOp) : List (Nat × Page) :=
  ops.filterMap fun
    | .writePage no page => some (no, page)
    | _ => none

/-- A part of recovery that writes pages, all of them unless a request is refused. -/
def writesPost (os : Os) (images : List (Nat × Page)) : Post Os StorageError Unit where
  ok _ os' := ∃ ops, os.Issues os' ops ∧ pagesWritten ops = images
  error _ os' := os.faults ≠ [] ∧ ∃ ops, os.Issues os' ops ∧ pagesWritten ops <+: images
  stop _ _ := False

theorem wp_writeImages {images done : List (Nat × Page)} {os₀ os : Os} {ops : List DiskOp}
    (hissues : os₀.Issues os ops) (hdone : pagesWritten ops = done) :
    Exec.wp (writeImages images) (writesPost os₀ (done ++ images)) os := by
  induction images generalizing os done ops with
  | nil => exact ⟨ops, hissues, by rw [hdone, List.append_nil]⟩
  | cons image images ih =>
      obtain ⟨no, page⟩ := image
      rw [writeImages, Exec.wp_bind]
      refine Os.wp_request (fun os' h => ?_) (fun os' h hfaults => ?_)
      · have hnext := @ih (done ++ [(no, page)]) _ _ (hissues.trans h)
          (by simp [pagesWritten, ← hdone])
        rwa [List.append_assoc] at hnext
      · exact ⟨fun hcalm => hfaults (hissues.calm hcalm), ops,
          by simpa using hissues.trans h, hdone ▸ List.prefix_append ..⟩

/-- A request of another kind writes no page. -/
theorem wp_request_unwritten {os₀ os : Os} {op : DiskOp} {images : List (Nat × Page)}
    {ops : List DiskOp} (hop : pagesWritten [op] = []) (hissues : os₀.Issues os ops)
    (hdone : pagesWritten ops = images) :
    Exec.wp (Os.request op) (writesPost os₀ images) os := by
  refine Os.wp_request (fun os' h => ⟨ops ++ [op], hissues.trans h, ?_⟩)
    (fun os' h hfaults => ⟨fun hcalm => hfaults (hissues.calm hcalm), ops,
      by simpa using hissues.trans h, hdone ▸ List.prefix_rfl⟩)
  unfold pagesWritten at hop hdone ⊢
  rw [List.filterMap_append, hop, hdone, List.append_nil]

/-- With a complete header, recovery writes the images that it finds. -/
theorem recoverIfNeeded_writes {os : Os} {header : JournalHeader} {rest : Bytes}
    (h : os.disk.journal = some (header.bytes ++ rest)) :
    Exec.wp recoverIfNeeded (writesPost os (scanRecords rest)) os := by
  have hpass (reason : StorageError) (os' : Os)
      (h : (writesPost os (scanRecords rest)).error reason os') :
      (writesPost os (scanRecords rest)).error reason os' := h
  unfold Exec.wp
  rw [recoverIfNeeded_some h, replayRecords_eq]
  refine Exec.wp_seq (wp_writeImages (.refl os) rfl) ?_ hpass (fun _ _ h => h.elim)
  rintro - os₁ ⟨ops₁, hissues₁, hwrites₁⟩
  refine Exec.wp_seq (wp_request_unwritten rfl hissues₁ hwrites₁) ?_ hpass (fun _ _ h => h.elim)
  rintro - os₂ ⟨ops₂, hissues₂, hwrites₂⟩
  refine Exec.wp_seq (wp_request_unwritten rfl hissues₂ hwrites₂) ?_ hpass (fun _ _ h => h.elim)
  rintro - os₃ ⟨ops₃, hissues₃, hwrites₃⟩
  refine wp_discardJournal (fun os₄ h₄ => ⟨_, hissues₃.trans h₄, ?_⟩)
    (fun os₄ h₄ _ => ⟨_, hissues₃.trans h₄, ?_⟩)
  · simpa [pagesWritten] using hwrites₃
  · simpa [pagesWritten] using hwrites₃

/-! ## The files after a recovery -/

/-- A part of recovery on a system that refuses nothing, up to a state of the files. -/
def reachesPost (disk : Disk) : Post Os StorageError Unit where
  ok _ os := os.disk = disk ∧ os.faults = []
  error _ _ := False
  stop _ _ := False

theorem wp_request_calm {os : Os} {op : DiskOp} (hcalm : os.faults = []) :
    Exec.wp (Os.request op) (reachesPost (os.disk.apply op)) os :=
  Os.wp_request (fun _ h => ⟨h.disk, h.calm hcalm⟩) (fun _ _ hfaults => absurd hcalm hfaults)

theorem wp_writeImages_calm {images : List (Nat × Page)} {os : Os} (hcalm : os.faults = []) :
    Exec.wp (writeImages images)
      (reachesPost { os.disk with db := UndoLog.replay images os.disk.db }) os := by
  induction images generalizing os with
  | nil => exact ⟨rfl, hcalm⟩
  | cons image images ih =>
      refine Exec.wp_seq (wp_request_calm hcalm) ?_ (fun _ _ h => h) (fun _ _ h => h)
      rintro - os' ⟨hdisk, hcalm'⟩
      have hnext := ih hcalm'
      rwa [hdisk] at hnext

/-- Recovery writes the images that it finds and cuts the file to its old length. -/
theorem recoverIfNeeded_scan {os : Os} {header : JournalHeader} {rest : Bytes}
    (h : os.disk.journal = some (header.bytes ++ rest)) (hcalm : os.faults = []) :
    Exec.wp recoverIfNeeded (reachesPost
      { db := UndoLog.restore header.origPageCount.toNat (scanRecords rest) os.disk.db,
        journal := none }) os := by
  unfold Exec.wp
  rw [recoverIfNeeded_some h, replayRecords_eq]
  refine Exec.wp_seq (wp_writeImages_calm hcalm) ?_ (fun _ _ h => h.elim) (fun _ _ h => h.elim)
  rintro - os₁ ⟨hdisk₁, hcalm₁⟩
  refine Exec.wp_seq (wp_request_calm hcalm₁) ?_ (fun _ _ h => h.elim) (fun _ _ h => h.elim)
  rintro - os₂ ⟨hdisk₂, hcalm₂⟩
  refine Exec.wp_seq (wp_request_calm hcalm₂) ?_ (fun _ _ h => h.elim) (fun _ _ h => h.elim)
  rintro - os₃ ⟨hdisk₃, hcalm₃⟩
  refine wp_discardJournal (fun os₄ h₄ => ⟨?_, h₄.calm hcalm₃⟩)
    (fun _ _ hfaults => absurd hcalm₃ hfaults)
  rw [h₄.disk, hdisk₃, hdisk₂, hdisk₁]
  rfl

end ChocoBase.Storage
