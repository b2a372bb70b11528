import ChocoBase.Storage.Checksum
import ChocoBase.Storage.RecordScan

/-!
# Journals with a changed byte

The checksum of a record covers its page and not the number of the page.  Recovery stops at a
record of which a byte changed if this byte is one of the page or of the checksum.  With a
changed number the record counts, and its page is written over another one.
-/

namespace ChocoBase.Storage

open ChocoBase.Foundation

/-- Append the images of some pages, one after another. -/
def appendAll (journal : Journal) : List Preimage → Exec Os StorageError Journal
  | [] => pure journal
  | r :: recs => do
      let journal ← journal.appendPage r.1 r.2
      appendAll journal recs

/-- What appends leave behind is the records one after another. -/
theorem journal_appendAll {recs : List Preimage} {journal : Journal} {os : Os} {file : Bytes}
    (hcalm : os.faults = []) (hfile : os.disk.journal = some file) :
    (appendAll journal recs os).2.disk.journal = some (file ++ recordsBytes recs) := by
  induction recs generalizing journal os file with
  | nil => simp [appendAll, hfile]
  | cons r recs ih =>
      have happend : (journal.appendPage r.1 r.2 os) =
          (.ok ⟨{ journal.header with recordCount := journal.header.recordCount + 1 }⟩,
            { os with
              disk := os.disk.apply (.appendJournal (recordBytes r.1 r.2))
              faults := []
              issued := os.issued ++ [.appendJournal (recordBytes r.1 r.2)] }) := by
        simp [Journal.appendPage, Exec.bind_apply, Os.request, hcalm]
      rw [appendAll, Exec.bind_apply, happend]
      rw [@ih _ _ (file ++ recordBytes r.1 r.2) rfl (by simp [Disk.apply, hfile])]
      simp

/-- A journal of records with byte `j` of record `k` changed. -/
def changedJournal (header : JournalHeader) (recs : List Preimage) (k j : Nat) (new : UInt8) :
    Bytes :=
  header.bytes ++ (recordsBytes recs).set (k * journalRecordSize + j) new

/-! ## One record -/

section Record

variable {no : PageNo} {page : Page} {j : Nat} {old new : UInt8}

/-- With a byte of its number changed, a record is the record of another page. -/
theorem recordBytes_set_no (hj : j < 4) :
    (recordBytes no page).set j new =
      recordBytes (UInt32.ofNat (beValue ((beBytes 4 no.toNat).set j new))) page := by
  have hlen : ((beBytes 4 no.toNat).set j new).length = 4 := by simp
  have hlt := beValue_lt ((beBytes 4 no.toNat).set j new)
  rw [hlen] at hlt
  have hno : (UInt32.ofNat (beValue ((beBytes 4 no.toNat).set j new))).toNat =
      beValue ((beBytes 4 no.toNat).set j new) := by
    rw [UInt32.toNat_ofNat', Nat.mod_eq_of_lt (by simpa using hlt)]
  have hbytes := beBytes_beValue ((beBytes 4 no.toNat).set j new)
  rw [hlen] at hbytes
  rw [recordBytes, recordBytes, hno, hbytes, List.append_assoc, List.append_assoc,
    List.set_append_left _ _ (by simpa using hj)]

theorem getElem?_recordBytes (hj : 4 ≤ j) (hdata : j < 4 + pageSize) :
    (recordBytes no page)[j]? = page.bytes[j - 4]? := by
  rw [← recordData_recordBytes no page, recordData, List.getElem?_take_of_lt (by omega),
    List.getElem?_drop, Nat.add_sub_cancel' hj]

theorem recordData_set (hj : 4 ≤ j) : recordData ((recordBytes no page).set j new) =
    page.bytes.set (j - 4) new := by
  have hdrop : ((recordBytes no page).set j new).drop 4 =
      (page.bytes ++ beBytes 4 (crc32 page.bytes).toNat).set (j - 4) new := by
    rw [recordBytes, List.append_assoc, List.set_append_right _ _ (by simpa using hj)]
    simp
  rw [recordData, hdrop, List.take_set]
  simp

theorem recordCrc_set_data (hdata : j < 4 + pageSize) :
    recordCrc ((recordBytes no page).set j new) = crc32 page.bytes := by
  rw [recordCrc, List.drop_set, if_pos hdata]
  exact recordCrc_recordBytes no page

theorem recordCrc_set_crc (hj : 4 + pageSize ≤ j)
    (hold : (recordBytes no page)[j]? = some old) (hne : old ≠ new) :
    recordCrc ((recordBytes no page).set j new) ≠ crc32 page.bytes := by
  let stored : Bytes := (recordBytes no page).drop (4 + pageSize)
  have hstored : stored.length = 4 := by
    rw [List.length_drop, recordBytes_length, journalRecordSize]
    omega
  have hchanged : ((recordBytes no page).set j new).drop (4 + pageSize) =
      stored.set (j - (4 + pageSize)) new := by
    rw [List.drop_set, if_neg (by omega)]
  have hget : stored[j - (4 + pageSize)]? = some old := by
    rw [List.getElem?_drop, Nat.add_sub_cancel' hj, hold]
  intro h
  have heq : recordCrc ((recordBytes no page).set j new) = recordCrc (recordBytes no page) :=
    h.trans (recordCrc_recordBytes no page).symm
  rw [recordCrc, recordCrc, hchanged] at heq
  have hlt := beValue_lt (stored.set (j - (4 + pageSize)) new)
  have hlt' := beValue_lt stored
  rw [List.length_set, hstored] at hlt
  rw [hstored] at hlt'
  have hvalue := congrArg UInt32.toNat heq
  rw [UInt32.toNat_ofNat', UInt32.toNat_ofNat', Nat.mod_eq_of_lt (by simpa using hlt),
    Nat.mod_eq_of_lt (by simpa using hlt')] at hvalue
  have hsame := @beValue_injective _ stored (List.length_set ..) hvalue
  have hnew : (stored.set (j - (4 + pageSize)) new)[j - (4 + pageSize)]? = some new := by
    rw [List.getElem?_set_self (List.getElem?_eq_some_iff.mp hget).1]
  rw [hsame, hget] at hnew
  exact hne (Option.some.inj hnew)

/-- A record with a byte of its page or its checksum changed fails the check. -/
theorem recordCrc_ne_of_set (hj : 4 ≤ j) (hold : (recordBytes no page)[j]? = some old)
    (hne : old ≠ new) : recordCrc ((recordBytes no page).set j new) ≠
      crc32 (recordData ((recordBytes no page).set j new)) := by
  rw [recordData_set hj]
  by_cases hdata : j < 4 + pageSize
  · have hbyte : page.bytes[j - 4]? = some old := by
      rw [← getElem?_recordBytes hj hdata, hold]
    rw [recordCrc_set_data hdata]
    exact (crc32_set_ne hbyte hne).symm
  · have hlen : page.bytes.length ≤ j - 4 := by
      rw [Page.bytes_length]
      omega
    rw [List.set_eq_of_length_le hlen]
    exact recordCrc_set_crc (by omega) hold hne

end Record

/-! ## Journals -/

theorem recordsBytes_append (recs recs' : List Preimage) :
    recordsBytes (recs ++ recs') = recordsBytes recs ++ recordsBytes recs' := by
  simp [recordsBytes]

@[simp] theorem recordsBytes_length (recs : List Preimage) :
    (recordsBytes recs).length = recs.length * journalRecordSize := by
  induction recs with
  | nil => simp
  | cons r recs ih =>
      rw [recordsBytes_cons, List.length_append, recordBytes_length, ih, List.length_cons]
      ring

theorem recordsBytes_set {recs before after : List Preimage} {r : Preimage} {j : Nat}
    {new : UInt8} (hrecs : recs = before ++ r :: after) (hj : j < journalRecordSize) :
    (recordsBytes recs).set (before.length * journalRecordSize + j) new =
      recordsBytes before ++ ((recordBytes r.1 r.2).set j new ++ recordsBytes after) := by
  rw [hrecs, recordsBytes_append, recordsBytes_cons,
    List.set_append_right _ _ (by simp), recordsBytes_length, Nat.add_sub_cancel_left,
    List.set_append_left _ _ (by simpa using hj)]

/-- What a recovery writes, and that it writes all of it if no request is refused. -/
theorem written_of_journal {os : Os} {header : JournalHeader} {rest : Bytes}
    (h : os.disk.journal = some (header.bytes ++ rest)) :
    ∃ ops, os.Issues (recoverIfNeeded os).2 ops ∧ pagesWritten ops <+: scanRecords rest ∧
      (os.faults = [] → pagesWritten ops = scanRecords rest) := by
  have hrun := recoverIfNeeded_writes h
  unfold Exec.wp at hrun
  rcases hresult : recoverIfNeeded os with ⟨_ | _ | _, os'⟩
  · rw [hresult] at hrun
    obtain ⟨ops, hissues, hwritten⟩ := hrun
    exact ⟨ops, hissues, hwritten ▸ List.prefix_rfl, fun _ => hwritten⟩
  · rw [hresult] at hrun
    obtain ⟨hfaults, ops, hissues, hwritten⟩ := hrun
    exact ⟨ops, hissues, hwritten, fun hcalm => absurd hcalm hfaults⟩
  · rw [hresult] at hrun
    exact hrun.elim

/--
Recovery writes the pages of the records before the one that changed and stops there,
exactly if the byte that changed is not one of the page's number.
-/
theorem stops_at_change_iff {header : JournalHeader} {recs : List Preimage} {k j : Nat}
    {old new : UInt8} (hj : j < journalRecordSize)
    (hold : (recordsBytes recs)[k * journalRecordSize + j]? = some old) (hne : old ≠ new) :
    (∀ os : Os, os.disk.journal = some (changedJournal header recs k j new) →
      ∃ ops, os.Issues (recoverIfNeeded os).2 ops ∧
        pagesWritten ops <+: undoLog (recs.take k) ∧
        (os.faults = [] → pagesWritten ops = undoLog (recs.take k))) ↔ 4 ≤ j := by
  have hk : k < recs.length := by
    have hlt := (List.getElem?_eq_some_iff.mp hold).1
    rw [recordsBytes_length] at hlt
    exact Nat.lt_of_mul_lt_mul_right (Nat.lt_of_le_of_lt (Nat.le_add_right _ j) hlt)
  have hrecs : recs = recs.take k ++ recs[k] :: recs.drop (k + 1) := by
    rw [List.getElem_cons_drop, List.take_append_drop]
  have hset := @recordsBytes_set _ _ _ _ _ new hrecs hj
  rw [List.length_take, Nat.min_eq_left hk.le] at hset
  have hbyte : (recordBytes recs[k].1 recs[k].2)[j]? = some old := by
    rw [hrecs, recordsBytes_append, recordsBytes_cons, List.getElem?_append_right (by
      simp [Nat.min_eq_left hk.le])] at hold
    rw [← hold, List.getElem?_append_left]
    · simp [Nat.min_eq_left hk.le]
    · simpa [Nat.min_eq_left hk.le] using hj
  constructor
  · intro h
    by_contra hno
    let os : Os := ⟨⟨[], some (changedJournal header recs k j new)⟩, [], [], fun _ => .ascending⟩
    obtain ⟨ops, hissues, hprefix, -⟩ := h os rfl
    -- the record counts as one of another page, and the scan goes on behind it
    let no := UInt32.ofNat (beValue ((beBytes 4 recs[k].1.toNat).set j new))
    have hjournal : os.disk.journal = some (header.bytes ++ (recordsBytes
        (recs.take k ++ (no, recs[k].2) :: recs.drop (k + 1)) ++ [])) := by
      rw [recordsBytes_append, recordsBytes_cons, ← @recordBytes_set_no _ _ _ new (by omega),
        ← hset, List.append_nil]
      rfl
    obtain ⟨ops', hissues', -, hwritten⟩ := written_of_journal hjournal
    obtain rfl : ops' = ops := by
      simpa using hissues'.issued.symm.trans hissues.issued
    rw [hwritten rfl, scanRecords_records] at hprefix
    have hlen := hprefix.length_le
    simp [undoLog] at hlen
    omega
  · intro hno os hjournal
    have hrest : os.disk.journal = some (header.bytes ++ (recordsBytes (recs.take k) ++
        ((recordBytes recs[k].1 recs[k].2).set j new ++ recordsBytes (recs.drop (k + 1))))) := by
      rw [hjournal, changedJournal, hset]
    have hscan := @scanRecords_bad _ (recordsBytes (recs.drop (k + 1)))
      (by simp) (recordCrc_ne_of_set hno hbyte hne)
    obtain ⟨ops, hissues, hprefix, hall⟩ := written_of_journal hrest
    rw [scanRecords_records, hscan, List.append_nil] at hprefix hall
    exact ⟨ops, hissues, hprefix, hall⟩

/-- The first byte of the only page changes. -/
theorem stops_at_changed_page :
    let os : Os := ⟨⟨[], some (changedJournal (.new 2) [(1, Page.zeroed)] 0 4 7)⟩, [], [],
      fun _ => .ascending⟩
    ∃ ops, os.Issues (recoverIfNeeded os).2 ops ∧ pagesWritten ops = [] := by
  intro os
  have hbyte : (recordsBytes [(1, Page.zeroed)])[0 * journalRecordSize + 4]? = some 0 := by
    rw [recordsBytes_cons, recordsBytes_nil, List.append_nil, Nat.zero_mul, Nat.zero_add,
      getElem?_recordBytes (le_refl 4) (by simp [pageSize]), Page.bytes,
      List.getElem?_eq_getElem (by rw [List.length_ofFn, pageSize]; omega), List.getElem_ofFn]
    rfl
  obtain ⟨ops, hissues, -, hwritten⟩ := (@stops_at_change_iff (.new 2) _ _ _ _ 7
    (by simp [journalRecordSize]) hbyte (by decide)).mpr (le_refl 4) os rfl
  exact ⟨ops, hissues, hwritten rfl⟩

/-- The record of page 1 becomes one of page 2. -/
theorem changed_number_written :
    let os : Os := ⟨⟨[], some (changedJournal (.new 2) [(1, Page.zeroed)] 0 3 2)⟩, [], [],
      fun _ => .ascending⟩
    ∃ ops, os.Issues (recoverIfNeeded os).2 ops ∧ (2, Page.zeroed) ∈ pagesWritten ops ∧
      (2, Page.zeroed) ∉ undoLog [(1, Page.zeroed)] := by
  intro os
  have hjournal : os.disk.journal =
      some ((JournalHeader.new 2).bytes ++ recordsBytes [(2, Page.zeroed)]) := by
    have hset := @recordsBytes_set [(1, Page.zeroed)] [] _ _ 3 2 rfl
      (by simp [journalRecordSize])
    rw [recordBytes_set_no (by omega), recordsBytes_nil, List.append_nil, List.nil_append,
      List.length_nil] at hset
    change some ((JournalHeader.new 2).bytes ++ (recordsBytes [(1, Page.zeroed)]).set
      (0 * journalRecordSize + 3) 2) = _
    have hno : UInt32.ofNat (beValue ((beBytes 4 (1 : UInt32).toNat).set 3 2)) = 2 := by decide
    rw [hset, recordsBytes_cons, recordsBytes_nil, List.append_nil]
    exact congrArg (fun no => some ((JournalHeader.new 2).bytes ++ recordBytes no Page.zeroed)) hno
  obtain ⟨ops, hissues, -, hwritten⟩ := written_of_journal hjournal
  refine ⟨ops, hissues, ?_, by simp [undoLog]⟩
  rw [hwritten rfl, ← List.append_nil (recordsBytes _), scanRecords_records]
  simp [undoLog]

end ChocoBase.Storage
