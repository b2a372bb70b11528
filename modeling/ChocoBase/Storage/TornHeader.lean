import ChocoBase.Storage.Checksum
import ChocoBase.Storage.CrashSafety

/-!
# Torn headers of the journal

A crash while the header of the journal is written leaves the first bytes of the new header
over what was there.  Recovery takes an empty file, and a header whose checksum is right,
which is the old or the new one.  Every other file is an error, and the database does not open.
-/

namespace ChocoBase.Storage

open ChocoBase.Foundation
open UndoLog (Undoes)

/-- The journal when `m` bytes of a new header are in the file. -/
def tornHeader (old new : Bytes) (m : Nat) : Bytes := new.take m ++ old.drop (new.take m).length

/-- The file is empty, or has a header that is the old or the new one up to its checksum. -/
def Legible (old new : Bytes) (m : Nat) : Prop :=
  tornHeader old new m = [] ∨ journalHeaderSize ≤ (tornHeader old new m).length ∧
    ((tornHeader old new m).take 24 = old.take 24 ∨ (tornHeader old new m).take 24 = new.take 24)

/-! ## Opening -/

section Opening

variable {base : List Page} {disk : Disk} {header : Header}

theorem opensTo_of_records {journal : JournalHeader} {recs : List Preimage}
    (hjournal : disk.journal = some (journal.bytes ++ recordsBytes recs))
    (horig : journal.origPageCount.toNat = base.length)
    (hundoes : Undoes base (undoLog recs) disk.db) (hheader : base[0]? = some header.toPage) :
    OpensTo disk (fileLogical base header) := by
  refine Restorable.opensTo (.inl ⟨recs, [], ⟨⟨journal, horig, ?_⟩, ?_⟩, hundoes⟩) hheader
  · rw [hjournal, List.append_nil]
  · simp [journalRecordSize]

theorem opensTo_of_empty (hjournal : disk.journal = some []) (hdb : disk.db = base)
    (hheader : base[0]? = some header.toPage) : OpensTo disk (fileLogical base header) := by
  intro issued orders
  have hrecover : Exec.wp recoverIfNeeded
      ⟨fun _ os => os.disk.db[0]? = some header.toPage ∧ os.disk.db = base,
        fun _ _ => False, fun _ _ => False⟩ { disk, faults := [], issued, orders } := by
    simp only [recoverIfNeeded, Exec.wp_bind, Exec.wp_get, Exec.Post.withOk_ok, hjournal,
      List.length_nil, if_true]
    refine wp_discardJournal (fun os' h => ?_) (fun os' _ hfaults => absurd rfl hfaults)
    have hsame : os'.disk.db = base := by
      rw [h.disk]
      exact hdb
    exact ⟨by rw [hsame, hheader], hsame⟩
  obtain ⟨p, os, hrun, hempty, rfl, rfl, hsame⟩ := Exec.exists_of_wp (Pager.wp_open hrecover)
  exact ⟨p, p.file, hrun, by rw [hempty.logical, hsame]⟩

/-- A journal whose header is not one keeps the database from opening. -/
theorem not_opensTo_of_error {file : Bytes} {reason : StorageError} {state : Logical}
    (hjournal : disk.journal = some file) (hfile : file ≠ [])
    (hread : JournalHeader.readFrom file = .error reason) : ¬OpensTo disk state := by
  intro h
  obtain ⟨p, os, hrun, -⟩ := h [] fun _ => .ascending
  have hlen : file.length ≠ 0 := by simpa using hfile
  have hrecover (os : Os) (hos : os.disk = disk) : recoverIfNeeded os = (.error reason, os) := by
    simp only [recoverIfNeeded, Exec.bind_apply, Exec.get_apply, hos, hjournal, if_neg hlen, hread]
    rfl
  rw [Pager.open, Exec.bind_apply, hrecover _ rfl] at hrun
  cases hrun

end Opening

/-! ## One string over another -/

section Overlay

variable {α : Type} {old new old' new' : List α} {m : Nat}

/-- The first `m` members of a new list over an old one of the same length. -/
def overlay (old new : List α) (m : Nat) : List α := new.take m ++ old.drop m

@[simp] theorem overlay_self (old : List α) (m : Nat) : overlay old old m = old :=
  List.take_append_drop m old

theorem overlay_zero (old new : List α) : overlay old new 0 = old := rfl

theorem overlay_all (h : old.length = new.length) (hm : new.length ≤ m) :
    overlay old new m = new := by
  rw [overlay, List.take_of_length_le hm, List.drop_eq_nil_of_le (h.le.trans hm),
    List.append_nil]

theorem overlay_length (h : old.length = new.length) : (overlay old new m).length = new.length := by
  simp [overlay, h]
  omega

theorem overlay_append (h : old.length = new.length) : overlay (old ++ old') (new ++ new') m =
    overlay old new m ++ overlay old' new' (m - new.length) := by
  unfold overlay
  rw [List.take_append, List.drop_append, h, List.append_assoc, List.append_assoc]
  by_cases hm : m ≤ new.length
  · simp [Nat.sub_eq_zero_of_le hm]
  · have hdrop : old.drop m = [] := List.drop_eq_nil_of_le (by omega)
    rw [hdrop, List.nil_append, List.nil_append]

end Overlay

/-! ## Headers -/

section Headers

/-- The bytes of a header before its record count. -/
def headerStart (origPageCount : UInt32) : Bytes :=
  journalMagic ++ beBytes 2 journalVersion ++ beBytes 2 journalHeaderSize ++
    beBytes 4 origPageCount.toNat

/-- The bytes of a header with some count and some checksum. -/
def headerWith (origPageCount : UInt32) (count crc : Bytes) : Bytes :=
  headerStart origPageCount ++ count ++ crc ++ List.replicate 40 0

def countBytes (header : JournalHeader) : Bytes := beBytes 4 header.recordCount.toNat

def crcBytes (header : JournalHeader) : Bytes := beBytes 4 (crc32 header.front).toNat

theorem bytes_eq (header : JournalHeader) : header.bytes =
    headerWith header.origPageCount (countBytes header) (crcBytes header) := rfl

theorem front_eq (header : JournalHeader) :
    header.front = headerStart header.origPageCount ++ countBytes header := rfl

@[simp] theorem headerStart_length (origPageCount : UInt32) :
    (headerStart origPageCount).length = 16 := by
  simp [headerStart, journalMagic]

@[simp] theorem countBytes_length (header : JournalHeader) : (countBytes header).length = 4 := by
  simp [countBytes]

@[simp] theorem crcBytes_length (header : JournalHeader) : (crcBytes header).length = 4 := by
  simp [crcBytes]

variable {old new : JournalHeader} {rest count crc : Bytes} {origPageCount : UInt32} {m : Nat}

theorem headerWith_length (hcount : count.length = 4) (hcrc : crc.length = 4) :
    (headerWith origPageCount count crc).length = journalHeaderSize := by
  simp [headerWith, hcount, hcrc, journalHeaderSize]

theorem take_headerWith (hcount : count.length = 4) (hcrc : crc.length = 4) :
    (headerWith origPageCount count crc ++ rest).take 24 =
      headerStart origPageCount ++ (count ++ crc) := by
  have hlen : (headerStart origPageCount ++ (count ++ crc)).length = 24 := by
    simp [hcount, hcrc]
  rw [headerWith, List.append_assoc, List.append_assoc (headerStart origPageCount), ← hlen]
  exact List.take_left

/-- Between two headers of one page count only the count and the checksum are torn. -/
theorem tornHeader_overlay (h : old.origPageCount = new.origPageCount)
    (hm : m ≤ journalHeaderSize) : tornHeader (old.bytes ++ rest) new.bytes m =
      headerWith new.origPageCount (overlay (countBytes old) (countBytes new) (m - 16))
        (overlay (crcBytes old) (crcBytes new) (m - 20)) ++ rest := by
  have htorn : tornHeader (old.bytes ++ rest) new.bytes m =
      overlay old.bytes new.bytes m ++ rest := by
    rw [tornHeader, List.length_take, new.bytes_length, Nat.min_eq_left hm,
      List.drop_append_of_le_length (by rwa [old.bytes_length]), overlay, List.append_assoc]
  rw [htorn, bytes_eq, bytes_eq, h, headerWith, headerWith, overlay_append (by simp),
    overlay_append (by simp), overlay_append rfl, overlay_self, overlay_self]
  simp [headerWith]

/-- A torn header has the old checksum or the new count. -/
theorem tornHeader_eq (h : old.origPageCount = new.origPageCount) (hm : m ≤ journalHeaderSize) :
    ∃ count crc, count.length = 4 ∧ crc.length = 4 ∧
      tornHeader (old.bytes ++ rest) new.bytes m = headerWith new.origPageCount count crc ++ rest ∧
      (crc = crcBytes old ∨ count = countBytes new) := by
  refine ⟨_, _, ?_, ?_, tornHeader_overlay h hm, ?_⟩
  · rw [overlay_length (by simp), countBytes_length]
  · rw [overlay_length (by simp), crcBytes_length]
  · by_cases hle : m ≤ 20
    · rw [Nat.sub_eq_zero_of_le hle, overlay_zero]
      exact .inl rfl
    · refine .inr (overlay_all (by simp) ?_)
      rw [countBytes_length]
      omega

theorem readFrom_headerWith (hcount : count.length = 4) (hcrc : crc.length = 4)
    (hbad : UInt32.ofNat (beValue crc) ≠ crc32 (headerStart origPageCount ++ count)) :
    JournalHeader.readFrom (headerWith origPageCount count crc ++ rest) =
      .error (.corruptJournal "journal header checksum mismatch") := by
  have hlen : ¬(headerWith origPageCount count crc ++ rest).length < journalHeaderSize := by
    rw [List.length_append, headerWith_length hcount hcrc]
    omega
  have hmagic : (headerWith origPageCount count crc ++ rest).take 8 = journalMagic := by
    simp [headerWith, headerStart, journalMagic]
  have hversion : ((headerWith origPageCount count crc ++ rest).drop 8).take 2 =
      beBytes 2 journalVersion := by
    simp [headerWith, headerStart, journalMagic]
  have hfront : (headerWith origPageCount count crc ++ rest).take 20 =
      headerStart origPageCount ++ count := by
    have hfront : (headerStart origPageCount ++ count).length = 20 := by simp [hcount]
    rw [headerWith, List.append_assoc, List.append_assoc, ← hfront]
    exact List.take_left
  have hstored : ((headerWith origPageCount count crc ++ rest).drop 20).take 4 = crc := by
    have hfront : (headerStart origPageCount ++ count).length = 20 := by simp [hcount]
    rw [headerWith, List.append_assoc, List.append_assoc, ← hfront, List.drop_left, ← hcrc,
      List.take_left]
  simp only [JournalHeader.readFrom, if_neg hlen, hmagic, hversion, hfront, hstored]
  simp [journalVersion, hbad]

theorem crc_value {header : JournalHeader} :
    UInt32.ofNat (beValue (crcBytes header)) = crc32 header.front := by
  simp [crcBytes]

/-- A torn header with the right checksum is the old one or the new one. -/
theorem eq_of_checksum (h : old.origPageCount = new.origPageCount) (hcount : count.length = 4)
    (hcrc : crc.length = 4) (heither : crc = crcBytes old ∨ count = countBytes new)
    (hgood : UInt32.ofNat (beValue crc) = crc32 (headerStart new.origPageCount ++ count)) :
    count = countBytes old ∧ crc = crcBytes old ∨ count = countBytes new ∧ crc = crcBytes new := by
  rcases heither with rfl | rfl
  · rw [crc_value, front_eq, h] at hgood
    exact .inl ⟨(crc32_append_four (by simp) hcount hgood).symm, rfl⟩
  · rw [← front_eq, ← crc_value] at hgood
    have hlt := beValue_lt crc
    have hlt' := beValue_lt (crcBytes new)
    rw [hcrc] at hlt
    rw [crcBytes_length] at hlt'
    have hvalue := congrArg UInt32.toNat hgood
    rw [UInt32.toNat_ofNat', UInt32.toNat_ofNat', Nat.mod_eq_of_lt (by simpa using hlt),
      Nat.mod_eq_of_lt (by simpa using hlt')] at hvalue
    exact .inr ⟨rfl, beValue_injective (hcrc.trans (crcBytes_length new).symm) hvalue⟩

theorem legible_iff (h : old.origPageCount = new.origPageCount) (hcount : count.length = 4)
    (hcrc : crc.length = 4)
    (htorn : tornHeader (old.bytes ++ rest) new.bytes m =
      headerWith new.origPageCount count crc ++ rest) :
    Legible (old.bytes ++ rest) new.bytes m ↔
      count = countBytes old ∧ crc = crcBytes old ∨
        count = countBytes new ∧ crc = crcBytes new := by
  have hlen := @headerWith_length _ _ new.origPageCount hcount hcrc
  have hpair (header : JournalHeader) :
      headerStart new.origPageCount ++ (count ++ crc) =
        headerStart new.origPageCount ++ (countBytes header ++ crcBytes header) ↔
          count = countBytes header ∧ crc = crcBytes header := by
    rw [List.append_cancel_left_eq]
    refine ⟨fun h => List.append_inj h (by simp [hcount]), ?_⟩
    rintro ⟨rfl, rfl⟩
    rfl
  have hnew : new.bytes.take 24 =
      headerStart new.origPageCount ++ (countBytes new ++ crcBytes new) := by
    rw [← List.append_nil new.bytes, bytes_eq, take_headerWith (by simp) (by simp)]
  have hne : headerWith new.origPageCount count crc ++ rest ≠ [] := by
    intro hnil
    have := congrArg List.length hnil
    simp [hlen, journalHeaderSize] at this
  unfold Legible
  rw [htorn, take_headerWith hcount hcrc, bytes_eq old, take_headerWith (by simp) (by simp), hnew,
    h, hpair, hpair]
  simp [hne, hlen]

/-- The new count with the old checksum is no header. -/
theorem not_legible_twenty (h : old.origPageCount = new.origPageCount)
    (hne : old.recordCount ≠ new.recordCount) :
    ¬Legible (old.bytes ++ rest) new.bytes 20 := by
  have htorn := @tornHeader_overlay _ _ rest _ h (show 20 ≤ journalHeaderSize by
    simp [journalHeaderSize])
  rw [overlay_all (by simp) (by simp), Nat.sub_self, overlay_zero] at htorn
  have hcounts : countBytes new ≠ countBytes old := by
    intro heq
    refine hne (UInt32.toNat_inj.mp ?_)
    exact (beBytes_injective (by simpa using new.recordCount.toNat_lt)
      (by simpa using old.recordCount.toNat_lt) heq).symm
  rw [legible_iff h (by simp) (by simp) htorn]
  rintro (⟨hcount, -⟩ | ⟨-, hcrc⟩)
  · exact hcounts hcount
  · have hvalue := congrArg (fun crc => UInt32.ofNat (beValue crc)) hcrc
    rw [crc_value, crc_value, front_eq, front_eq, h] at hvalue
    exact hcounts (crc32_append_four (by simp) (by simp) hvalue).symm

end Headers

/-! ## Crashes -/

section Crashes

variable {base : List Page} {disk : Disk} {header : Header} {old new : JournalHeader} {m : Nat}

/-- A header is written over another one while the records undo the changes of the file. -/
theorem opensTo_rewritten_iff {recs : List Preimage}
    (hjournal : disk.journal = some (old.bytes ++ recordsBytes recs))
    (hold : old.origPageCount.toNat = base.length) (hnew : new.origPageCount.toNat = base.length)
    (hundoes : Undoes base (undoLog recs) disk.db) (hheader : base[0]? = some header.toPage)
    (hm : m ≤ journalHeaderSize) :
    OpensTo (disk.apply (.writeJournalHeader (new.bytes.take m))) (fileLogical base header) ↔
      Legible (old.bytes ++ recordsBytes recs) new.bytes m := by
  have hcount : old.origPageCount = new.origPageCount :=
    UInt32.toNat_inj.mp (hold.trans hnew.symm)
  obtain ⟨count, crc, hcountLen, hcrcLen, htorn, heither⟩ :=
    @tornHeader_eq _ _ (recordsBytes recs) _ hcount hm
  have hfile : (disk.apply (.writeJournalHeader (new.bytes.take m))).journal =
      some (headerWith new.origPageCount count crc ++ recordsBytes recs) := by
    rw [← htorn, Disk.apply, hjournal]
    rfl
  rw [legible_iff hcount hcountLen hcrcLen htorn]
  constructor
  · intro hopens
    by_contra hneither
    have hbad : UInt32.ofNat (beValue crc) ≠ crc32 (headerStart new.origPageCount ++ count) :=
      fun hgood => hneither (eq_of_checksum hcount hcountLen hcrcLen heither hgood)
    have hne : headerWith new.origPageCount count crc ++ recordsBytes recs ≠ [] := by
      intro hnil
      have hlen := congrArg List.length hnil
      rw [List.length_append, headerWith_length hcountLen hcrcLen] at hlen
      simp [journalHeaderSize] at hlen
    exact not_opensTo_of_error hfile hne (readFrom_headerWith hcountLen hcrcLen hbad) hopens
  · rintro (⟨rfl, rfl⟩ | ⟨rfl, rfl⟩)
    · rw [← hcount, ← bytes_eq] at hfile
      exact opensTo_of_records hfile hold hundoes hheader
    · rw [← bytes_eq] at hfile
      exact opensTo_of_records hfile hnew hundoes hheader

/-- The header of a new journal is written to an empty file. -/
theorem opensTo_created_iff (hjournal : disk.journal = some [])
    (hnew : new.origPageCount.toNat = base.length) (hdb : disk.db = base)
    (hheader : base[0]? = some header.toPage) (hm : m ≤ journalHeaderSize) :
    OpensTo (disk.apply (.writeJournalHeader (new.bytes.take m))) (fileLogical base header) ↔
      Legible [] new.bytes m := by
  have htorn : tornHeader [] new.bytes m = new.bytes.take m := by simp [tornHeader]
  have hfile : (disk.apply (.writeJournalHeader (new.bytes.take m))).journal =
      some (new.bytes.take m) := by simp [Disk.apply, hjournal]
  have hlen : (new.bytes.take m).length = m := by simp [hm]
  unfold Legible
  rw [htorn, hlen]
  by_cases hzero : m = 0
  · subst hzero
    refine iff_of_true (opensTo_of_empty hfile hdb hheader) (.inl List.take_zero)
  · have hne : new.bytes.take m ≠ [] := by
      intro hnil
      rw [hnil] at hlen
      exact hzero hlen.symm
    by_cases hall : m = journalHeaderSize
    · have htake : new.bytes.take m = new.bytes := List.take_of_length_le (by simp [hall])
      refine iff_of_true (@opensTo_of_records _ _ _ _ [] ?_ hnew (hdb ▸ .refl base) hheader)
        (.inr ⟨hall.ge, .inr (by rw [htake])⟩)
      rw [hfile, htake, recordsBytes_nil, List.append_nil]
    · have hread : JournalHeader.readFrom (new.bytes.take m) = .error (.io .unexpectedEof) := by
        rw [JournalHeader.readFrom, if_pos (by omega)]
      refine iff_of_false (not_opensTo_of_error hfile hne hread) ?_
      rintro (hnil | ⟨hge, -⟩)
      · exact hne hnil
      · omega

end Crashes

/-! ## Transactions -/

/-- The requests of a `BEGIN` that succeeds. -/
theorem issues_beginTransaction {p₀ p : Pager} (hidle : p₀.inTransaction = false)
    (hbegin : Pager.beginTransaction p₀ = (.ok (), p)) :
    p₀.file.Issues p.file [.createJournal,
      .writeJournalHeader (JournalHeader.new p₀.header.pageCount).bytes, .syncJournal] := by
  have hrun : Exec.wp Pager.beginTransaction
      ⟨fun _ p => p₀.file.Issues p.file [.createJournal,
        .writeJournalHeader (JournalHeader.new p₀.header.pageCount).bytes, .syncJournal],
        fun _ _ => True, fun _ _ => True⟩ p₀ := by
    simp only [Pager.beginTransaction, Exec.wp_bind, Exec.wp_get, Exec.Post.withOk_ok, hidle,
      Bool.false_eq_true, if_false, Exec.wp_modify, Pager.wp_onFile, Journal.create,
      JournalHeader.writeTo]
    refine Os.wp_request (fun os₁ h₁ => ?_) fun _ _ _ => trivial
    refine Os.wp_request (fun os₂ h₂ => ?_) fun _ _ _ => trivial
    exact Os.wp_request (fun os₃ h₃ => (h₁.trans h₂).trans h₃) fun _ _ _ => trivial
  exact Exec.wp_ok hrun hbegin

/-- A request of a transaction finds the journal as the requests before it left it. -/
theorem journalState_take {base : List Page} {recs recs' : List Preimage} {disk : Disk}
    {ops : List DiskOp} (h : JournalState base recs [] disk) (hops : LogSteps base recs ops recs')
    {n : Nat} {op : DiskOp} (hop : ops[n]? = some op) :
    ∃ before after, JournalState base before [] (disk.after (ops.take n)) ∧
      LogStep base before op after := by
  induction hops generalizing disk n with
  | nil => simp at hop
  | cons hstep _ ih =>
      cases n with
      | zero =>
          cases Option.some.inj hop
          exact ⟨_, _, h, hstep⟩
      | succ n => exact ih (h.step hstep) hop

/-- The requests of a transaction before it removes its journal. -/
theorem transaction_logs {base : List Page} {start : Os} {p : Pager}
    (h : p.Guarded base start true) (hstart : JournalHolds base [] [] start.disk)
    {ops : List PagerOp} (hops : ∀ op ∈ ops, op.AvoidsHeader) (commits : Bool) :
    ∃ work recs last, start.Issues (transaction ops commits p).2.file (work ++ last) ∧
      LogSteps base [] work recs ∧ (last = [] ∨ last = [.removeJournal]) := by
  rcases transaction_trace h hstart hops commits with ⟨work, recs, hissues, hwork⟩ | ⟨-, h⟩
  · exact ⟨work, recs, [], by rwa [List.append_nil], hwork, .inl rfl⟩
  · obtain ⟨work, recs, hissues, hwork⟩ := h.trace
    exact ⟨work, recs, _, hissues, hwork, .inr rfl⟩

/--
A crash while a header is written, by `BEGIN` or by the commit of any transaction, leaves a
database that opens to its state at `BEGIN` exactly if the header is legible.
-/
theorem torn_header_iff {p₀ p : Pager} (hp : p₀.Coherent) (hidle : p₀.inTransaction = false)
    (hbegin : Pager.beginTransaction p₀ = (.ok (), p)) (hcurrent : p.FileCurrent)
    {ops : List PagerOp} (hops : ∀ op ∈ ops, op.AvoidsHeader) {commits : Bool} {n m : Nat}
    {old new : Bytes}
    (hwrite : (p₀.issuedSince (transaction ops commits p).2)[n]? = some (.writeJournalHeader new))
    (hold : (p₀.file.disk.after
      ((p₀.issuedSince (transaction ops commits p).2).take n)).journal = some old)
    (hm : m ≤ journalHeaderSize) :
    OpensTo ((p₀.file.disk.after ((p₀.issuedSince (transaction ops commits p).2).take n)).apply
        (.writeJournalHeader (new.take m))) p₀.logical ↔ Legible old new m := by
  have hbegan := Exec.wp_ok (Pager.wp_beginTransaction hidle) hbegin
  have hguarded := hbegan.guarded_of_fileCurrent hp hcurrent
  have hlength : p.file.disk.db.length = p₀.header.pageCount.toNat := by
    rw [hcurrent.length, hbegan.header]
  have hholds : JournalHolds p.file.disk.db [] [] p.file.disk := hbegan.holds hlength
  have hstate : JournalState p.file.disk.db [] [] p.file.disk := ⟨hholds, .refl _⟩
  have hlogical : p₀.logical = fileLogical p.file.disk.db p.header :=
    hbegan.logical.symm.trans hcurrent.logical
  obtain ⟨work, recs, last, hissues, hwork, hlast⟩ :=
    transaction_logs hguarded hholds hops commits
  have hbeginning := issues_beginTransaction hidle hbegin
  rw [(hbeginning.trans hissues).issuedSince] at hwrite hold ⊢
  rw [hlogical]
  match n with
  | 0 => simp at hwrite
  | 1 =>
      obtain rfl : (JournalHeader.new p₀.header.pageCount).bytes = new := by simpa using hwrite
      obtain rfl : [] = old := by simpa [Disk.apply] using hold
      exact opensTo_created_iff (by simp [Disk.apply]) hlength.symm
        (by simp [Disk.apply, hbegan.db]) hcurrent.header hm
  | 2 => simp at hwrite
  | n + 3 =>
      have hlater : (work ++ last)[n]? = some (.writeJournalHeader new) := by simpa using hwrite
      have hstep : work[n]? = some (.writeJournalHeader new) := by
        rcases hlast with rfl | rfl
        · simpa using hlater
        · by_cases hn : n < work.length
          · rwa [List.getElem?_append_left hn] at hlater
          · rw [List.getElem?_append_right (by omega)] at hlater
            cases hsub : n - work.length <;> simp [hsub] at hlater
      have hn : n < work.length := (List.getElem?_eq_some_iff.mp hstep).1
      obtain ⟨before, after, hbefore, hlog⟩ := journalState_take hstate hwork hstep
      have hdisk : p₀.file.disk.after (List.take (n + 3) ([.createJournal,
          .writeJournalHeader (JournalHeader.new p₀.header.pageCount).bytes, .syncJournal] ++
            (work ++ last))) = p.file.disk.after (work.take n) := by
        rw [hbeginning.disk, ← Disk.after_append]
        simp [List.take_append_of_le_length hn.le]
      rw [hdisk] at hold ⊢
      obtain ⟨⟨header, horig, hjournal⟩, -⟩ := hbefore.holds
      rw [List.append_nil] at hjournal
      obtain rfl : header.bytes ++ recordsBytes before = old :=
        Option.some.inj (hjournal.symm.trans hold)
      cases hlog with
      | header hnew =>
          exact opensTo_rewritten_iff hjournal horig hnew hbefore.undoes hcurrent.header hm

/-- None of the bytes of the header of a new journal reaches the file. -/
theorem torn_header_created :
    OpensTo ((Pager.created.file.disk.apply .createJournal).apply (.writeJournalHeader []))
      Pager.created.logical := by
  let p := (Pager.beginTransaction Pager.created).2
  have hcurrent : p.FileCurrent :=
    ⟨rfl, rfl, fun no => Pager.content_of_not_mem (AList.notMem_empty no)⟩
  refine (@torn_header_iff _ _ Pager.created_coherent rfl rfl hcurrent [] (by simp) false 1 0 []
    (JournalHeader.new 1).bytes rfl rfl (Nat.zero_le _)).mpr (.inl ?_)
  simp [tornHeader]

/-- Ten bytes of a new header, or twenty of one with another count, and nothing opens. -/
theorem torn_header_closed :
    ¬OpensTo ((Pager.created.file.disk.apply .createJournal).apply
        (.writeJournalHeader ((JournalHeader.new 1).bytes.take 10))) Pager.created.logical ∧
      ¬OpensTo (Disk.apply ⟨[Header.new.toPage], some (JournalHeader.new 1).bytes⟩
        (.writeJournalHeader ((JournalHeader.mk 1 1).bytes.take 20))) Pager.created.logical := by
  have hten : 10 ≤ journalHeaderSize := by simp [journalHeaderSize]
  have htwenty : 20 ≤ journalHeaderSize := by simp [journalHeaderSize]
  constructor
  · intro hopens
    have htorn : (tornHeader [] (JournalHeader.new 1).bytes 10).length = 10 := by
      simp [tornHeader, journalHeaderSize]
    rcases (@opensTo_created_iff _ (Pager.created.file.disk.apply .createJournal)
      _ (.new 1) _ rfl rfl rfl Pager.created_fileCurrent.header hten).mp hopens with
      hnil | ⟨hlen, -⟩
    · rw [hnil] at htorn
      cases htorn
    · rw [htorn] at hlen
      simp [journalHeaderSize] at hlen
  · intro hopens
    have hlegible := (@opensTo_rewritten_iff _
      ⟨[Header.new.toPage], some (JournalHeader.new 1).bytes⟩ _ (.new 1) ⟨1, 1⟩ _ [] (by simp) rfl rfl (.refl _)
      Pager.created_fileCurrent.header htwenty).mp hopens
    exact @not_legible_twenty (.new 1) ⟨1, 1⟩ _ rfl (by decide) hlegible

end ChocoBase.Storage
