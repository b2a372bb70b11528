import ChocoBase.Storage.Disk

/-!
# The rollback journal

The journal starts with a 64-byte header that names the page count at `BEGIN`.
Then come the pre-images of the pages the transaction changed, one record each:
page number, page data, CRC-32 of the data.  Recovery scans the records up to
the first one that is cut off or fails its checksum, writes them back into the
database file and cuts the file to its old length.
-/

namespace ChocoBase.Storage

open ChocoBase.Foundation

/-- `CHOCOJNL` -/
def journalMagic : Bytes := [67, 72, 79, 67, 79, 74, 78, 76]

def journalVersion : Nat := 1
def journalHeaderSize : Nat := 64
def journalRecordSize : Nat := 4 + pageSize + 4

def crc32Bit (crc : UInt32) : UInt32 :=
  let mask := 0 - (crc &&& 1)
  (crc >>> 1) ^^^ (0xEDB88320 &&& mask)

def crc32Byte (crc : UInt32) (byte : UInt8) : UInt32 :=
  (List.range 8).foldl (fun crc _ => crc32Bit crc) (crc ^^^ byte.toUInt32)

def crc32 (data : Bytes) : UInt32 := ~~~(data.foldl crc32Byte 0xFFFFFFFF)

structure JournalHeader where
  origPageCount : UInt32
  recordCount : UInt32
  deriving DecidableEq, Repr

namespace JournalHeader

def new (origPageCount : UInt32) : JournalHeader :=
  { origPageCount, recordCount := 0 }

/-- The checksummed front part of the header. -/
def front (header : JournalHeader) : Bytes :=
  journalMagic ++ beBytes 2 journalVersion ++ beBytes 2 journalHeaderSize ++
    beBytes 4 header.origPageCount.toNat ++ beBytes 4 header.recordCount.toNat

def bytes (header : JournalHeader) : Bytes :=
  header.front ++ beBytes 4 (crc32 header.front).toNat ++ List.replicate 40 0

def writeTo (header : JournalHeader) : Exec Os StorageError Unit :=
  Os.request (.writeJournalHeader header.bytes)

def readFrom (file : Bytes) : Except StorageError JournalHeader :=
  if file.length < journalHeaderSize then .error (.io .unexpectedEof)
  else if file.take 8 ≠ journalMagic then
    .error (.corruptJournal "invalid journal magic bytes")
  else
    let version := beValue ((file.drop 8).take 2)
    if version ≠ journalVersion then
      .error (.corruptJournal s!"unsupported journal version {version}")
    else if UInt32.ofNat (beValue ((file.drop 20).take 4)) ≠ crc32 (file.take 20) then
      .error (.corruptJournal "journal header checksum mismatch")
    else .ok
      { origPageCount := UInt32.ofNat (beValue ((file.drop 12).take 4))
        recordCount := UInt32.ofNat (beValue ((file.drop 16).take 4)) }

@[simp] theorem front_length (header : JournalHeader) : header.front.length = 20 := by
  simp [front, journalMagic]

@[simp] theorem bytes_length (header : JournalHeader) :
    header.bytes.length = journalHeaderSize := by
  simp [bytes, journalHeaderSize]

theorem readFrom_bytes (header : JournalHeader) (rest : Bytes) :
    readFrom (header.bytes ++ rest) = .ok header := by
  have hfront : (header.bytes ++ rest).take 20 = header.front := by
    simp [bytes, List.append_assoc]
  have hmagic : (header.bytes ++ rest).take 8 = journalMagic := by
    simp [bytes, front, journalMagic]
  have hversion : ((header.bytes ++ rest).drop 8).take 2 = beBytes 2 journalVersion := by
    simp [bytes, front, journalMagic]
  have hcrc : ((header.bytes ++ rest).drop 20).take 4 =
      beBytes 4 (crc32 header.front).toNat := by
    simp [bytes]
  have hdrop (n k width value : Nat) (h : width ≤ k) :
      List.take n (List.drop k (beBytes width value)) = [] := by
    simp [List.drop_of_length_le (show (beBytes width value).length ≤ k by simpa using h)]
  have horig : ((header.bytes ++ rest).drop 12).take 4 =
      beBytes 4 header.origPageCount.toNat := by
    simp [bytes, front, journalMagic, List.take_append, List.drop_append, hdrop]
  have hcount : ((header.bytes ++ rest).drop 16).take 4 =
      beBytes 4 header.recordCount.toNat := by
    simp [bytes, front, journalMagic, List.take_append, List.drop_append, hdrop]
  have hlen : ¬(header.bytes ++ rest).length < journalHeaderSize := by simp
  simp only [readFrom, if_neg hlen, hmagic, hversion, hfront, hcrc, horig, hcount]
  simp [journalVersion]

end JournalHeader

/-- The open journal handle of a transaction; its file is the journal file. -/
structure Journal where
  header : JournalHeader
  deriving DecidableEq, Repr

/-- A pre-image record. -/
def recordBytes (no : PageNo) (page : Page) : Bytes :=
  beBytes 4 no.toNat ++ page.bytes ++ beBytes 4 (crc32 page.bytes).toNat

@[simp] theorem recordBytes_length (no : PageNo) (page : Page) :
    (recordBytes no page).length = journalRecordSize := by
  simp [recordBytes, journalRecordSize]
  omega

namespace Journal

def create (origPageCount : UInt32) : Exec Os StorageError Journal := do
  Os.request .createJournal
  let header := JournalHeader.new origPageCount
  header.writeTo
  Os.request .syncJournal
  return { header }

def appendPage (journal : Journal) (no : PageNo) (page : Page) :
    Exec Os StorageError Journal := do
  Os.request (.appendJournal (recordBytes no page))
  return { header := { journal.header with recordCount := journal.header.recordCount + 1 } }

def sync (journal : Journal) : Exec Os StorageError Unit := do
  journal.header.writeTo
  Os.request .syncJournal

def closeAndDelete (_ : Journal) : Exec Os StorageError Unit := do
  let os ← Exec.get
  if os.disk.journal.isSome then
    Os.request .removeJournal

end Journal

/-- The scan of recovery: replay records until one is cut off or corrupt. -/
def replayRecords (rest : Bytes) : Exec Os StorageError Unit :=
  if _h : rest.length < journalRecordSize then pure ()
  else do
    let record := rest.take journalRecordSize
    let no := beValue (record.take 4)
    let data := (record.drop 4).take pageSize
    let stored := UInt32.ofNat (beValue (record.drop (4 + pageSize)))
    if stored ≠ crc32 data then pure ()
    else do
      Os.request (.writePage no (Page.ofBytes data))
      replayRecords (rest.drop journalRecordSize)
  termination_by rest.length
  decreasing_by
    simp only [List.length_drop]
    have : 0 < journalRecordSize := by simp [journalRecordSize]
    omega

/-- Unlink the journal; a failure to do so is ignored. -/
def discardJournal : Exec Os StorageError Unit := do
  let _ ← (Exec.attempt (Os.request .removeJournal) :
    Exec Os StorageError (Except StorageError Unit))
  pure ()

def recoverIfNeeded : Exec Os StorageError Unit := do
  let os ← Exec.get
  match os.disk.journal with
  | none => pure ()
  | some file =>
    if file.length = 0 then discardJournal
    else
      match JournalHeader.readFrom file with
      | .error reason => Exec.throw reason
      | .ok header => do
        replayRecords (file.drop journalHeaderSize)
        Os.request (.setLen header.origPageCount.toNat)
        Os.request .syncDb
        discardJournal

end ChocoBase.Storage
