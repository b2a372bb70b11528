import ChocoBase.Storage.Journal
import Mathlib.Data.List.AList

/-!
# The pager

The pager keeps recently used pages in a cache of bounded size, remembers which
of them differ from the file, and evicts the least recently used page when it
needs room.  Inside a transaction it appends the old image of a page to the
journal before the page changes for the first time.
-/

namespace ChocoBase.Storage

open ChocoBase.Foundation

def defaultCacheCapacity : Nat := 256

structure Pager where
  file : Os
  cache : AList fun _ : PageNo => Page
  recency : List PageNo
  dirty : Finset PageNo
  header : Header
  capacity : Nat
  pagesRead : Nat
  inTransaction : Bool
  journal : Option Journal
  journaledPages : Finset PageNo
  origPageCount : UInt32

/-- A pager with nothing cached over the given file. -/
def Pager.fresh (file : Os) (header : Header) (origPageCount : UInt32) : Pager where
  file
  cache := ∅
  recency := []
  dirty := ∅
  header
  capacity := defaultCacheCapacity
  pagesRead := 0
  inTransaction := false
  journal := none
  journaledPages := ∅
  origPageCount

namespace Pager

open Exec (get modify throw halt unwrap)

abbrev Action (α : Type) : Type := Exec Pager StorageError α

/-- Perform file requests with the pager's handle. -/
def onFile {α : Type} (x : Exec Os StorageError α) : Action α :=
  Exec.zoom Pager.file (fun pager file => { pager with file }) x

/-! ## Reading and writing pages -/

def flushHeader : Action Unit := do
  let pager ← get
  onFile (Os.request (.writePage 0 pager.header.toPage))

def readPageFromDisk (no : PageNo) : Action Page := do
  let pager ← get
  match pager.file.disk.db[no.toNat]? with
  | some page => pure page
  | none => throw (.io .unexpectedEof)

def writePageToDisk (no : PageNo) : Action Unit := do
  let pager ← get
  let page ← unwrap (pager.cache.lookup no)
  onFile (Os.request (.writePage no.toNat page))

def touch (no : PageNo) : Action Unit :=
  modify fun pager => { pager with recency := pager.recency.filter (· ≠ no) ++ [no] }

/-- The eviction loop; its argument is the recency queue. -/
def evictLoop : List PageNo → Action Unit
  | [] => pure ()
  | victim :: rest => do
      let pager ← get
      if pager.cache.keys.length < pager.capacity then pure ()
      else do
        if victim ∈ pager.dirty then do
          writePageToDisk victim
          modify fun pager => { pager with dirty := pager.dirty.erase victim }
        modify fun pager => { pager with cache := pager.cache.erase victim, recency := rest }
        evictLoop rest

def evictIfNeeded : Action Unit := do
  let pager ← get
  evictLoop pager.recency

def ensureLoaded (no : PageNo) : Action Unit := do
  let pager ← get
  if no ∉ pager.cache then do
    evictIfNeeded
    let page ← readPageFromDisk no
    modify fun pager =>
      { pager with cache := pager.cache.insert no page, pagesRead := pager.pagesRead + 1 }
  touch no

def getPage (no : PageNo) : Action Page := do
  ensureLoaded no
  let pager ← get
  unwrap (pager.cache.lookup no)

/-! ## Journaling -/

/-- Append a pre-image to the journal, if a journal is open. -/
def journalImage (no : PageNo) (page : Page) : Action Unit := do
  let pager ← get
  match pager.journal with
  | none => pure ()
  | some journal => do
      let journal ← onFile (journal.appendPage no page)
      modify fun pager => { pager with journal := some journal }

def markJournaled (no : PageNo) : Action Unit :=
  modify fun pager => { pager with journaledPages := insert no pager.journaledPages }

def journalCached (no : PageNo) : Action Unit := do
  let pager ← get
  let pageCopy ← unwrap (pager.cache.lookup no)
  journalImage no pageCopy

def recordPreimageForHeader : Action Unit := do
  let pager ← get
  if pager.inTransaction ∧ 0 ∉ pager.journaledPages then do
    journalImage 0 pager.header.toPage
    markJournaled 0

/-- The journaling step that `allocatePage` and `freePage` share. -/
def journalForReuse (no : PageNo) : Action Unit := do
  let pager ← get
  if pager.inTransaction ∧ no ∉ pager.journaledPages ∧ no < pager.origPageCount then do
    journalCached no
    markJournaled no

/-- The journaling step of `getPageMut`: a page beyond the old end needs no image. -/
def journalForWrite (no : PageNo) : Action Unit := do
  let pager ← get
  if pager.inTransaction ∧ no ∉ pager.journaledPages then do
    if no < pager.origPageCount then journalCached no
    markJournaled no

/--
Borrow a page for writing.  `write` is what the borrower does to the page, `none`
when it indexes outside of it.
-/
def getPageMut (no : PageNo) (write : Page → Option Page) : Action Unit := do
  ensureLoaded no
  journalForWrite no
  modify fun pager => { pager with dirty := insert no pager.dirty }
  let pager ← get
  let page ← unwrap (pager.cache.lookup no)
  let page ← unwrap (write page)
  modify fun pager => { pager with cache := pager.cache.insert no page }

/-! ## Allocation -/

/-- Put a new page image into the cache. -/
def insertDirty (no : PageNo) (page : Page) : Action Unit := do
  modify fun pager =>
    { pager with cache := pager.cache.insert no page, dirty := insert no pager.dirty }
  touch no

/-- Take the first page off the freelist. -/
def popFreelist (freeNo : PageNo) : Action PageNo := do
  ensureLoaded freeNo
  journalForReuse freeNo
  let pager ← get
  let page ← unwrap (pager.cache.lookup freeNo)
  let next ← unwrap (page.readU32 0)
  modify fun pager => { pager with header := { pager.header with freelistHead := next } }
  flushHeader
  return freeNo

/-- Add a page at the end of the file. -/
def growFile : Action PageNo := do
  let pager ← get
  let no := pager.header.pageCount
  if no.toNat + 1 = 2 ^ 32 then halt .overflow
  modify fun pager => { pager with header := { pager.header with pageCount := no + 1 } }
  flushHeader
  onFile (Os.request (.setLen (no + 1).toNat))
  return no

/-- The first part of `allocatePage`: find the page to hand out. -/
def acquirePage : Action PageNo := do
  recordPreimageForHeader
  let pager ← get
  if pager.header.freelistHead ≠ 0 then popFreelist pager.header.freelistHead
  else growFile

def allocatePage : Action PageNo := do
  let no ← acquirePage
  evictIfNeeded
  insertDirty no Page.zeroed
  return no

def freePage (no : PageNo) : Action Unit := do
  recordPreimageForHeader
  ensureLoaded no
  journalForReuse no
  let pager ← get
  let page ← unwrap (Page.zeroed.writeU32 0 pager.header.freelistHead)
  evictIfNeeded
  insertDirty no page
  modify fun pager => { pager with header := { pager.header with freelistHead := no } }
  flushHeader

def catalogRoot : Action PageNo := do
  let pager ← get
  return pager.header.catalogRoot

def setCatalogRoot (root : PageNo) : Action Unit := do
  recordPreimageForHeader
  modify fun pager => { pager with header := { pager.header with catalogRoot := root } }
  flushHeader

/-! ## Flushing and transactions -/

def flushPages : List PageNo → Action Unit
  | [] => pure ()
  | no :: rest => do
      writePageToDisk no
      modify fun pager => { pager with dirty := pager.dirty.erase no }
      flushPages rest

def flush : Action Unit := do
  let pager ← get
  let dirtyPages ← onFile (Os.iterate pager.dirty)
  flushPages dirtyPages
  onFile (Os.request .syncDb)

def beginTransaction : Action Unit := do
  let pager ← get
  if pager.inTransaction then
    throw (.corruptJournal "transaction already in progress")
  modify fun pager => { pager with origPageCount := pager.header.pageCount }
  let journal ← onFile (Journal.create pager.header.pageCount)
  modify fun pager =>
    { pager with journal := some journal, journaledPages := ∅, inTransaction := true }

def commitTransaction : Action Unit := do
  let pager ← get
  if pager.inTransaction then do
    match pager.journal with
    | none => pure ()
    | some journal => do
        -- the handle leaves the pager before the steps that can fail
        modify fun pager => { pager with journal := none }
        onFile journal.sync
        flush
        onFile journal.closeAndDelete
    modify fun pager => { pager with journaledPages := ∅, inTransaction := false }

def rollbackTransaction : Action Unit := do
  let pager ← get
  if pager.inTransaction then do
    modify fun pager => { pager with journal := none }
    onFile recoverIfNeeded
    modify fun pager => { pager with cache := ∅, recency := [], dirty := ∅ }
    let page0 ← readPageFromDisk 0
    match Header.readFrom page0 with
    | .error reason => throw reason
    | .ok header =>
        modify fun pager =>
          { pager with header, journaledPages := ∅, inTransaction := false }

end Pager

/-! ## Creating and opening a database file -/

def Pager.create : Exec Os StorageError Pager := do
  Os.request .truncateDb
  Os.request (.writePage 0 Header.new.toPage)
  Os.request .syncDb
  let file ← Exec.get
  return Pager.fresh file Header.new 1

def Pager.open : Exec Os StorageError Pager := do
  recoverIfNeeded
  let file ← Exec.get
  match file.disk.db[0]? with
  | none => Exec.throw (.io .unexpectedEof)
  | some page =>
    match Header.readFrom page with
    | .error reason => Exec.throw reason
    | .ok header => return Pager.fresh file header 0

end ChocoBase.Storage
