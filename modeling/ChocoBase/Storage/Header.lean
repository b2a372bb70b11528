import ChocoBase.Error

/-!
# The database header

Page 0 of the database file holds the magic string, the page size, the number of
pages, the first free page and the root of the catalog.
-/

namespace ChocoBase.Storage

open ChocoBase.Foundation

/-- `MINIDB\0\x01` -/
def magic : Bytes := [77, 73, 78, 73, 68, 66, 0, 1]

structure Header where
  pageSize : UInt16
  pageCount : UInt32
  freelistHead : PageNo
  catalogRoot : PageNo
  deriving DecidableEq, Repr

namespace Header

def new : Header :=
  { pageSize := UInt16.ofNat Storage.pageSize, pageCount := 1, freelistHead := 0,
    catalogRoot := 0 }

def readFrom (page : Page) : Except StorageError Header :=
  if page.slice 0 8 ≠ magic then .error .notADatabase
  else .ok
    { pageSize := UInt16.ofNat (beValue (page.slice 8 2))
      pageCount := UInt32.ofNat (beValue (page.slice 10 4))
      freelistHead := UInt32.ofNat (beValue (page.slice 14 4))
      catalogRoot := UInt32.ofNat (beValue (page.slice 18 4)) }

def writeTo (header : Header) (page : Page) : Page :=
  ((((page.patch 0 magic).patch 8 (beBytes 2 header.pageSize.toNat)).patch 10
    (beBytes 4 header.pageCount.toNat)).patch 14 (beBytes 4 header.freelistHead.toNat)).patch
    18 (beBytes 4 header.catalogRoot.toNat)

/-- The image of page 0 that `flushHeader` writes. -/
def toPage (header : Header) : Page := header.writeTo Page.zeroed

private theorem slice_patch_later {page : Page} {offset len at' : Nat} {bs : Bytes}
    (hfit : at' + bs.length ≤ Storage.pageSize) (h : offset + len ≤ at') :
    (page.patch at' bs).slice offset len = page.slice offset len :=
  Page.slice_congr fun _ _ hi => Page.byte_patch_of_outside hfit (.inl (by omega))

private theorem slice_beBytes {page : Page} {offset width n : Nat}
    (hfit : offset + width ≤ Storage.pageSize) :
    (page.patch offset (beBytes width n)).slice offset width = beBytes width n := by
  simpa using Page.slice_patch_same page offset (beBytes width n) (by simpa using hfit)

private theorem ofNat_beValue_u32 (v : UInt32) :
    UInt32.ofNat (beValue (beBytes 4 v.toNat)) = v := by
  simp

private theorem ofNat_beValue_u16 (v : UInt16) :
    UInt16.ofNat (beValue (beBytes 2 v.toNat)) = v := by
  simp

theorem readFrom_writeTo (header : Header) (page : Page) :
    readFrom (header.writeTo page) = .ok header := by
  have hmagic : (header.writeTo page).slice 0 8 = magic := by
    simp only [writeTo]
    repeat rw [slice_patch_later (by simp [Storage.pageSize]) (by omega)]
    exact Page.slice_patch_same page 0 magic (by simp [magic, Storage.pageSize])
  have hsize : (header.writeTo page).slice 8 2 = beBytes 2 header.pageSize.toNat := by
    simp only [writeTo]
    repeat rw [slice_patch_later (by simp [Storage.pageSize]) (by omega)]
    exact slice_beBytes (by simp [Storage.pageSize])
  have hcount : (header.writeTo page).slice 10 4 = beBytes 4 header.pageCount.toNat := by
    simp only [writeTo]
    repeat rw [slice_patch_later (by simp [Storage.pageSize]) (by omega)]
    exact slice_beBytes (by simp [Storage.pageSize])
  have hfree : (header.writeTo page).slice 14 4 = beBytes 4 header.freelistHead.toNat := by
    simp only [writeTo]
    repeat rw [slice_patch_later (by simp [Storage.pageSize]) (by omega)]
    exact slice_beBytes (by simp [Storage.pageSize])
  have hroot : (header.writeTo page).slice 18 4 = beBytes 4 header.catalogRoot.toNat := by
    exact slice_beBytes (by simp [Storage.pageSize])
  simp only [readFrom, hmagic, hsize, hcount, hfree, hroot, ofNat_beValue_u16,
    ofNat_beValue_u32, ne_eq, not_true_eq_false, if_false]

@[simp] theorem readFrom_toPage (header : Header) : readFrom header.toPage = .ok header :=
  readFrom_writeTo header Page.zeroed

theorem toPage_injective : Function.Injective toPage := by
  intro first second h
  have hread := congrArg readFrom h
  rw [readFrom_toPage, readFrom_toPage] at hread
  exact Except.ok.inj hread

end Header

end ChocoBase.Storage
