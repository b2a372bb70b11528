import ChocoBase.Foundation.Bytes
import Mathlib.Data.List.OfFn

/-!
# Pages

A page is an array of `pageSize` bytes.  Reads and writes outside the array make
the program panic, modeled by `none`.
-/

namespace ChocoBase.Storage

open ChocoBase.Foundation

abbrev PageNo := UInt32

def pageSize : Nat := 4096

def pageTypeInternal : UInt8 := 1
def pageTypeLeaf : UInt8 := 2
def pageTypeFree : UInt8 := 3

@[ext]
structure Page where
  data : Fin pageSize → UInt8

namespace Page

def zeroed : Page := ⟨fun _ => 0⟩

instance : Inhabited Page := ⟨zeroed⟩

def byte (page : Page) (i : Nat) : UInt8 :=
  if h : i < pageSize then page.data ⟨i, h⟩ else 0

/-- The bytes from `offset` on, read without a bounds check. -/
def slice (page : Page) (offset len : Nat) : Bytes :=
  (List.range len).map fun i => page.byte (offset + i)

def readU8 (page : Page) (offset : Nat) : Option UInt8 :=
  if offset < pageSize then some (page.byte offset) else none

def readBytes (page : Page) (offset len : Nat) : Option Bytes :=
  if offset + len ≤ pageSize then some (page.slice offset len) else none

def readU16 (page : Page) (offset : Nat) : Option Nat :=
  (page.readBytes offset 2).map beValue

def readU32 (page : Page) (offset : Nat) : Option UInt32 :=
  (page.readBytes offset 4).map fun bs => UInt32.ofNat (beValue bs)

/-- The page with `bytes` stored from `offset` on. -/
def patch (page : Page) (offset : Nat) (bytes : Bytes) : Page :=
  ⟨fun i => if offset ≤ i.val ∧ i.val < offset + bytes.length
    then bytes.getD (i.val - offset) 0 else page.data i⟩

def writeBytes (page : Page) (offset : Nat) (bytes : Bytes) : Option Page :=
  if offset + bytes.length ≤ pageSize then some (page.patch offset bytes) else none

def writeU8 (page : Page) (offset : Nat) (v : UInt8) : Option Page :=
  page.writeBytes offset [v]

def writeU16 (page : Page) (offset : Nat) (v : Nat) : Option Page :=
  page.writeBytes offset (beBytes 2 v)

def writeU32 (page : Page) (offset : Nat) (v : UInt32) : Option Page :=
  page.writeBytes offset (beBytes 4 v.toNat)

def pageType (page : Page) : UInt8 := page.byte 0

/-- The whole page as a byte string, as it is written to a file. -/
def bytes (page : Page) : Bytes := List.ofFn page.data

def ofBytes (bs : Bytes) : Page := ⟨fun i => bs.getD i.val 0⟩

/-! ## Reading back -/

@[simp] theorem slice_length (page : Page) (offset len : Nat) :
    (page.slice offset len).length = len := by
  simp [slice]

@[simp] theorem bytes_length (page : Page) : page.bytes.length = pageSize := by
  simp [bytes]

@[simp] theorem ofBytes_bytes (page : Page) : ofBytes page.bytes = page := by
  ext i
  simp [ofBytes, bytes]

theorem bytes_ofBytes {bs : Bytes} (h : bs.length = pageSize) : (ofBytes bs).bytes = bs := by
  refine List.ext_getElem (by simp [h]) fun i _ hi => ?_
  simp [ofBytes, bytes, hi]

@[simp] theorem byte_zeroed (i : Nat) : zeroed.byte i = 0 := by
  simp [byte, zeroed]

theorem byte_patch (page : Page) (offset : Nat) (bs : Bytes) (i : Nat)
    (hfit : offset + bs.length ≤ pageSize) :
    (page.patch offset bs).byte i =
      if offset ≤ i ∧ i < offset + bs.length then bs.getD (i - offset) 0
      else page.byte i := by
  by_cases hi : i < pageSize
  · simp [byte, patch, hi]
  · have hout : ¬(offset ≤ i ∧ i < offset + bs.length) := by omega
    simp [byte, hi, hout]

theorem byte_patch_of_outside {page : Page} {offset i : Nat} {bs : Bytes}
    (hfit : offset + bs.length ≤ pageSize) (h : i < offset ∨ offset + bs.length ≤ i) :
    (page.patch offset bs).byte i = page.byte i := by
  rw [byte_patch _ _ _ _ hfit, if_neg (by omega)]

theorem slice_congr {p q : Page} {offset len : Nat}
    (h : ∀ i, offset ≤ i → i < offset + len → p.byte i = q.byte i) :
    p.slice offset len = q.slice offset len := by
  refine List.map_congr_left fun i hi => h _ (by omega) ?_
  have := List.mem_range.mp hi
  omega

theorem slice_patch_same (page : Page) (offset : Nat) (bs : Bytes)
    (hfit : offset + bs.length ≤ pageSize) :
    (page.patch offset bs).slice offset bs.length = bs := by
  refine List.ext_getElem (by simp) fun i hi hi' => ?_
  simp only [slice, List.getElem_map, List.getElem_range, byte_patch _ _ _ _ hfit]
  rw [if_pos ⟨by omega, by omega⟩]
  simp [hi']

theorem slice_append (page : Page) (offset m n : Nat) :
    page.slice offset (m + n) = page.slice offset m ++ page.slice (offset + m) n := by
  simp [slice, List.range_add, Nat.add_assoc, Function.comp_def]

/-- A slice that starts with a known prefix determines that prefix and what follows. -/
theorem slice_eq_append {page : Page} {offset : Nat} {front rest : Bytes} {len : Nat}
    (hlen : len = front.length + rest.length)
    (h : page.slice offset len = front ++ rest) :
    page.slice offset front.length = front ∧
      page.slice (offset + front.length) rest.length = rest := by
  subst hlen
  rw [slice_append] at h
  exact List.append_inj h (by simp)

theorem readU16_lt {page : Page} {offset v : Nat} (h : page.readU16 offset = some v) :
    v < 2 ^ 16 := by
  obtain ⟨bs, hbs, rfl⟩ := Option.map_eq_some_iff.mp h
  unfold readBytes at hbs
  split at hbs
  next =>
    obtain rfl := Option.some.inj hbs
    simpa [beValue, slice] using leValue_lt (page.slice offset 2).reverse
  next => cases hbs

theorem readU16_of_slice {page : Page} {offset v : Nat} (hfit : offset + 2 ≤ pageSize)
    (hv : v < 65536) (h : page.slice offset 2 = beBytes 2 v) :
    page.readU16 offset = some v := by
  simp [readU16, readBytes, hfit, h, Nat.mod_eq_of_lt hv]

theorem readU32_of_slice {page : Page} {offset : Nat} {v : UInt32}
    (hfit : offset + 4 ≤ pageSize) (h : page.slice offset 4 = beBytes 4 v.toNat) :
    page.readU32 offset = some v := by
  have hv := v.toNat_lt
  have hmod : v.toNat % 256 ^ 4 = v.toNat := Nat.mod_eq_of_lt (by simpa using hv)
  simp only [readU32, readBytes, if_pos hfit, h, Option.map_some, beValue_beBytes, hmod]
  simp

theorem readBytes_of_slice {page : Page} {offset : Nat} {bs : Bytes}
    (hfit : offset + bs.length ≤ pageSize) (h : page.slice offset bs.length = bs) :
    page.readBytes offset bs.length = some bs := by
  simp [readBytes, hfit, h]

theorem patch_patch_append (page : Page) (offset : Nat) (front rest : Bytes) :
    (page.patch offset front).patch (offset + front.length) rest =
      page.patch offset (front ++ rest) := by
  ext i
  simp only [patch, List.length_append]
  by_cases hfront : offset ≤ i.val ∧ i.val < offset + front.length
  · rw [if_neg (by omega), if_pos hfront, if_pos (by omega), List.getD_eq_getElem?_getD,
      List.getD_eq_getElem?_getD, List.getElem?_append_left (by omega)]
  by_cases hrest : offset + front.length ≤ i.val ∧
      i.val < offset + front.length + rest.length
  · rw [if_pos hrest, if_pos (by omega), List.getD_eq_getElem?_getD,
      List.getD_eq_getElem?_getD, List.getElem?_append_right (by omega), Nat.sub_sub]
  · rw [if_neg hrest, if_neg hfront, if_neg (by omega)]

/-- Two adjacent writes are one. -/
theorem writeBytes_append (page : Page) (offset : Nat) (front rest : Bytes) :
    (page.writeBytes offset front).bind
        (fun page => page.writeBytes (offset + front.length) rest) =
      page.writeBytes offset (front ++ rest) := by
  simp only [writeBytes, List.length_append]
  by_cases hfront : offset + front.length ≤ pageSize
  · simp only [if_pos hfront, Option.bind_some, patch_patch_append, Nat.add_assoc]
  · rw [if_neg hfront, if_neg (by omega), Option.bind_none]

end Page

end ChocoBase.Storage
