import ChocoBase.Storage.Page

/-!
# B-tree nodes on pages

A node starts with a header of twelve bytes: its type, the number of its cells,
the end of the slot array, the start of the cells, and one page number.  Slots
grow up from the header and hold the offsets of the cells, which grow down from
the end of the page.

A node whose encoding fits a page is read back as it was written.
-/

namespace ChocoBase.BTree

open ChocoBase.Foundation ChocoBase.Storage

def nodeHeaderSize : Nat := 12

structure LeafEntry where
  key : Bytes
  payload : Bytes
  deriving DecidableEq, Repr

structure LeafNode where
  entries : List LeafEntry
  nextLeaf : PageNo
  deriving DecidableEq, Repr

structure InternalEntry where
  key : Bytes
  leftChild : PageNo
  deriving DecidableEq, Repr

structure InternalNode where
  entries : List InternalEntry
  rightmostChild : PageNo
  deriving DecidableEq, Repr

/-! ## Cells -/

/--
How the entries of a node are stored in cells: the loops of `encode` and `decode`
are the same for both kinds of nodes.
-/
structure CellFormat (ε : Type) where
  bytes : ε → Bytes
  write : Page → Nat → ε → Option Page
  read : Page → Nat → Option ε
  write_eq : ∀ page offset e, write page offset e = page.writeBytes offset (bytes e)
  read_eq : ∀ {page offset e}, offset + (bytes e).length ≤ pageSize →
    page.slice offset (bytes e).length = bytes e → read page offset = some e

namespace LeafEntry

def cellLen (e : LeafEntry) : Nat := 2 + e.key.length + 2 + e.payload.length

def writeCell (page : Page) (offset : Nat) (e : LeafEntry) : Option Page := do
  let page ← page.writeU16 offset e.key.length
  let page ← page.writeBytes (offset + 2) e.key
  let page ← page.writeU16 (offset + 2 + e.key.length) e.payload.length
  page.writeBytes (offset + 2 + e.key.length + 2) e.payload

def readCell (page : Page) (offset : Nat) : Option LeafEntry := do
  let keyLen ← page.readU16 offset
  let key ← page.readBytes (offset + 2) keyLen
  let payloadLen ← page.readU16 (offset + 2 + keyLen)
  let payload ← page.readBytes (offset + 2 + keyLen + 2) payloadLen
  return { key, payload }

def cellBytes (e : LeafEntry) : Bytes :=
  beBytes 2 e.key.length ++ e.key ++ beBytes 2 e.payload.length ++ e.payload

theorem cellBytes_length (e : LeafEntry) : e.cellBytes.length = e.cellLen := by
  simp only [cellBytes, cellLen, List.length_append, beBytes_length]

theorem writeCell_eq (page : Page) (offset : Nat) (e : LeafEntry) :
    writeCell page offset e = page.writeBytes offset e.cellBytes := by
  simp only [cellBytes, ← Page.writeBytes_append, Option.bind_assoc, List.length_append,
    beBytes_length, ← Nat.add_assoc]
  rfl

theorem readCell_eq {page : Page} {offset : Nat} {e : LeafEntry}
    (hfit : offset + e.cellBytes.length ≤ pageSize)
    (h : page.slice offset e.cellBytes.length = e.cellBytes) :
    readCell page offset = some e := by
  have hsize : pageSize = 4096 := rfl
  rw [e.cellBytes_length, cellLen] at hfit
  obtain ⟨h, hpayload⟩ := Page.slice_eq_append (by rw [cellBytes, List.length_append]) h
  obtain ⟨h, hpayloadLen⟩ := Page.slice_eq_append (by rw [List.length_append]) h
  obtain ⟨hkeyLen, hkey⟩ := Page.slice_eq_append (by rw [List.length_append]) h
  simp only [List.length_append, beBytes_length, ← Nat.add_assoc] at hkeyLen hkey hpayloadLen hpayload
  have h₁ := Page.readU16_of_slice (by omega) (by omega) hkeyLen
  have h₂ := Page.readBytes_of_slice (by omega) hkey
  have h₃ := Page.readU16_of_slice (by omega) (by omega) hpayloadLen
  have h₄ := Page.readBytes_of_slice (by omega) hpayload
  simp [readCell, h₁, h₂, h₃, h₄]

def cells : CellFormat LeafEntry where
  bytes := cellBytes
  write := writeCell
  read := readCell
  write_eq := writeCell_eq
  read_eq := readCell_eq

end LeafEntry

namespace InternalEntry

def cellLen (e : InternalEntry) : Nat := 2 + e.key.length + 4

def writeCell (page : Page) (offset : Nat) (e : InternalEntry) : Option Page := do
  let page ← page.writeU16 offset e.key.length
  let page ← page.writeBytes (offset + 2) e.key
  page.writeU32 (offset + 2 + e.key.length) e.leftChild

def readCell (page : Page) (offset : Nat) : Option InternalEntry := do
  let keyLen ← page.readU16 offset
  let key ← page.readBytes (offset + 2) keyLen
  let leftChild ← page.readU32 (offset + 2 + keyLen)
  return { key, leftChild }

def cellBytes (e : InternalEntry) : Bytes :=
  beBytes 2 e.key.length ++ e.key ++ beBytes 4 e.leftChild.toNat

theorem cellBytes_length (e : InternalEntry) : e.cellBytes.length = e.cellLen := by
  simp only [cellBytes, cellLen, List.length_append, beBytes_length]

theorem writeCell_eq (page : Page) (offset : Nat) (e : InternalEntry) :
    writeCell page offset e = page.writeBytes offset e.cellBytes := by
  simp only [cellBytes, ← Page.writeBytes_append, Option.bind_assoc, List.length_append,
    beBytes_length, ← Nat.add_assoc]
  rfl

theorem readCell_eq {page : Page} {offset : Nat} {e : InternalEntry}
    (hfit : offset + e.cellBytes.length ≤ pageSize)
    (h : page.slice offset e.cellBytes.length = e.cellBytes) :
    readCell page offset = some e := by
  have hsize : pageSize = 4096 := rfl
  rw [e.cellBytes_length, cellLen] at hfit
  obtain ⟨h, hchild⟩ := Page.slice_eq_append (by rw [cellBytes, List.length_append]) h
  obtain ⟨hkeyLen, hkey⟩ := Page.slice_eq_append (by rw [List.length_append]) h
  simp only [List.length_append, beBytes_length, ← Nat.add_assoc] at hkeyLen hkey hchild
  have h₁ := Page.readU16_of_slice (by omega) (by omega) hkeyLen
  have h₂ := Page.readBytes_of_slice (by omega) hkey
  have h₃ := Page.readU32_of_slice (by omega) hchild
  simp [readCell, h₁, h₂, h₃]

def cells : CellFormat InternalEntry where
  bytes := cellBytes
  write := writeCell
  read := readCell
  write_eq := writeCell_eq
  read_eq := readCell_eq

end InternalEntry

section Cells

variable {ε : Type} (F : CellFormat ε)

/-- The offset of a cell below `cellEnd`; the subtraction panics on underflow. -/
def cellOffset (cellEnd len : Nat) : Option Nat :=
  if len ≤ cellEnd then some (cellEnd - len) else none

/-- The loop of `encode`, from slot `i` on. -/
def encodeCells : Nat → Nat → List ε → Page → Option (Nat × Page)
  | _, cellEnd, [], page => some (cellEnd, page)
  | i, cellEnd, e :: rest, page => do
      let offset ← cellOffset cellEnd (F.bytes e).length
      let page ← F.write page offset e
      let page ← page.writeU16 (nodeHeaderSize + i * 2) offset
      encodeCells (i + 1) offset rest page

/-- The loop of `decode`: `count` cells from slot `i` on. -/
def decodeCells (page : Page) : Nat → Nat → Option (List ε)
  | _, 0 => some []
  | i, count + 1 => do
      let offset ← page.readU16 (nodeHeaderSize + i * 2)
      let e ← F.read page offset
      let rest ← decodeCells page (i + 1) count
      return e :: rest

def cellsSize (entries : List ε) : Nat := (entries.map fun e => (F.bytes e).length).sum

/--
Cells that find room between the slots and `cellEnd` are read back from every page
that agrees with the written one behind the header.
-/
theorem decodeCells_encodeCells (entries : List ε) (i cellEnd : Nat) (page : Page)
    (hend : cellEnd ≤ pageSize)
    (hroom : nodeHeaderSize + 2 * (i + entries.length) + cellsSize F entries ≤ cellEnd) :
    ∃ page', encodeCells F i cellEnd entries page =
        some (cellEnd - cellsSize F entries, page') ∧
      (∀ b, b < nodeHeaderSize + 2 * i ∨ cellEnd ≤ b → page'.byte b = page.byte b) ∧
      ∀ page'', (∀ b, nodeHeaderSize ≤ b → page''.byte b = page'.byte b) →
        decodeCells F page'' i entries.length = some entries := by
  have hsize : pageSize = 4096 := rfl
  induction entries generalizing i cellEnd page with
  | nil => exact ⟨page, rfl, fun _ _ => rfl, fun _ _ => rfl⟩
  | cons e rest ih =>
      have hcells : cellsSize F (e :: rest) = (F.bytes e).length + cellsSize F rest := by
        simp [cellsSize]
      rw [hcells, List.length_cons] at hroom
      have hoffset : cellOffset cellEnd (F.bytes e).length =
          some (cellEnd - (F.bytes e).length) := if_pos (by omega)
      generalize hoff : cellEnd - (F.bytes e).length = offset at hoffset
      have hcell : offset + (F.bytes e).length ≤ pageSize := by omega
      have hslot : nodeHeaderSize + i * 2 + (beBytes 2 offset).length ≤ pageSize := by
        simp only [beBytes_length]
        omega
      obtain ⟨page', hencode, hkept, hread⟩ := ih (i + 1) offset
        ((page.patch offset (F.bytes e)).patch (nodeHeaderSize + i * 2) (beBytes 2 offset))
        (by omega) (by omega)
      refine ⟨page', ?_, fun b hb => ?_, fun page'' hsame => ?_⟩
      · simp only [encodeCells, hoffset, F.write_eq, Page.writeBytes, Page.writeU16,
          if_pos hcell, if_pos hslot, Option.bind_eq_bind, Option.bind_some, hencode, hcells]
        congr 2
        omega
      · rw [hkept b (by omega), Page.byte_patch_of_outside hslot (by simp; omega),
          Page.byte_patch_of_outside hcell (by omega)]
      · have hslotRead : page''.readU16 (nodeHeaderSize + i * 2) = some offset := by
          refine Page.readU16_of_slice (by omega) (by omega) ?_
          rw [← Page.slice_patch_same (page.patch offset (F.bytes e)) _ _ hslot, beBytes_length]
          exact Page.slice_congr fun b hlo hhi => by
            rw [hsame b (by omega), hkept b (by omega)]
        have hcellRead : F.read page'' offset = some e := by
          refine F.read_eq hcell ?_
          rw [← Page.slice_patch_same page _ _ hcell, Page.slice_patch_same page _ _ hcell]
          refine (Page.slice_congr fun b hlo hhi => ?_).trans
            (Page.slice_patch_same page _ _ hcell)
          rw [hsame b (by omega), hkept b (by omega),
            Page.byte_patch_of_outside hslot (by simp; omega)]
        have hrest := hread page'' hsame
        simp [decodeCells, hslotRead, hcellRead, hrest]

end Cells

/-! ## Nodes -/

section Encoding

variable {ε : Type} (F : CellFormat ε)

/-- The image of a node of the given type, with `link` as its one page number. -/
def encodeNode (type : UInt8) (entries : List ε) (link : PageNo) : Option Page := do
  let page ← Page.zeroed.writeU8 0 type
  let page ← page.writeU16 2 entries.length
  let page ← page.writeU32 8 link
  let (cellEnd, page) ← encodeCells F 0 pageSize entries page
  let page ← page.writeU16 4 (nodeHeaderSize + entries.length * 2)
  page.writeU16 6 cellEnd

/-- Reading a node of another type fails an assertion. -/
def decodeNode (type : UInt8) (page : Page) : Option (List ε × PageNo) := do
  guard (page.pageType = type)
  let numCells ← page.readU16 2
  let link ← page.readU32 8
  let entries ← decodeCells F page 0 numCells
  return (entries, link)

theorem decodeCells_length {page : Page} {i count : Nat} {entries : List ε}
    (h : decodeCells F page i count = some entries) : entries.length = count := by
  induction count generalizing i entries with
  | zero =>
      obtain rfl := Option.some.inj h
      rfl
  | succ count ih =>
      simp only [decodeCells, Option.bind_eq_bind, Option.bind_eq_some_iff] at h
      obtain ⟨offset, -, e, -, rest, hrest, heq⟩ := h
      obtain rfl := Option.some.inj heq
      rw [List.length_cons, ih hrest]

theorem decodeNode_length_lt {type : UInt8} {page : Page} {entries : List ε} {link : PageNo}
    (h : decodeNode F type page = some (entries, link)) : entries.length < 2 ^ 16 := by
  simp only [decodeNode, Option.bind_eq_bind, Option.bind_eq_some_iff] at h
  obtain ⟨-, -, numCells, hcells, _, -, entries', hentries, heq⟩ := h
  obtain ⟨rfl, -⟩ := Prod.mk.inj (Option.some.inj heq)
  rw [decodeCells_length F hentries]
  exact Page.readU16_lt hcells

theorem decodeNode_encodeNode (type : UInt8) (entries : List ε) (link : PageNo)
    (hfit : nodeHeaderSize + entries.length * 2 + cellsSize F entries ≤ pageSize) :
    ∃ page, encodeNode F type entries link = some page ∧
      page.pageType = type ∧ decodeNode F type page = some (entries, link) := by
  have hsize : pageSize = 4096 := rfl
  have hheader : nodeHeaderSize = 12 := rfl
  have h₁ : 0 + [type].length ≤ pageSize := by simp [hsize]
  have h₂ : 2 + (beBytes 2 entries.length).length ≤ pageSize := by simp [hsize]
  have h₃ : 8 + (beBytes 4 link.toNat).length ≤ pageSize := by simp [hsize]
  obtain ⟨page, hencode, hkept, hread⟩ := decodeCells_encodeCells F entries 0 pageSize
    (((Page.zeroed.patch 0 [type]).patch 2 (beBytes 2 entries.length)).patch 8
      (beBytes 4 link.toNat)) le_rfl (by omega)
  have h₄ : 4 + (beBytes 2 (nodeHeaderSize + entries.length * 2)).length ≤ pageSize := by
    simp [hsize]
  have h₅ : 6 + (beBytes 2 (pageSize - cellsSize F entries)).length ≤ pageSize := by
    simp [hsize]
  let final := (page.patch 4 (beBytes 2 (nodeHeaderSize + entries.length * 2))).patch 6
    (beBytes 2 (pageSize - cellsSize F entries))
  have hfinal (b : Nat) (hb : b < 4 ∨ 8 ≤ b) : final.byte b = page.byte b := by
    rw [Page.byte_patch_of_outside h₅ (by simp; omega),
      Page.byte_patch_of_outside h₄ (by simp; omega)]
  have hfront (b : Nat) (hb : b < 4 ∨ 8 ≤ b) (hb' : b < 12) :
      final.byte b = (((Page.zeroed.patch 0 [type]).patch 2
        (beBytes 2 entries.length)).patch 8 (beBytes 4 link.toNat)).byte b :=
    (hfinal b hb).trans (hkept b (by omega))
  have htype : final.pageType = type := by
    rw [Page.pageType, hfront 0 (by omega) (by omega),
      Page.byte_patch_of_outside h₃ (by omega), Page.byte_patch_of_outside h₂ (by omega),
      Page.byte_patch _ _ _ _ h₁]
    rfl
  have hcount : final.readU16 2 = some entries.length := by
    refine Page.readU16_of_slice (by omega) (by omega) ?_
    rw [← Page.slice_patch_same (Page.zeroed.patch 0 [type]) _ _ h₂, beBytes_length]
    exact Page.slice_congr fun b hlo hhi => by
      rw [hfront b (by omega) (by omega), Page.byte_patch_of_outside h₃ (by omega)]
  have hlink : final.readU32 8 = some link := by
    refine Page.readU32_of_slice (by omega) ?_
    rw [← Page.slice_patch_same ((Page.zeroed.patch 0 [type]).patch 2
      (beBytes 2 entries.length)) _ _ h₃, beBytes_length]
    exact Page.slice_congr fun b hlo hhi => hfront b (by omega) (by omega)
  refine ⟨final, ?_, htype, ?_⟩
  · simp only [encodeNode, Page.writeU8, Page.writeU16, Page.writeU32, Page.writeBytes,
      if_pos h₁, if_pos h₂, if_pos h₃, if_pos h₄, if_pos h₅, Option.bind_eq_bind,
      Option.bind_some, hencode, final]
  · have hcells := hread final fun b hb => hfinal b (by omega)
    simp [decodeNode, htype, hcount, hlink, hcells]

end Encoding

namespace LeafNode

def encode (node : LeafNode) : Option Page :=
  encodeNode LeafEntry.cells pageTypeLeaf node.entries node.nextLeaf

def decode (page : Page) : Option LeafNode :=
  (decodeNode LeafEntry.cells pageTypeLeaf page).map fun (entries, link) =>
    { entries, nextLeaf := link }

def encodedSize (node : LeafNode) : Nat :=
  nodeHeaderSize + node.entries.length * 2 + (node.entries.map LeafEntry.cellLen).sum

end LeafNode

namespace InternalNode

def encode (node : InternalNode) : Option Page :=
  encodeNode InternalEntry.cells pageTypeInternal node.entries node.rightmostChild

def decode (page : Page) : Option InternalNode :=
  (decodeNode InternalEntry.cells pageTypeInternal page).map fun (entries, link) =>
    { entries, rightmostChild := link }

def encodedSize (node : InternalNode) : Nat :=
  nodeHeaderSize + node.entries.length * 2 + (node.entries.map InternalEntry.cellLen).sum

def childForKey (node : InternalNode) (key : Bytes) : PageNo :=
  match node.entries.find? fun e => key < e.key with
  | some e => e.leftChild
  | none => node.rightmostChild

end InternalNode

inductive Node where
  | leaf (node : LeafNode)
  | internal (node : InternalNode)
  deriving DecidableEq, Repr

namespace Node

def encode : Node → Option Page
  | .leaf node => node.encode
  | .internal node => node.encode

def encodedSize : Node → Nat
  | .leaf node => node.encodedSize
  | .internal node => node.encodedSize

/-- The node a page holds, by its type. -/
def decode (page : Page) : Option Node :=
  if page.pageType = pageTypeLeaf then (LeafNode.decode page).map .leaf
  else (InternalNode.decode page).map .internal

theorem decode_eq_leaf {page : Page} {node : LeafNode} :
    decode page = some (.leaf node) ↔
      page.pageType = pageTypeLeaf ∧ LeafNode.decode page = some node := by
  unfold decode
  split <;> simp_all

theorem decode_eq_internal {page : Page} {node : InternalNode} :
    decode page = some (.internal node) ↔
      page.pageType = pageTypeInternal ∧ InternalNode.decode page = some node := by
  have htype (h : InternalNode.decode page = some node) : page.pageType = pageTypeInternal := by
    obtain ⟨_, h, -⟩ := Option.map_eq_some_iff.mp h
    by_contra hne
    simp [decodeNode, hne, guard] at h
  unfold decode
  split
  next hleaf => simp [hleaf, pageTypeLeaf, pageTypeInternal]
  next => simpa using htype

/-- A node that fits a page is read back from its image. -/
theorem decode_encode {node : Node} (hfit : node.encodedSize ≤ pageSize) :
    ∃ page, node.encode = some page ∧ decode page = some node := by
  cases node with
  | leaf node =>
      have hsize : cellsSize LeafEntry.cells node.entries =
          (node.entries.map LeafEntry.cellLen).sum := by
        simp only [cellsSize, LeafEntry.cells, LeafEntry.cellBytes_length]
      obtain ⟨page, hencode, htype, hdecode⟩ := decodeNode_encodeNode LeafEntry.cells
        pageTypeLeaf node.entries node.nextLeaf (hsize ▸ hfit)
      exact ⟨page, hencode, decode_eq_leaf.mpr ⟨htype, by simp [LeafNode.decode, hdecode]⟩⟩
  | internal node =>
      have hsize : cellsSize InternalEntry.cells node.entries =
          (node.entries.map InternalEntry.cellLen).sum := by
        simp only [cellsSize, InternalEntry.cells, InternalEntry.cellBytes_length]
      obtain ⟨page, hencode, htype, hdecode⟩ := decodeNode_encodeNode InternalEntry.cells
        pageTypeInternal node.entries node.rightmostChild (hsize ▸ hfit)
      exact ⟨page, hencode,
        decode_eq_internal.mpr ⟨htype, by simp [InternalNode.decode, hdecode]⟩⟩

end Node

end ChocoBase.BTree
