import ChocoBase.BTree.Pages

/-!
# The B-tree

The operations of the tree, as programs over its pages.  A tree is known by its
root page, and an operation that may move the root returns it.  A path lists the
internal pages from the parent of a node up to the root.

Loops that visit one page after the other run at most once for every page number;
`Stop.diverges` marks a run that would visit more.
-/

namespace ChocoBase.BTree

open ChocoBase.Foundation ChocoBase.Storage

def maxPages : Nat := 2 ^ 32

def minEntries : Nat := 2

/-! ## Searching -/

def unexpectedType (no : PageNo) (pageType : UInt8) : BTreeError :=
  .storage (.corruptPage no ("unexpected page type " ++ toString pageType.toNat))

/-- The loop of `descend`. -/
def descendLoop (key : Bytes) :
    Nat → List PageNo → PageNo → PageProg BTreeError (List PageNo × PageNo)
  | 0, _, _ => .halt .diverges
  | fuel + 1, path, current => do
      let page ← getPage current
      if page.pageType = pageTypeLeaf then return (path, current)
      else if page.pageType = pageTypeInternal then do
        let node ← Prog.unwrap (InternalNode.decode page)
        descendLoop key fuel (current :: path) (node.childForKey key)
      else .throw (unexpectedType current page.pageType)

def descend (root : PageNo) (key : Bytes) : PageProg BTreeError (List PageNo × PageNo) :=
  descendLoop key maxPages [] root

def search (root : PageNo) (key : Bytes) : PageProg BTreeError (Option Bytes) := do
  let (_, leafNo) ← descend root key
  let node ← readLeaf leafNo
  return (node.entries.find? fun e => e.key = key).map LeafEntry.payload

/-- The number of entries before the first one with a key from `key` on. -/
def partitionPoint (entries : List LeafEntry) (key : Bytes) : Nat :=
  (entries.takeWhile fun e => e.key < key).length

/-! ## Inserting -/

/-- The index of the entry whose child is `no`. -/
def InternalNode.position (node : InternalNode) (no : PageNo) : Option Nat :=
  node.entries.findIdx? fun e => e.leftChild = no

/--
The node with `leftChild` split in two.  A child that the node does not have fails
a debug assertion.
-/
def InternalNode.insertChild (node : InternalNode) (leftChild : PageNo) (separator : Bytes)
    (rightChild : PageNo) : Option InternalNode :=
  match node.position leftChild with
  | some i => some { node with
      entries := (node.entries.modify i fun e => { e with leftChild := rightChild }).insertIdx i
        { key := separator, leftChild } }
  | none =>
      if node.rightmostChild = leftChild then some {
        entries := node.entries ++ [{ key := separator, leftChild }]
        rightmostChild := rightChild }
      else none

/-- `ascend` inserts the promoted separator into the next node up the path. -/
def splitInternal (parentNo : PageNo) (node : InternalNode)
    (ascend : PageNo → Bytes → PageNo → PageProg BTreeError PageNo) :
    PageProg BTreeError PageNo := do
  let mid := node.entries.length / 2
  let promote ← Prog.unwrap (node.entries.drop mid).head?
  let rightNo ← allocatePage
  encodeInto parentNo (.internal {
    entries := node.entries.take mid
    rightmostChild := promote.leftChild })
  encodeInto rightNo (.internal {
    entries := (node.entries.drop mid).tail
    rightmostChild := node.rightmostChild })
  ascend parentNo promote.key rightNo

def insertIntoParent (root : PageNo) :
    List PageNo → PageNo → Bytes → PageNo → PageProg BTreeError PageNo
  | [], leftChild, separator, rightChild => do
      let newRootNo ← allocatePage
      encodeInto newRootNo (.internal {
        entries := [{ key := separator, leftChild }]
        rightmostChild := rightChild })
      return newRootNo
  | parentNo :: path, leftChild, separator, rightChild => do
      let node ← readInternal parentNo
      let node ← Prog.unwrap (node.insertChild leftChild separator rightChild)
      if node.encodedSize ≤ pageSize then do
        encodeInto parentNo (.internal node)
        return root
      else splitInternal parentNo node (insertIntoParent root path)

/-- The size of a leaf with one entry. -/
def singleEntrySize (key payload : Bytes) : Nat :=
  nodeHeaderSize + 2 + 2 + key.length + 2 + payload.length

/-- The second part of `insert`: a leaf whose entries do not fit is split. -/
def splitLeaf (root : PageNo) (path : List PageNo) (leafNo : PageNo) (node : LeafNode) :
    PageProg BTreeError PageNo := do
  let mid := node.entries.length / 2
  let rightNo ← allocatePage
  let first ← Prog.unwrap (node.entries.drop mid).head?
  encodeInto leafNo (.leaf { entries := node.entries.take mid, nextLeaf := rightNo })
  encodeInto rightNo (.leaf { entries := node.entries.drop mid, nextLeaf := node.nextLeaf })
  insertIntoParent root path leafNo first.key rightNo

def insert (root : PageNo) (key payload : Bytes) : PageProg BTreeError PageNo := do
  if pageSize < singleEntrySize key payload then
    .throw (.rowTooLarge (singleEntrySize key payload) pageSize)
  else do
    let (path, leafNo) ← descend root key
    let node ← readLeaf leafNo
    if node.entries.any fun e => e.key = key then .throw .duplicateKey
    else do
      let node := { node with
        entries := node.entries.insertIdx (partitionPoint node.entries key) { key, payload } }
      if node.encodedSize ≤ pageSize then do
        encodeInto leafNo (.leaf node)
        return root
      else splitLeaf root path leafNo node

/-! ## Deleting -/

/-- The pages of the children, from left to right. -/
def InternalNode.children (node : InternalNode) : List PageNo :=
  node.entries.map InternalEntry.leftChild ++ [node.rightmostChild]

def findSiblings (parentNo childNo : PageNo) :
    PageProg BTreeError (Option PageNo × Option PageNo) := do
  let parent ← readInternal parentNo
  let idx ← Prog.unwrap (parent.children.findIdx? fun c => c = childNo)
  let left := if 0 < idx then parent.children[idx - 1]? else none
  let right := if idx + 1 < parent.children.length then parent.children[idx + 1]? else none
  return (left, right)

def InternalNode.setKey (node : InternalNode) (i : Nat) (key : Bytes) : InternalNode :=
  { node with entries := node.entries.modify i fun e => { e with key } }

def updateSeparator (parentNo leftChild : PageNo) (newKey : Bytes) :
    PageProg BTreeError Unit := do
  let parent ← readInternal parentNo
  let i ← Prog.unwrap (parent.position leftChild)
  encodeInto parentNo (.internal (parent.setKey i newKey))

/-- The parent after its children `leftNo` and `rightNo` became one. -/
def InternalNode.mergeChildren (parent : InternalNode) (i : Nat) (leftNo rightNo : PageNo) :
    Option InternalNode :=
  let parent := { parent with entries := parent.entries.eraseIdx i }
  if parent.rightmostChild = rightNo then some { parent with rightmostChild := leftNo }
  else (parent.position rightNo).map fun j =>
    { parent with entries := parent.entries.modify j fun e => { e with leftChild := leftNo } }

def borrowFromRightInternal (parentNo nodeNo rightNo : PageNo) : PageProg BTreeError Unit := do
  let node ← readInternal nodeNo
  let right ← readInternal rightNo
  let parent ← readInternal parentNo
  let sepIdx ← Prog.unwrap (parent.position nodeNo)
  let sep ← Prog.unwrap parent.entries[sepIdx]?
  let moved ← Prog.unwrap right.entries.head?
  encodeInto nodeNo (.internal {
    entries := node.entries ++ [{ key := sep.key, leftChild := node.rightmostChild }]
    rightmostChild := moved.leftChild })
  encodeInto rightNo (.internal { right with entries := right.entries.tail })
  encodeInto parentNo (.internal (parent.setKey sepIdx moved.key))

def borrowFromLeftInternal (parentNo leftNo nodeNo : PageNo) : PageProg BTreeError Unit := do
  let left ← readInternal leftNo
  let node ← readInternal nodeNo
  let parent ← readInternal parentNo
  let sepIdx ← Prog.unwrap (parent.position leftNo)
  let sep ← Prog.unwrap parent.entries[sepIdx]?
  let lastEntry ← Prog.unwrap left.entries.getLast?
  encodeInto leftNo (.internal {
    entries := left.entries.dropLast
    rightmostChild := lastEntry.leftChild })
  encodeInto nodeNo (.internal { node with
    entries := { key := sep.key, leftChild := left.rightmostChild } :: node.entries })
  encodeInto parentNo (.internal (parent.setKey sepIdx lastEntry.key))

/-- `ascend` rebalances the parent. -/
def mergeInternal (parentNo leftNo rightNo : PageNo) (ascend : PageProg BTreeError PageNo) :
    PageProg BTreeError PageNo := do
  let left ← readInternal leftNo
  let right ← readInternal rightNo
  let parent ← readInternal parentNo
  let sepIdx ← Prog.unwrap (parent.position leftNo)
  let sep ← Prog.unwrap parent.entries[sepIdx]?
  encodeInto leftNo (.internal {
    entries := left.entries ++ { key := sep.key, leftChild := left.rightmostChild } ::
      right.entries
    rightmostChild := right.rightmostChild })
  freePage rightNo
  let parent ← Prog.unwrap (parent.mergeChildren sepIdx leftNo rightNo)
  encodeInto parentNo (.internal parent)
  ascend

/-- The sibling, if it has more entries than it needs. -/
def spareInternal : Option PageNo → PageProg BTreeError (Option PageNo)
  | none => return none
  | some no => do
      let node ← readInternal no
      return if minEntries < node.entries.length then some no else none

def rebalanceInternal (root : PageNo) :
    List PageNo → PageNo → PageProg BTreeError PageNo
  | path, nodeNo => do
    let node ← readInternal nodeNo
    if nodeNo = root then
      -- an empty root gives way to its only child and stays allocated
      return if node.entries.isEmpty then node.rightmostChild else root
    else if minEntries ≤ node.entries.length then return root
    else match path with
      | [] => .halt .panic
      | parentNo :: path => do
          let (leftSib, rightSib) ← findSiblings parentNo nodeNo
          match ← spareInternal rightSib with
          | some rightNo => do
              borrowFromRightInternal parentNo nodeNo rightNo
              return root
          | none =>
              match ← spareInternal leftSib with
              | some leftNo => do
                  borrowFromLeftInternal parentNo leftNo nodeNo
                  return root
              | none =>
                  match rightSib, leftSib with
                  | some rightNo, _ =>
                      mergeInternal parentNo nodeNo rightNo (rebalanceInternal root path parentNo)
                  | none, some leftNo =>
                      mergeInternal parentNo leftNo nodeNo (rebalanceInternal root path parentNo)
                  | none, none => return root

def borrowFromRightLeaf (parentNo nodeNo rightNo : PageNo) : PageProg BTreeError Unit := do
  let node ← readLeaf nodeNo
  let right ← readLeaf rightNo
  let moved ← Prog.unwrap right.entries.head?
  let first ← Prog.unwrap right.entries.tail.head?
  encodeInto nodeNo (.leaf { node with entries := node.entries ++ [moved] })
  encodeInto rightNo (.leaf { right with entries := right.entries.tail })
  updateSeparator parentNo nodeNo first.key

def borrowFromLeftLeaf (parentNo leftNo nodeNo : PageNo) : PageProg BTreeError Unit := do
  let left ← readLeaf leftNo
  let node ← readLeaf nodeNo
  let moved ← Prog.unwrap left.entries.getLast?
  encodeInto leftNo (.leaf { left with entries := left.entries.dropLast })
  encodeInto nodeNo (.leaf { node with entries := moved :: node.entries })
  updateSeparator parentNo leftNo moved.key

def mergeLeaves (root : PageNo) (path : List PageNo) (parentNo leftNo rightNo : PageNo) :
    PageProg BTreeError PageNo := do
  let left ← readLeaf leftNo
  let right ← readLeaf rightNo
  encodeInto leftNo (.leaf {
    entries := left.entries ++ right.entries
    nextLeaf := right.nextLeaf })
  freePage rightNo
  let parent ← readInternal parentNo
  let i ← Prog.unwrap (parent.position leftNo)
  let parent ← Prog.unwrap (parent.mergeChildren i leftNo rightNo)
  encodeInto parentNo (.internal parent)
  rebalanceInternal root path parentNo

def spareLeaf : Option PageNo → PageProg BTreeError (Option PageNo)
  | none => return none
  | some no => do
      let node ← readLeaf no
      return if minEntries < node.entries.length then some no else none

def rebalanceLeaf (root : PageNo) (path : List PageNo) (nodeNo : PageNo) :
    PageProg BTreeError PageNo := do
  let node ← readLeaf nodeNo
  if minEntries ≤ node.entries.length then return root
  else match path with
    | [] => .halt .panic
    | parentNo :: path => do
        let (leftSib, rightSib) ← findSiblings parentNo nodeNo
        match ← spareLeaf rightSib with
        | some rightNo => do
            borrowFromRightLeaf parentNo nodeNo rightNo
            return root
        | none =>
            match ← spareLeaf leftSib with
            | some leftNo => do
                borrowFromLeftLeaf parentNo leftNo nodeNo
                return root
            | none =>
                match rightSib, leftSib with
                | some rightNo, _ => mergeLeaves root path parentNo nodeNo rightNo
                | none, some leftNo => mergeLeaves root path parentNo leftNo nodeNo
                | none, none => return root

/-- Whether the key was present, and the root after deleting it. -/
def delete (root : PageNo) (key : Bytes) : PageProg BTreeError (Bool × PageNo) := do
  let (path, leafNo) ← descend root key
  let node ← readLeaf leafNo
  match node.entries.findIdx? fun e => e.key = key with
  | none => return (false, root)
  | some pos => do
      encodeInto leafNo (.leaf { node with entries := node.entries.eraseIdx pos })
      if path.isEmpty then return (true, root)
      else do
        let root ← rebalanceLeaf root path leafNo
        return (true, root)

/-! ## Cursors -/

structure Cursor where
  index : Nat
  entries : List LeafEntry
  nextLeaf : PageNo
  finished : Bool

def Cursor.fromLeaf (node : LeafNode) (index : Nat) : Cursor where
  index
  entries := node.entries
  nextLeaf := node.nextLeaf
  finished := false

/-- The loop of `cursorStart`. -/
def leftmostLoop : Nat → PageNo → PageProg BTreeError PageNo
  | 0, _ => .halt .diverges
  | fuel + 1, current => do
      let page ← getPage current
      if page.pageType = pageTypeLeaf then return current
      else if page.pageType = pageTypeInternal then do
        let node ← Prog.unwrap (InternalNode.decode page)
        match node.entries.head? with
        | some e => leftmostLoop fuel e.leftChild
        | none => leftmostLoop fuel node.rightmostChild
      else .throw (unexpectedType current page.pageType)

def cursorStart (root : PageNo) : PageProg BTreeError Cursor := do
  let leafNo ← leftmostLoop maxPages root
  let node ← readLeaf leafNo
  return Cursor.fromLeaf node 0

def cursorSeek (root : PageNo) (key : Bytes) : PageProg BTreeError Cursor := do
  let (_, leafNo) ← descend root key
  let node ← readLeaf leafNo
  return Cursor.fromLeaf node (partitionPoint node.entries key)

namespace Cursor

/-- The recursion of `next`, which goes on to the next leaf when one is used up. -/
def nextLoop : Nat → Cursor → PageProg BTreeError (Option (Bytes × Bytes) × Cursor)
  | 0, _ => .halt .diverges
  | fuel + 1, cursor =>
      if cursor.finished then return (none, cursor)
      else match cursor.entries[cursor.index]? with
        | some e => return (some (e.key, e.payload), { cursor with index := cursor.index + 1 })
        | none =>
            if cursor.nextLeaf = 0 then return (none, { cursor with finished := true })
            else do
              let node ← readLeaf cursor.nextLeaf
              nextLoop fuel (fromLeaf node 0)

def next (cursor : Cursor) : PageProg BTreeError (Option (Bytes × Bytes) × Cursor) :=
  nextLoop (maxPages + 1) cursor

/-- The answers of `count` calls of `next`. -/
def nexts : Nat → Cursor → PageProg BTreeError (List (Option (Bytes × Bytes)))
  | 0, _ => return []
  | count + 1, cursor => do
      let (entry, cursor) ← cursor.next
      let rest ← nexts count cursor
      return entry :: rest

end Cursor

end ChocoBase.BTree
