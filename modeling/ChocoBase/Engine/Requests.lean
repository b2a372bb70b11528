import ChocoBase.BTree.Runs
import ChocoBase.Foundation.Contract
import ChocoBase.Types.Schema

/-!
# What the engine asks for

The engine reaches its data through the B-trees, the pager and the channel of
change events.  `DbRequest` lists these calls, one for each call of the source.

A scan yields all entries of a tree at once, together with the way it ended: an
operator that stops early never looks at the rest.
-/

namespace ChocoBase.Engine

open ChocoBase.Foundation ChocoBase.Storage ChocoBase.BTree ChocoBase.Types

inductive ChangeAction where
  | insert
  | update
  | delete
  deriving DecidableEq, Repr

structure ChangeEvent where
  table : String
  action : ChangeAction
  oldRow : Option Row
  newRow : Option Row
  timestampMs : UInt64
  deriving DecidableEq

/-- What a cursor yields, and how that ends. -/
structure Scanned where
  entries : List (Bytes × Bytes)
  ending : Outcome BTreeError Unit

inductive DbRequest where
  /-- `allocate_page`, then an empty leaf on the new page -/
  | createTree
  | insert (root : PageNo) (key payload : Bytes)
  | delete (root : PageNo) (key : Bytes)
  | search (root : PageNo) (key : Bytes)
  /-- `cursor_start` and `next` until the end -/
  | scan (root : PageNo)
  /-- `cursor_seek` and `next` until the end -/
  | scanFrom (root : PageNo) (key : Bytes)
  | walkAndFree (root : PageNo)
  | catalogRoot
  | setCatalogRoot (root : PageNo)
  | flush
  | inTransaction
  | beginTransaction
  | commitTransaction
  | rollbackTransaction
  /-- the field `root` of the catalog -/
  | root
  | setRoot (root : PageNo)
  /-- `transaction_events.push` -/
  | queueEvent (event : ChangeEvent)
  | clearEvents
  /-- send and drain the queued events, if there is a channel -/
  | publishEvents
  /-- send one event, if there is a channel -/
  | sendEvent (event : ChangeEvent)
  /-- the clock, in milliseconds -/
  | now
  | hashPassword (password : String)
  /-- the password of the first user, from the environment -/
  | defaultPassword

namespace DbRequest

def Res : DbRequest → Type
  | .createTree => PageNo
  | .insert .. => PageNo
  | .delete .. => Bool × PageNo
  | .search .. => Option Bytes
  | .scan _ => Scanned
  | .scanFrom .. => Scanned
  | .catalogRoot => PageNo
  | .inTransaction => Bool
  | .root => PageNo
  | .now => UInt64
  | .hashPassword _ => String
  | .defaultPassword => String
  | .walkAndFree _ | .setCatalogRoot _ | .flush | .beginTransaction | .commitTransaction
  | .rollbackTransaction | .setRoot _ | .queueEvent _ | .clearEvents | .publishEvents
  | .sendEvent _ => Unit

end DbRequest

def dbRequests : Interface where
  Op := DbRequest
  Res := DbRequest.Res
  Err := BTreeError

abbrev DbProg (ε α : Type) : Type := Prog dbRequests ε α

/-! ## Trees as a whole -/

/-- More calls of `next` than a tree has entries. -/
def maxEntries : Nat := 2 ^ 48

def drain : Nat → Cursor → Exec Pager BTreeError Scanned
  | 0, _ => return ⟨[], .stop .diverges⟩
  | fuel + 1, cursor => do
      match ← Exec.capture (cursor.next.run PageRequest.onPager) with
      | .ok (some entry, cursor) => do
          let rest ← drain fuel cursor
          return ⟨entry :: rest.entries, rest.ending⟩
      | .ok (none, _) => return ⟨[], .ok ()⟩
      | .error reason => return ⟨[], .error reason⟩
      | .stop why => return ⟨[], .stop why⟩

def scanWith (start : PageProg BTreeError Cursor) : Exec Pager BTreeError Scanned := do
  match ← Exec.capture (start.run PageRequest.onPager) with
  | .ok cursor => drain maxEntries cursor
  | .error reason => return ⟨[], .error reason⟩
  | .stop why => return ⟨[], .stop why⟩

def freeEach (free : PageNo → PageProg BTreeError Unit) : List PageNo → PageProg BTreeError Unit
  | [] => return ()
  | no :: rest => do
      free no
      freeEach free rest

/-- The recursion of `walk_and_free`; a page that holds no node is left alone. -/
def walkAndFree : Nat → PageNo → PageProg BTreeError Unit
  | 0, _ => .halt .diverges
  | fuel + 1, no => do
      let page ← getPage no
      if page.pageType = pageTypeInternal then do
        let node ← Prog.unwrap (InternalNode.decode page)
        freeEach (walkAndFree fuel) node.children
        freePage no
      else if page.pageType ≠ pageTypeLeaf then return ()
      else freePage no

/-! ## The database -/

/-- What the program gets from outside; each answer may differ from the last one. -/
structure Environment where
  now : Nat → UInt64
  hashPassword : Nat → String → String
  defaultPassword : String

structure Database where
  pager : Pager
  root : PageNo
  /-- whether there is a channel for change events -/
  subscribed : Bool
  transactionEvents : List ChangeEvent
  /-- the events sent to the channel so far -/
  delivered : List ChangeEvent
  /-- how often the environment was asked -/
  asked : Nat

namespace Database

def onPager {ε α : Type} (x : Exec Pager ε α) : Exec Database ε α :=
  Exec.zoom Database.pager (fun d pager => { d with pager }) x

def onTree {ε α : Type} (x : PageProg ε α) : Exec Database ε α :=
  onPager (x.run PageRequest.onPager)

/-- A pager call; its errors are storage errors. -/
def onStorage {α : Type} (x : Exec Pager StorageError α) : Exec Database BTreeError α :=
  fun d => (((onPager x) d).1.mapError .storage, ((onPager x) d).2)

def answer (env : Environment) : Handler dbRequests Database
  | .createTree => onTree (emptyTree BTreeError.storage)
  | .insert root key payload => onTree (BTree.insert root key payload)
  | .delete root key => onTree (BTree.delete root key)
  | .search root key => onTree (BTree.search root key)
  | .scan root => onPager (scanWith (cursorStart root))
  | .scanFrom root key => onPager (scanWith (cursorSeek root key))
  | .walkAndFree root => onTree (Engine.walkAndFree maxPages root)
  | .catalogRoot => onStorage Pager.catalogRoot
  | .setCatalogRoot root => onStorage (Pager.setCatalogRoot root)
  | .flush => onStorage Pager.flush
  | .inTransaction => fun d => (.ok d.pager.inTransaction, d)
  | .beginTransaction => onStorage Pager.beginTransaction
  | .commitTransaction => onStorage Pager.commitTransaction
  | .rollbackTransaction => onStorage Pager.rollbackTransaction
  | .root => fun d => (.ok d.root, d)
  | .setRoot root => fun d => (.ok (), { d with root })
  | .queueEvent event => fun d =>
      (.ok (), { d with transactionEvents := d.transactionEvents ++ [event] })
  | .clearEvents => fun d => (.ok (), { d with transactionEvents := [] })
  | .publishEvents => fun d =>
      if d.subscribed then
        (.ok (), { d with delivered := d.delivered ++ d.transactionEvents, transactionEvents := [] })
      else (.ok (), d)
  | .sendEvent event => fun d =>
      if d.subscribed then (.ok (), { d with delivered := d.delivered ++ [event] })
      else (.ok (), d)
  | .now => fun d => (.ok (env.now d.asked), { d with asked := d.asked + 1 })
  | .hashPassword password => fun d =>
      (.ok (env.hashPassword d.asked password), { d with asked := d.asked + 1 })
  | .defaultPassword => fun d => (.ok env.defaultPassword, d)

end Database

end ChocoBase.Engine
