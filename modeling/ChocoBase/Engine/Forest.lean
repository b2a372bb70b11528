import ChocoBase.BTree.Forest
import ChocoBase.Engine.Requests

/-!
# The database as a forest of maps

What the engine's requests mean: a map at the root of each tree, the state that a
`ROLLBACK` would bring back, and the queue of change events.  The contract says
what a request may answer, not where the pages lie.
-/

namespace ChocoBase.Engine

open ChocoBase.Foundation ChocoBase.Storage ChocoBase.BTree

/-- The trees of the database, and whether they take up all pages in use. -/
structure Snapshot where
  roots : Roots
  catalogRoot : PageNo
  tidy : Bool

structure Forest where
  now : Snapshot
  /-- In a transaction: what a `ROLLBACK` brings back, if pages were clean at `BEGIN`. -/
  atBegin : Option (Option Snapshot)
  /-- no page waits in the cache to be written -/
  clean : Bool
  root : PageNo
  subscribed : Bool
  transactionEvents : List ChangeEvent
  delivered : List ChangeEvent

namespace Forest

variable (f : Forest)

def withNow (now : Snapshot) : Forest := { f with now, clean := false }

def plant (root : PageNo) (m : OrdMap Bytes Bytes) : Forest :=
  f.withNow { f.now with roots := f.now.roots.plant root m }

def fell (root : PageNo) : Forest := f.withNow { f.now with roots := f.now.roots.fell root }

def withTidy (tidy : Bool) : Forest := f.withNow { f.now with tidy }

/-- What `BEGIN` saves. -/
def saved : Option Snapshot := if f.clean then some f.now else none

end Forest

/-! ## The contract -/

def requestPre : DbRequest → Forest → Prop
  | .insert root _ _, f | .delete root _, f | .search root _, f | .scan root, f
  | .scanFrom root _, f | .walkAndFree root, f => f.now.roots root ≠ none
  | .beginTransaction, f => f.atBegin = none
  | .commitTransaction, f => f.atBegin ≠ none
  | .rollbackTransaction, f => ∃ snap, f.atBegin = some (some snap)
  | _, _ => True

/--
What a request may answer, and the state after it.  In a strict contract no
deletion leaves the page of an old root behind.
-/
def requestPost (strict : Bool) :
    (op : DbRequest) → Forest → Outcome BTreeError op.Res → Forest → Prop
  | .createTree, f, .ok root, f' =>
      f.now.roots.Fresh root ∧ f' = f.plant root .empty
  | .insert root key payload, f, .ok root', f' => ∃ m, f.now.roots root = some m ∧
      m.get key = none ∧ singleEntrySize key payload ≤ pageSize ∧
      (f.now.roots.fell root).Fresh root' ∧
      f' = (f.fell root).plant root' (m.insert key payload)
  | .insert root key payload, f, .error reason, f' => f' = f.withNow f.now ∧
      (reason = .rowTooLarge (singleEntrySize key payload) pageSize ∧
          pageSize < singleEntrySize key payload ∨
        reason = .duplicateKey ∧ ∃ m, f.now.roots root = some m ∧ m.get key ≠ none)
  | .delete root key, f, .ok (present, root'), f' => ∃ m, f.now.roots root = some m ∧
      (present = false ∧ root' = root ∧ m.get key = none ∧ f' = f.withNow f.now ∨
        present = true ∧ m.get key ≠ none ∧ (f.now.roots.fell root).Fresh root' ∧
          ∃ tidy, (strict = true → tidy = f.now.tidy) ∧
            f' = ((f.fell root).plant root' (m.erase key)).withTidy tidy)
  | .search root key, f, .ok found, f' =>
      f' = f ∧ ∃ m, f.now.roots root = some m ∧ found = m.get key
  | .scan root, f, .ok scanned, f' =>
      f' = f ∧ ∃ m, f.now.roots root = some m ∧ scanned = ⟨m.entries, .ok ()⟩
  | .scanFrom root key, f, .ok scanned, f' =>
      f' = f ∧ ∃ m, f.now.roots root = some m ∧ scanned = ⟨m.from key, .ok ()⟩
  | .walkAndFree root, f, .ok _, f' => f' = f.fell root
  | .catalogRoot, f, .ok root, f' => f' = f ∧ root = f.now.catalogRoot
  | .setCatalogRoot root, f, .ok _, f' => f' = f.withNow { f.now with catalogRoot := root }
  | .flush, f, .ok _, f' => f' = { f with clean := true }
  | .inTransaction, f, .ok active, f' => f' = f ∧ active = f.atBegin.isSome
  | .beginTransaction, f, .ok _, f' => f' = { f with atBegin := some f.saved }
  | .commitTransaction, f, .ok _, f' => f' = { f with atBegin := none, clean := true }
  | .rollbackTransaction, f, .ok _, f' => ∃ snap, f.atBegin = some (some snap) ∧
      f' = { f with now := snap, atBegin := none, clean := true }
  | .root, f, .ok root, f' => f' = f ∧ root = f.root
  | .setRoot root, f, .ok _, f' => f' = { f with root }
  | .queueEvent event, f, .ok _, f' =>
      f' = { f with transactionEvents := f.transactionEvents ++ [event] }
  | .clearEvents, f, .ok _, f' => f' = { f with transactionEvents := [] }
  | .publishEvents, f, .ok _, f' => f' = if f.subscribed then
      { f with delivered := f.delivered ++ f.transactionEvents, transactionEvents := [] } else f
  | .sendEvent event, f, .ok _, f' =>
      f' = if f.subscribed then { f with delivered := f.delivered ++ [event] } else f
  | .now, f, .ok _, f' | .hashPassword _, f, .ok _, f' | .defaultPassword, f, .ok _, f' => f' = f
  -- the page numbers may run out
  | .createTree, _, .stop why, _ | .insert .., _, .stop why, _ | .delete .., _, .stop why, _
  | .walkAndFree _, _, .stop why, _ => why = .overflow
  | _, _, _, _ => False

def forestContract (strict : Bool) : Contract dbRequests Forest where
  pre := requestPre
  post := requestPost strict

end ChocoBase.Engine
