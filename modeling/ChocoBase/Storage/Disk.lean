import ChocoBase.Storage.Header
import ChocoBase.Foundation.Exec
import ChocoBase.Foundation.UndoLog
import Mathlib.Data.Finset.Sort

/-!
# The files and the operating system

The database file is a list of pages: every access of the pager is one whole
page, and every file length it sets is a whole number of pages.  The journal
file is a byte string.

`Os` runs requests that change the files.  It records the requests that took
effect in issue order, so that the files at any crash point are known, and it
may refuse a request: `faults` lists the answers to the coming requests, and a
refused request has no effect.  `orders` lists the orders in which the coming
iterations over a hash set visit its elements.
-/

namespace ChocoBase.Storage

open ChocoBase.Foundation

structure Disk where
  db : List Page
  journal : Option Bytes

inductive DiskOp where
  | truncateDb
  | writePage (no : Nat) (page : Page)
  | setLen (pages : Nat)
  | syncDb
  | createJournal
  | writeJournalHeader (bytes : Bytes)
  | appendJournal (bytes : Bytes)
  | syncJournal
  | removeJournal

def Disk.apply (disk : Disk) : DiskOp → Disk
  | .truncateDb => { disk with db := [] }
  | .writePage no page => { disk with db := writeAt disk.db no page }
  | .setLen pages => { disk with db := resize disk.db pages }
  | .syncDb => disk
  | .createJournal => { disk with journal := some [] }
  | .writeJournalHeader bytes =>
      { disk with journal := disk.journal.map fun old => bytes ++ old.drop bytes.length }
  | .appendJournal bytes => { disk with journal := disk.journal.map (· ++ bytes) }
  | .syncJournal => disk
  | .removeJournal => { disk with journal := none }

/-- An order in which an iteration over a hash set may visit its elements. -/
structure SetOrder where
  visit : Finset PageNo → List PageNo
  nodup_visit : ∀ s, (visit s).Nodup
  mem_visit : ∀ s no, no ∈ visit s ↔ no ∈ s

private instance : IsTrans PageNo (· ≤ ·) := ⟨fun _ _ _ => UInt32.le_trans⟩
private instance : Std.Antisymm fun a b : PageNo => a ≤ b := ⟨fun _ _ => UInt32.le_antisymm⟩
private instance : Std.Total fun a b : PageNo => a ≤ b := ⟨UInt32.le_total⟩

def SetOrder.ascending : SetOrder where
  visit s := s.sort (· ≤ ·)
  nodup_visit s := s.sort_nodup _
  mem_visit s no := by simp

/-- The order of `ascending`, by a sort that runs in the kernel. -/
def SetOrder.byInsertion : SetOrder where
  visit s := Quot.liftOn s.val (fun pages => pages.insertionSort (· ≤ ·)) fun _ _ h =>
    List.Perm.eq_of_pairwise (fun _ _ _ _ => UInt32.le_antisymm) (List.pairwise_insertionSort _ _)
      (List.pairwise_insertionSort _ _)
      (((List.perm_insertionSort _ _).trans h).trans (List.perm_insertionSort _ _).symm)
  nodup_visit s := by
    rcases s with ⟨⟨pages⟩, h⟩
    exact (List.perm_insertionSort _ _).nodup_iff.mpr h
  mem_visit s no := by
    rcases s with ⟨⟨pages⟩, h⟩
    exact (List.perm_insertionSort _ _).mem_iff

structure Os where
  disk : Disk
  faults : List Bool
  issued : List DiskOp
  orders : Nat → SetOrder

namespace Os

/-- A system that has just started on the given files and refuses nothing. -/
def ofDisk (disk : Disk) : Os where
  disk
  faults := []
  issued := []
  orders _ := .ascending

/-- Perform a request, unless this is one the system refuses. -/
def request (op : DiskOp) : Exec Os StorageError Unit := fun os =>
  match os.faults with
  | true :: faults => (.error (.io .other), { os with faults })
  | _ =>
      (.ok (), { os with disk := os.disk.apply op, faults := os.faults.tail,
                         issued := os.issued ++ [op] })

/-- Visit a hash set once. -/
def iterate (s : Finset PageNo) : Exec Os StorageError (List PageNo) := fun os =>
  (.ok ((os.orders 0).visit s), { os with orders := fun n => os.orders (n + 1) })

end Os

/-- The files after a crash that let the first `n` requests of a run persist. -/
def Disk.after (disk : Disk) (ops : List DiskOp) : Disk := ops.foldl Disk.apply disk

/--
The files a crash may leave behind: a prefix of the issued requests took effect,
and a journal append that was in progress may have reached the file in part.
-/
inductive CrashState (disk : Disk) (ops : List DiskOp) : Disk → Prop
  | clean (n : Nat) : CrashState disk ops (disk.after (ops.take n))
  | torn (n : Nat) (record : Bytes) (m : Nat) (h : ops[n]? = some (.appendJournal record)) :
      CrashState disk ops
        ((disk.after (ops.take n)).apply (.appendJournal (record.take m)))

/-! ## Runs of requests -/

theorem Disk.after_append (disk : Disk) (ops more : List DiskOp) :
    disk.after (ops ++ more) = (disk.after ops).after more :=
  List.foldl_append ..

@[simp] theorem Disk.after_nil (disk : Disk) : disk.after [] = disk := rfl

@[simp] theorem Disk.after_cons (disk : Disk) (op : DiskOp) (ops : List DiskOp) :
    disk.after (op :: ops) = (disk.apply op).after ops := rfl

namespace CrashState

theorem all (disk : Disk) (ops : List DiskOp) : CrashState disk ops (disk.after ops) := by
  have h := @clean disk ops ops.length
  rwa [List.take_length] at h

theorem of_nil {disk crashed : Disk} (h : CrashState disk [] crashed) : crashed = disk := by
  cases h with
  | clean n => simp
  | torn n record m h => simp at h

/-- A crash during a run happens before its first request, in it, or after it. -/
theorem of_cons {disk crashed : Disk} {op : DiskOp} {ops : List DiskOp}
    (h : CrashState disk (op :: ops) crashed) :
    crashed = disk ∨
      (∃ record m, op = .appendJournal record ∧
        crashed = disk.apply (.appendJournal (record.take m))) ∨
      CrashState (disk.apply op) ops crashed := by
  cases h with
  | clean n =>
      cases n with
      | zero => exact .inl rfl
      | succ n => exact .inr (.inr (.clean n))
  | torn n record m h =>
      cases n with
      | zero => exact .inr (.inl ⟨record, m, Option.some.inj h, rfl⟩)
      | succ n => exact .inr (.inr (.torn n record m h))

theorem of_append {disk crashed : Disk} {ops more : List DiskOp}
    (h : CrashState disk (ops ++ more) crashed) :
    CrashState disk ops crashed ∨ CrashState (disk.after ops) more crashed := by
  induction ops generalizing disk with
  | nil => exact .inr h
  | cons op ops ih =>
      rcases of_cons h with rfl | ⟨record, m, rfl, rfl⟩ | h
      · exact .inl (.clean 0)
      · exact .inl (.torn 0 record m rfl)
      · rcases ih h with h | h
        · cases h with
          | clean n => exact .inl (.clean (n + 1))
          | torn n record m hrecord => exact .inl (.torn (n + 1) record m hrecord)
        · exact .inr h

end CrashState

/-- `os'` is `os` after the requests `ops` took effect. -/
structure Os.Issues (os os' : Os) (ops : List DiskOp) : Prop where
  issued : os'.issued = os.issued ++ ops
  disk : os'.disk = os.disk.after ops
  calm : os.faults = [] → os'.faults = []

namespace Os.Issues

theorem refl (os : Os) : os.Issues os [] := ⟨by simp, rfl, id⟩

theorem trans {os os' os'' : Os} {ops more : List DiskOp} (h : os.Issues os' ops)
    (hmore : os'.Issues os'' more) : os.Issues os'' (ops ++ more) where
  issued := by rw [hmore.issued, h.issued, List.append_assoc]
  disk := by rw [hmore.disk, h.disk, Disk.after_append]
  calm := fun hcalm => hmore.calm (h.calm hcalm)

end Os.Issues

/-- A request takes effect, or the system refuses it and nothing changes. -/
theorem Os.wp_request {op : DiskOp} {os : Os} {Q : Exec.Post Os StorageError Unit}
    (hok : ∀ os', os.Issues os' [op] → Q.ok () os')
    (herror : ∀ os', os.Issues os' [] → os.faults ≠ [] → Q.error (.io .other) os') :
    Exec.wp (Os.request op) Q os := by
  unfold Exec.wp Os.request
  rcases os with ⟨disk, _ | ⟨_ | _, faults⟩, issued, orders⟩
  · exact hok _ ⟨rfl, rfl, fun _ => rfl⟩
  · exact hok _ ⟨rfl, rfl, fun h => by simp at h⟩
  · exact herror _ ⟨by simp, rfl, fun h => by simp at h⟩ (by simp)

end ChocoBase.Storage
