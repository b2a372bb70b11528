import ChocoBase.Foundation.Trace
import Mathlib.Algebra.Group.Nat.Defs
import Mathlib.Logic.Function.Basic

/-!
# The database's lock file

Processes acquire and drop the lock file of one database.  Every action below is
one call of the file system or of `kill`, so a run of the system is an
interleaving of the processes.  A file keeps its number when its name is removed,
as an open handle keeps reading it.
-/

namespace ChocoBase.Concurrency.LockFile

open ChocoBase.Foundation

/-! ## The process number in the file -/

def isWhitespace (c : Char) : Bool :=
  let n := c.toNat
  (9 ≤ n && n ≤ 13) || n = 0x20 || n = 0x85 || n = 0xA0 || n = 0x1680 ||
    (0x2000 ≤ n && n ≤ 0x200A) || n = 0x2028 || n = 0x2029 || n = 0x202F || n = 0x205F ||
    n = 0x3000

def trim (text : List Char) : List Char :=
  ((text.dropWhile isWhitespace).reverse.dropWhile isWhitespace).reverse

def dropPlus : List Char → List Char
  | '+' :: rest => rest
  | text => text

/-- A `u32` is an optional plus sign and digits. -/
def parseU32 (text : List Char) : Option Nat :=
  let digits := dropPlus text
  if digits ≠ [] ∧ digits.all Char.isDigit = true ∧ Nat.ofDigitChars 10 digits 0 < 2 ^ 32 then
    some (Nat.ofDigitChars 10 digits 0)
  else none

def parsePid (contents : List Char) : Option Nat :=
  parseU32 (trim contents)

def showPid (pid : Nat) : List Char :=
  Nat.toDigits 10 pid

private theorem isWhitespace_of_isDigit {c : Char} (h : c.isDigit = true) :
    isWhitespace c = false := by
  have hrange : 48 ≤ c.toNat ∧ c.toNat ≤ 57 := by
    simpa [Char.isDigit, Char.le_def, UInt32.le_iff_toNat_le] using h
  simp only [isWhitespace, Bool.or_eq_false_iff, Bool.and_eq_false_iff, decide_eq_false_iff_not]
  omega

theorem trim_of_digits {text : List Char} (h : ∀ c ∈ text, c.isDigit = true) : trim text = text := by
  have hself : ∀ l : List Char, (∀ c ∈ l, c.isDigit = true) → l.dropWhile isWhitespace = l := by
    intro l hl
    cases l with
    | nil => rfl
    | cons c l =>
        have hc := isWhitespace_of_isDigit (hl c List.mem_cons_self)
        simp [hc]
  rw [trim, hself text h, hself _ fun c hc => h c (List.mem_reverse.mp hc), List.reverse_reverse]

/-- A process reads back the number that another one wrote. -/
theorem parsePid_showPid {pid : Nat} (h : pid < 2 ^ 32) : parsePid (showPid pid) = some pid := by
  have hdigits : ∀ c ∈ showPid pid, c.isDigit = true := fun c hc =>
    Nat.isDigit_of_mem_toDigits (by decide) (by decide) hc
  have hne : showPid pid ≠ [] := Nat.toDigits_ne_nil
  have hvalue : Nat.ofDigitChars 10 (showPid pid) 0 = pid := Nat.ofDigitChars_ten_toDigits
  have hplus : dropPlus (showPid pid) = showPid pid := by
    unfold dropPlus
    split
    next rest heq => exact absurd (hdigits '+' (by rw [heq]; exact List.mem_cons_self)) (by decide)
    next => rfl
  rw [parsePid, trim_of_digits hdigits, parseU32, hplus, hvalue]
  exact if_pos ⟨hne, List.all_eq_true.mpr hdigits, h⟩

/-! ## Processes and files -/

inductive Life where
  | unborn
  | alive
  | dead
  deriving DecidableEq

/-- Where a call of `acquire`, and later the drop of what it returned, stands. -/
inductive Phase where
  | checkExists
  | openRead
  | read (opened : Nat)
  | checkAlive (opened existingPid : Nat)
  | remove (opened : Option Nat)
  | create
  | write (file : Nat)
  | sync (file : Nat)
  | held (file : Nat)
  | dropExists (file : Nat)
  | dropOpen (file : Nat)
  | dropRead (file opened : Nat)
  | dropRemove (file : Nat)
  | failed
  | dropped
  deriving DecidableEq

structure Acquisition where
  pid : Nat
  phase : Phase

structure World where
  /-- the file that has the lock's name -/
  path : Option Nat
  /-- the text of a file, if it is text -/
  contents : Nat → Option (List Char)
  /-- the number of the next new file -/
  next : Nat
  processes : Nat → Life
  acquisitions : Nat → Option Acquisition

inductive Action where
  | start (pid : Nat)
  | die (pid : Nat)
  | acquire (i pid : Nat)
  /-- the next system call of an acquisition, which is `ok` or fails -/
  | advance (i : Nat) (ok : Bool)
  | drop (i : Nat)

namespace World

def put (s : World) (i : Nat) (a : Acquisition) (phase : Phase) : World :=
  { s with acquisitions := Function.update s.acquisitions i (some { a with phase }) }

/-- `kill` with a number from `2 ^ 31` on asks for a group of processes. -/
def isPidAlive (s : World) (pid : Nat) (ok : Bool) : Bool :=
  pid ≠ 0 && (s.processes pid = .alive || 2 ^ 31 ≤ pid) && ok

def readPid (s : World) (file : Nat) (ok : Bool) : Option Nat :=
  if ok then (s.contents file).bind parsePid else none

def removeFile (s : World) (ok : Bool) : World :=
  if ok then { s with path := none } else s

/-- The file with the lock's name is emptied, or made. -/
def createFile (s : World) : World × Nat :=
  match s.path with
  | some file => ({ s with contents := Function.update s.contents file (some []) }, file)
  | none => ({ s with
      path := some s.next
      contents := Function.update s.contents s.next (some [])
      next := s.next + 1 }, s.next)

/-- The text replaces the start of what the file holds. -/
def writeFile (s : World) (file : Nat) (text : List Char) : World :=
  let rest := ((s.contents file).getD []).drop text.length
  { s with contents := Function.update s.contents file (some (text ++ rest)) }

def advance (s : World) (i : Nat) (a : Acquisition) (ok : Bool) : Option World :=
  match a.phase with
  | .checkExists => some (s.put i a (if s.path.isSome then .openRead else .create))
  | .openRead => some (s.put i a (match (if ok then s.path else none) with
      | some opened => .read opened
      | none => .remove none))
  | .read opened => some (s.put i a (match s.readPid opened ok with
      | some existingPid => .checkAlive opened existingPid
      | none => .remove (some opened)))
  | .checkAlive opened existingPid => some (s.put i a
      (if existingPid ≠ a.pid && s.isPidAlive existingPid ok then .failed
      else .remove (some opened)))
  | .remove _ => some ((s.removeFile ok).put i a .create)
  | .create =>
      if ok then some (s.createFile.1.put i a (.write s.createFile.2))
      else some (s.put i a .failed)
  | .write file =>
      if ok then some ((s.writeFile file (showPid a.pid)).put i a (.sync file))
      else some (s.put i a .failed)
  | .sync file => some (s.put i a (if ok then .held file else .failed))
  | .dropExists file => some (s.put i a (if s.path.isSome then .dropOpen file else .dropped))
  | .dropOpen file => some (s.put i a (match (if ok then s.path else none) with
      | some opened => .dropRead file opened
      | none => .dropped))
  | .dropRead file opened => some (s.put i a
      (if s.readPid opened ok = some a.pid then .dropRemove file else .dropped))
  | .dropRemove _ => some ((s.removeFile ok).put i a .dropped)
  | .held _ | .failed | .dropped => none

/-- The number of a process is never given to another one. -/
def step (s : World) : Action → Option World
  | .start pid =>
      if s.processes pid = .unborn ∧ 0 < pid ∧ pid < 2 ^ 31 then
        some { s with processes := Function.update s.processes pid .alive }
      else none
  | .die pid =>
      if s.processes pid = .alive then
        some { s with processes := Function.update s.processes pid .dead }
      else none
  | .acquire i pid =>
      if s.processes pid = .alive ∧ s.acquisitions i = none then
        some (s.put i ⟨pid, .checkExists⟩ .checkExists)
      else none
  | .advance i ok => do
      let a ← s.acquisitions i
      if s.processes a.pid = .alive then s.advance i a ok else none
  | .drop i => do
      let a ← s.acquisitions i
      match a.phase with
      | .held file =>
          if s.processes a.pid = .alive then some (s.put i a (.dropExists file)) else none
      | _ => none

end World

/-- The file that the acquisition made and has not given up. -/
def Phase.file : Phase → Option Nat
  | .write file | .sync file | .held file | .dropExists file | .dropOpen file
  | .dropRead file _ | .dropRemove file => some file
  | _ => none

/-- The file that an acquisition has read or reads. -/
def Phase.opened : Phase → Option Nat
  | .read opened | .checkAlive opened _ => some opened
  | .remove opened => opened
  | _ => none

/-- What a process has written to its file so far. -/
def Acquisition.text (a : Acquisition) (file : Nat) : List Char :=
  if a.phase = .write file then [] else showPid a.pid

/-- Acquired, and not yet dropped. -/
def Phase.Held : Phase → Prop
  | .held _ | .dropExists _ | .dropOpen _ | .dropRead _ _ | .dropRemove _ => True
  | _ => False

def Phase.Active (phase : Phase) : Prop :=
  phase ≠ .failed ∧ phase ≠ .dropped

namespace World

/-- Any file may be there at first, also one of a dead process or of no process at all. -/
structure Initial (s : World) : Prop where
  acquisitions : ∀ i, s.acquisitions i = none
  path : ∀ file, s.path = some file → file < s.next
  processes : ∀ pid, s.processes pid = .alive → 0 < pid ∧ pid < 2 ^ 31

/-- The file is one that a live process made and has not given up. -/
def Owns (s : World) (j : Nat) (b : Acquisition) (file : Nat) : Prop :=
  s.acquisitions j = some b ∧ s.processes b.pid = .alive ∧ b.phase.file = some file

/-- At most one live process has the lock. -/
def Exclusive (s : World) : Prop :=
  ∀ i j a b, s.acquisitions i = some a → s.acquisitions j = some b →
    s.processes a.pid = .alive → s.processes b.pid = .alive →
    a.phase.Held → b.phase.Held → a.pid = b.pid

/--
The action finds the files as the acquisition left them, reads no lock file that is
still empty, and asks for a process that it may ask for.
-/
def Regular (s : World) : Action → Prop
  | .acquire _ pid => ∀ j b, s.acquisitions j = some b → b.pid = pid → ¬b.phase.Active
  | .advance i ok => ∀ a, s.acquisitions i = some a →
      match a.phase with
      | .read opened => ∀ j b, s.Owns j b opened → ok = true ∧ b.phase ≠ .write opened
      | .checkAlive _ existingPid => s.processes existingPid = .alive → ok = true
      | .remove opened => s.path = none ∨ s.path = opened
      | .create => s.path = none
      | _ => True
  | _ => True

/-! ## Regular runs -/

variable {s s' : World} {i j : Nat} {a b : Acquisition}

structure Inv (s : World) : Prop where
  processes : ∀ pid, s.processes pid = .alive → 0 < pid ∧ pid < 2 ^ 31
  started : ∀ i a, s.acquisitions i = some a → s.processes a.pid ≠ .unborn
  path : ∀ file, s.path = some file → file < s.next
  single : ∀ i j a b, s.acquisitions i = some a → s.acquisitions j = some b → a.pid = b.pid →
    a.phase.Active → b.phase.Active → i = j
  unique : ∀ i j a b f g, s.Owns i a f → s.Owns j b g → i = j
  named : ∀ i a file, s.Owns i a file → s.path = some file
  text : ∀ i a file, s.Owns i a file → s.contents file = some (a.text file)
  opened : ∀ i a file, s.acquisitions i = some a → a.phase.opened = some file → file < s.next
  checked : ∀ i a file pid, s.acquisitions i = some a → a.phase = .checkAlive file pid →
    ∀ j b, s.Owns j b file → b.pid = pid
  removing : ∀ i a file, s.acquisitions i = some a → a.phase = .remove (some file) →
    ∀ j b, ¬s.Owns j b file

/-- The process of `a` has no other acquisition under way. -/
def Alone (s : World) (i : Nat) (a : Acquisition) : Prop :=
  ∀ j b, j ≠ i → s.acquisitions j = some b → b.pid = a.pid → ¬b.phase.Active

/-- The acquisitions and processes of `t` are those of `s`, and `i` has come to `phase`. -/
theorem owns_put {t : World} {phase : Phase} {file : Nat} (hacq : t.acquisitions = s.acquisitions)
    (hproc : t.processes = s.processes) (hlive : s.processes a.pid = .alive) :
    (t.put i a phase).Owns j b file ↔
      j = i ∧ b = { a with phase } ∧ phase.file = some file ∨ j ≠ i ∧ s.Owns j b file := by
  unfold Owns put
  by_cases hj : j = i
  · subst hj
    simp only [Function.update_self, Option.some.injEq, ne_eq, not_true, false_and, or_false,
      true_and]
    constructor
    · rintro ⟨rfl, -, hfile⟩
      exact ⟨rfl, hfile⟩
    · rintro ⟨rfl, hfile⟩
      exact ⟨rfl, hproc ▸ hlive, hfile⟩
  · simp [hj, hacq, hproc]

@[simp] theorem put_acquisitions (s : World) (i : Nat) (a : Acquisition) (phase : Phase) :
    (s.put i a phase).acquisitions =
      Function.update s.acquisitions i (some { a with phase }) := rfl

@[simp] theorem removeFile_acquisitions (s : World) (ok : Bool) :
    (s.removeFile ok).acquisitions = s.acquisitions := by
  cases ok <;> rfl

@[simp] theorem createFile_acquisitions (s : World) :
    s.createFile.1.acquisitions = s.acquisitions := by
  unfold createFile
  split <;> rfl

@[simp] theorem writeFile_acquisitions (s : World) (file : Nat) (text : List Char) :
    (s.writeFile file text).acquisitions = s.acquisitions := rfl

namespace Inv

/-- An acquisition is the one that moved, or is as it was. -/
private theorem update_cases {f : Nat → Option Acquisition} {x : Acquisition}
    (h : Function.update f i (some x) j = some b) : j = i ∧ b = x ∨ j ≠ i ∧ f j = some b := by
  by_cases hj : j = i
  · subst hj
    exact .inl ⟨rfl, by simpa using h.symm⟩
  · exact .inr ⟨hj, by simpa [hj] using h⟩

/--
An acquisition moves on: the files of the others stay, and what it made or read is
as its new phase says.
-/
theorem put (h : s.Inv) {t : World} {phase : Phase} (hlive : s.processes a.pid = .alive)
    (halone : s.Alone i a)
    (hacq : t.acquisitions = s.acquisitions) (hproc : t.processes = s.processes)
    (hpath : ∀ file, t.path = some file → file < t.next) (hnext : s.next ≤ t.next)
    (hothers : ∀ j b file, j ≠ i → s.Owns j b file →
      t.path = some file ∧ t.contents file = s.contents file)
    (hfile : ∀ file, phase.file = some file → t.path = some file ∧
      t.contents file = some (Acquisition.text { a with phase } file) ∧
      (∀ j b g, j ≠ i → ¬s.Owns j b g) ∧ (s.Owns i a file ∨ s.next ≤ file))
    (hopened : ∀ file, phase.opened = some file → file < t.next)
    (hchecked : ∀ file pid, phase = .checkAlive file pid → ∀ j b, j ≠ i → s.Owns j b file →
      b.pid = pid)
    (hremoving : ∀ file, phase = .remove (some file) → ∀ j b, j ≠ i → ¬s.Owns j b file) :
    (t.put i a phase).Inv where
  processes := by
    change ∀ pid, t.processes pid = .alive → _
    exact hproc ▸ h.processes
  started j b hb := by
    rw [put_acquisitions, hacq] at hb
    change t.processes b.pid ≠ .unborn
    rw [hproc]
    cases update_cases hb with
    | inl hb => simp [hb.2, hlive]
    | inr hb => exact h.started j b hb.2
  path := hpath
  single j k b c hb hc hpid hbactive hcactive := by
    rw [put_acquisitions, hacq] at hb hc
    cases update_cases hb with
    | inl hb =>
        cases update_cases hc with
        | inl hc => rw [hb.1, hc.1]
        | inr hc =>
            rw [hb.1]
            rw [hb.2] at hpid
            exact absurd hcactive (halone k c hc.1 hc.2 hpid.symm)
    | inr hb =>
        cases update_cases hc with
        | inl hc =>
            rw [hc.1]
            rw [hc.2] at hpid
            exact absurd hbactive (halone j b hb.1 hb.2 hpid)
        | inr hc => exact h.single j k b c hb.2 hc.2 hpid hbactive hcactive
  unique j k b c f g hb hc := by
    cases (owns_put hacq hproc hlive).mp hb with
    | inl hb =>
        cases (owns_put hacq hproc hlive).mp hc with
        | inl hc => rw [hb.1, hc.1]
        | inr hc => exact absurd hc.2 ((hfile f hb.2.2).2.2.1 k c g hc.1)
    | inr hb =>
        cases (owns_put hacq hproc hlive).mp hc with
        | inl hc => exact absurd hb.2 ((hfile g hc.2.2).2.2.1 j b f hb.1)
        | inr hc => exact h.unique j k b c f g hb.2 hc.2
  named j b file hb := by
    cases (owns_put hacq hproc hlive).mp hb with
    | inl hb => exact (hfile file hb.2.2).1
    | inr hb => exact (hothers j b file hb.1 hb.2).1
  text j b file hb := by
    cases (owns_put hacq hproc hlive).mp hb with
    | inl hb =>
        rw [hb.2.1]
        exact (hfile file hb.2.2).2.1
    | inr hb => exact (hothers j b file hb.1 hb.2).2.trans (h.text j b file hb.2)
  opened j b file hb hphase := by
    rw [put_acquisitions, hacq] at hb
    cases update_cases hb with
    | inl hb =>
        rw [hb.2] at hphase
        exact hopened file hphase
    | inr hb => exact Nat.lt_of_lt_of_le (h.opened j b file hb.2 hphase) hnext
  checked j b file pid hb hphase k c hc := by
    rw [put_acquisitions, hacq] at hb
    cases (owns_put hacq hproc hlive).mp hc with
    | inl hc =>
        have hne : j ≠ i := by
          rintro rfl
          rw [Function.update_self, Option.some.injEq] at hb
          rw [← hb] at hphase
          have hphase : phase = .checkAlive file pid := hphase
          rw [hphase] at hc
          cases hc.2.2
        rw [Function.update_of_ne hne] at hb
        rw [hc.2.1]
        cases (hfile file hc.2.2).2.2.2 with
        | inl howns => exact h.checked j b file pid hb hphase i a howns
        | inr hnew => exact absurd (h.opened j b file hb (by rw [hphase]; rfl)) (by omega)
    | inr hc =>
        cases update_cases hb with
        | inl hb =>
            rw [hb.2] at hphase
            exact hchecked file pid hphase k c hc.1 hc.2
        | inr hb => exact h.checked j b file pid hb.2 hphase k c hc.2
  removing j b file hb hphase k c hc := by
    rw [put_acquisitions, hacq] at hb
    cases (owns_put hacq hproc hlive).mp hc with
    | inl hc =>
        have hne : j ≠ i := by
          rintro rfl
          rw [Function.update_self, Option.some.injEq] at hb
          rw [← hb] at hphase
          have hphase : phase = .remove (some file) := hphase
          rw [hphase] at hc
          cases hc.2.2
        rw [Function.update_of_ne hne] at hb
        cases (hfile file hc.2.2).2.2.2 with
        | inl howns => exact h.removing j b file hb hphase i a howns
        | inr hnew => exact absurd (h.opened j b file hb (by rw [hphase]; rfl)) (by omega)
    | inr hc =>
        cases update_cases hb with
        | inl hb =>
            rw [hb.2] at hphase
            exact hremoving file hphase k c hc.1 hc.2
        | inr hb => exact h.removing j b file hb.2 hphase k c hc.2

theorem alone (h : s.Inv) (ha : s.acquisitions i = some a) (hactive : a.phase.Active) :
    s.Alone i a := fun j b hj hb hpid hbactive => hj (h.single j i b a hb ha hpid hbactive hactive)

/-- The file system stays as it is, and the acquisition has no file afterwards. -/
theorem look (h : s.Inv) {phase : Phase} (hlive : s.processes a.pid = .alive)
    (halone : s.Alone i a) (hfile : phase.file = none)
    (hopened : ∀ file, phase.opened = some file → file < s.next)
    (hchecked : ∀ file pid, phase = .checkAlive file pid → ∀ j b, j ≠ i → s.Owns j b file →
      b.pid = pid)
    (hremoving : ∀ file, phase = .remove (some file) → ∀ j b, j ≠ i → ¬s.Owns j b file) :
    (s.put i a phase).Inv := by
  refine h.put hlive halone rfl rfl h.path (Nat.le_refl _) (fun j b file _ hb => ?_)
    (fun file hf => ?_) hopened hchecked hremoving
  · exact ⟨h.named j b file hb, rfl⟩
  · rw [hfile] at hf
    cases hf

/-- An acquisition that has written its number keeps its file. -/
theorem stay (h : s.Inv) {phase : Phase} {file : Nat} (ha : s.acquisitions i = some a)
    (hlive : s.processes a.pid = .alive) (hactive : a.phase.Active)
    (hafile : a.phase.file = some file) (hfile : phase.file = some file)
    (hawrite : ∀ f, a.phase ≠ .write f) (hwrite : ∀ f, phase ≠ .write f) :
    (s.put i a phase).Inv := by
  have howns : s.Owns i a file := ⟨ha, hlive, hafile⟩
  have hopened : phase.opened = none := by
    cases phase <;> first | rfl | cases hfile
  refine h.put hlive (h.alone ha hactive) rfl rfl h.path (Nat.le_refl _) (fun j b f _ hb => ?_)
    (fun f hf => ?_) (fun f hf => ?_) (fun f pid hf => ?_) fun f hf => ?_
  · exact ⟨h.named j b f hb, rfl⟩
  · obtain rfl : file = f := Option.some.inj (hfile.symm.trans hf)
    refine ⟨h.named i a file howns, ?_, fun j b g hj hb => ?_, .inl howns⟩
    · rw [h.text i a file howns, Acquisition.text, if_neg (hawrite file), Acquisition.text,
        if_neg (hwrite file)]
    · exact hj (h.unique j i b a g file hb howns)
  · rw [hopened] at hf
    cases hf
  · rw [hf] at hfile
    cases hfile
  · rw [hf] at hfile
    cases hfile

/-- The lock's name is removed while no live process has the file. -/
theorem unlink (h : s.Inv) {phase : Phase} {ok : Bool} (ha : s.acquisitions i = some a)
    (hlive : s.processes a.pid = .alive) (hactive : a.phase.Active) (hfile : phase.file = none)
    (hopened : phase.opened = none) (hfree : ∀ j b file, j ≠ i → ¬s.Owns j b file) :
    ((s.removeFile ok).put i a phase).Inv := by
  have hnext : (s.removeFile ok).next = s.next := by cases ok <;> rfl
  refine h.put hlive (h.alone ha hactive) (by cases ok <;> rfl) (by cases ok <;> rfl) ?_ (Nat.le_of_eq hnext.symm)
    (fun j b file hj hb => absurd hb (hfree j b file hj)) (fun f hf => ?_) (fun f hf => ?_)
    (fun f pid hf => ?_) fun f hf => ?_
  · rw [hnext]
    cases ok with
    | false => exact h.path
    | true => exact fun file hpath => nomatch hpath
  · rw [hfile] at hf
    cases hf
  · rw [hopened] at hf
    cases hf
  · rw [hf] at hopened
    cases hopened
  · rw [hf] at hopened
    cases hopened

theorem create (h : s.Inv) (ha : s.acquisitions i = some a) (hlive : s.processes a.pid = .alive)
    (hactive : a.phase.Active) (hpath : s.path = none) :
    (s.createFile.1.put i a (.write s.createFile.2)).Inv := by
  have hnone : ∀ j b file, ¬s.Owns j b file := fun j b file hb => by
    have hnamed := h.named j b file hb
    rw [hpath] at hnamed
    cases hnamed
  have hcreate : s.createFile = ({ s with
      path := some s.next
      contents := Function.update s.contents s.next (some [])
      next := s.next + 1 }, s.next) := by
    simp only [createFile, hpath]
  rw [hcreate]
  refine h.put hlive (h.alone ha hactive) rfl rfl (fun f hf => ?_) (Nat.le_succ _)
    (fun j b file _ hb => absurd hb (hnone j b file)) (fun f hf => ?_) nofun nofun nofun
  · obtain rfl := Option.some.inj hf
    exact Nat.lt_succ_self _
  · obtain rfl := Option.some.inj hf
    refine ⟨rfl, ?_, fun j b g _ => hnone j b g, .inr (Nat.le_refl _)⟩
    simp [Acquisition.text]

theorem write (h : s.Inv) {file : Nat} (ha : s.acquisitions i = some a)
    (hlive : s.processes a.pid = .alive) (hphase : a.phase = .write file) :
    ((s.writeFile file (showPid a.pid)).put i a (.sync file)).Inv := by
  have howns : s.Owns i a file := ⟨ha, hlive, by rw [hphase]; rfl⟩
  have hempty : s.contents file = some [] := by
    rw [h.text i a file howns, Acquisition.text, if_pos hphase]
  have hactive : a.phase.Active := by
    rw [hphase]
    exact ⟨nofun, nofun⟩
  refine h.put hlive (h.alone ha hactive) rfl rfl h.path (Nat.le_refl _) (fun j b f hj hb => ?_)
    (fun f hf => ?_) nofun nofun nofun
  · exact absurd (h.unique j i b a f file hb howns) hj
  · obtain rfl := Option.some.inj hf
    refine ⟨h.named i a _ howns, ?_, fun j b g hj hb => ?_, .inl howns⟩
    · simp [writeFile, hempty, Acquisition.text]
    · exact hj (h.unique j i b a g _ hb howns)

/-- A process reads the number of the live process that has written the file. -/
theorem readPid_eq (h : s.Inv) {file : Nat} (hb : s.Owns j b file) (hphase : b.phase ≠ .write file) :
    s.readPid file true = some b.pid := by
  have hlt := (h.processes b.pid hb.2.1).2
  have hparse : parsePid (showPid b.pid) = some b.pid := parsePid_showPid (by omega)
  rw [readPid, if_pos rfl, h.text j b file hb, Acquisition.text, if_neg hphase,
    Option.bind_some, hparse]

theorem advance (h : s.Inv) {ok : Bool} (ha : s.acquisitions i = some a)
    (hlive : s.processes a.pid = .alive) (hregular : s.Regular (.advance i ok))
    (hstep : s.advance i a ok = some s') : s'.Inv := by
  have hregular := hregular a ha
  have hlook {phase : Phase} (hactive : a.phase.Active) (hphase : phase = .create ∨
      phase = .openRead ∨ phase = .remove none ∨ phase = .failed ∨ phase = .dropped) :
      (s.put i a phase).Inv := by
    refine h.look hlive (h.alone ha hactive) ?_ ?_ ?_ ?_
    all_goals obtain rfl | rfl | rfl | rfl | rfl := hphase <;> first | rfl | nofun
  obtain ⟨pid, phase⟩ := a
  cases phase with
  | checkExists =>
      obtain rfl := Option.some.inj hstep
      cases s.path with
      | none => exact hlook ⟨nofun, nofun⟩ (by simp)
      | some file => exact hlook ⟨nofun, nofun⟩ (by simp)
  | openRead =>
      obtain rfl := Option.some.inj hstep
      cases hopen : (if ok then s.path else none) with
      | none => exact hlook ⟨nofun, nofun⟩ (by simp)
      | some file =>
          refine h.look hlive (h.alone ha ⟨nofun, nofun⟩) rfl (fun f hf => ?_) nofun nofun
          obtain rfl := Option.some.inj hf
          cases ok with
          | false => cases hopen
          | true => exact h.path _ hopen
  | read file =>
      obtain rfl := Option.some.inj hstep
      have hlt := h.opened i _ file ha rfl
      have hregular : ∀ j b, s.Owns j b file → ok = true ∧ b.phase ≠ .write file := hregular
      have hread : ∀ j b, s.Owns j b file → s.readPid file ok = some b.pid := by
        intro j b hb
        obtain ⟨rfl, hwritten⟩ := hregular j b hb
        exact h.readPid_eq hb hwritten
      cases hpid : s.readPid file ok with
      | none =>
          refine h.look hlive (h.alone ha ⟨nofun, nofun⟩) rfl (fun f hf => ?_) nofun fun f hf j b _ hb => ?_
          · obtain rfl := Option.some.inj hf
            exact hlt
          · cases hf
            rw [hread j b hb] at hpid
            cases hpid
      | some existingPid =>
          refine h.look hlive (h.alone ha ⟨nofun, nofun⟩) rfl (fun f hf => ?_) (fun f e hf j b _ hb => ?_)
            nofun
          · obtain rfl := Option.some.inj hf
            exact hlt
          · cases hf
            rw [hread j b hb] at hpid
            exact Option.some.inj hpid
  | checkAlive file existingPid =>
      obtain rfl := Option.some.inj hstep
      have hregular : s.processes existingPid = .alive → ok = true := hregular
      split
      next => exact hlook ⟨nofun, nofun⟩ (by simp)
      next hgo =>
        refine h.look hlive (h.alone ha ⟨nofun, nofun⟩) rfl (fun f hf => ?_) nofun fun f hf j b hj hb => ?_
        · obtain rfl := Option.some.inj hf
          exact h.opened i _ _ ha rfl
        · -- the number in the file is that of its live process, which is asked for
          cases hf
          obtain rfl := h.checked i _ file existingPid ha rfl j b hb
          have hpos := (h.processes b.pid hb.2.1).1
          by_cases hpid : b.pid = pid
          · have hactive : b.phase.Active := by
              constructor
              · intro hphase
                rw [Owns, hphase] at hb
                cases hb.2.2
              · intro hphase
                rw [Owns, hphase] at hb
                cases hb.2.2
            exact hj (h.single j i b _ hb.1 ha hpid hactive ⟨nofun, nofun⟩)
          · have hne : b.pid ≠ 0 := by omega
            simp [hpid, isPidAlive, hne, hb.2.1, hregular hb.2.1] at hgo
  | remove opened =>
      obtain rfl := Option.some.inj hstep
      have hregular : s.path = none ∨ s.path = opened := hregular
      refine h.unlink ha hlive ⟨nofun, nofun⟩ rfl rfl fun j b file _ hb => ?_
      have hpath := h.named j b file hb
      cases hregular with
      | inl hnone =>
          rw [hnone] at hpath
          cases hpath
      | inr hsame =>
          rw [hsame] at hpath
          subst hpath
          exact h.removing i _ file ha rfl j b hb
  | create =>
      cases ok with
      | false =>
          obtain rfl := Option.some.inj hstep
          exact hlook ⟨nofun, nofun⟩ (by simp)
      | true =>
          obtain rfl := Option.some.inj hstep
          exact h.create ha hlive ⟨nofun, nofun⟩ hregular
  | write file =>
      cases ok with
      | false =>
          obtain rfl := Option.some.inj hstep
          exact hlook ⟨nofun, nofun⟩ (by simp)
      | true =>
          obtain rfl := Option.some.inj hstep
          exact h.write ha hlive rfl
  | sync file =>
      obtain rfl := Option.some.inj hstep
      cases ok with
      | false => exact hlook ⟨nofun, nofun⟩ (by simp)
      | true => exact h.stay ha hlive ⟨nofun, nofun⟩ rfl rfl nofun nofun
  | held file => cases hstep
  | dropExists file =>
      obtain rfl := Option.some.inj hstep
      cases s.path with
      | none => exact hlook ⟨nofun, nofun⟩ (by simp)
      | some opened => exact h.stay ha hlive ⟨nofun, nofun⟩ rfl rfl nofun nofun
  | dropOpen file =>
      obtain rfl := Option.some.inj hstep
      split
      · exact h.stay ha hlive ⟨nofun, nofun⟩ rfl rfl nofun nofun
      · exact hlook ⟨nofun, nofun⟩ (by simp)
  | dropRead file opened =>
      obtain rfl := Option.some.inj hstep
      split
      · exact h.stay ha hlive ⟨nofun, nofun⟩ rfl rfl nofun nofun
      · exact hlook ⟨nofun, nofun⟩ (by simp)
  | dropRemove file =>
      obtain rfl := Option.some.inj hstep
      refine h.unlink ha hlive ⟨nofun, nofun⟩ rfl rfl fun j b g hj hb => ?_
      exact hj (h.unique j i b _ g file hb ⟨ha, hlive, rfl⟩)
  | failed => cases hstep
  | dropped => cases hstep

/-- Processes start and die: no acquisition comes to own a file. -/
theorem of_processes (h : s.Inv) {processes : Nat → Life}
    (hrange : ∀ pid, processes pid = .alive → 0 < pid ∧ pid < 2 ^ 31)
    (hstarted : ∀ pid, s.processes pid ≠ .unborn →
      processes pid ≠ .unborn ∧ (processes pid = .alive → s.processes pid = .alive)) :
    ({ s with processes } : World).Inv := by
  have howns : ∀ j b file, ({ s with processes } : World).Owns j b file → s.Owns j b file :=
    fun j b file hb => ⟨hb.1, (hstarted b.pid (h.started j b hb.1)).2 hb.2.1, hb.2.2⟩
  exact {
    processes := hrange
    started := fun j b hb => (hstarted b.pid (h.started j b hb)).1
    path := h.path
    single := h.single
    unique := fun j k b c f g hb hc => h.unique j k b c f g (howns j b f hb) (howns k c g hc)
    named := fun j b file hb => h.named j b file (howns j b file hb)
    text := fun j b file hb => h.text j b file (howns j b file hb)
    opened := h.opened
    checked := fun j b file pid hb hphase k c hc =>
      h.checked j b file pid hb hphase k c (howns k c file hc)
    removing := fun j b file hb hphase k c hc =>
      h.removing j b file hb hphase k c (howns k c file hc) }

theorem initial (h : s.Initial) : s.Inv := by
  have hnone : ∀ i a, s.acquisitions i ≠ some a := fun i a ha => by
    rw [h.acquisitions i] at ha
    cases ha
  exact {
    processes := h.processes
    started := fun i a ha => absurd ha (hnone i a)
    path := h.path
    single := fun i _ a _ ha => absurd ha (hnone i a)
    unique := fun i _ a _ _ _ ha => absurd ha.1 (hnone i a)
    named := fun i a _ ha => absurd ha.1 (hnone i a)
    text := fun i a _ ha => absurd ha.1 (hnone i a)
    opened := fun i a _ ha => absurd ha (hnone i a)
    checked := fun i a _ _ ha => absurd ha (hnone i a)
    removing := fun i a _ ha => absurd ha (hnone i a) }

theorem step (h : s.Inv) {action : Action} (hregular : s.Regular action)
    (hstep : s.step action = some s') : s'.Inv := by
  cases action with
  | start pid =>
      obtain ⟨⟨hunborn, hrange⟩, hstep⟩ := Option.ite_none_right_eq_some.mp hstep
      obtain rfl := Option.some.inj hstep
      refine h.of_processes (fun q hq => ?_) fun q hq => ?_
      · by_cases hqp : q = pid
        · exact hqp ▸ hrange
        · exact h.processes q (by simpa [hqp] using hq)
      · have hqp : q ≠ pid := fun hqp => hq (hqp ▸ hunborn)
        simpa [hqp] using hq
  | die pid =>
      obtain ⟨-, hstep⟩ := Option.ite_none_right_eq_some.mp hstep
      obtain rfl := Option.some.inj hstep
      refine h.of_processes (fun q hq => ?_) fun q hq => ?_
      · by_cases hqp : q = pid
        · simp [hqp] at hq
        · exact h.processes q (by simpa [hqp] using hq)
      · by_cases hqp : q = pid
        · simp [hqp]
        · simpa [hqp] using hq
  | acquire i pid =>
      obtain ⟨⟨hlive, -⟩, hstep⟩ := Option.ite_none_right_eq_some.mp hstep
      obtain rfl := Option.some.inj hstep
      have halone : s.Alone i ⟨pid, .checkExists⟩ := fun j b _ hb hpid => hregular j b hb hpid
      exact h.look hlive halone rfl nofun nofun nofun
  | advance i ok =>
      obtain ⟨a, ha, hstep⟩ := Option.bind_eq_some_iff.mp hstep
      obtain ⟨hlive, hstep⟩ := Option.ite_none_right_eq_some.mp hstep
      exact h.advance ha hlive hregular hstep
  | drop i =>
      obtain ⟨⟨pid, phase⟩, ha, hstep⟩ := Option.bind_eq_some_iff.mp hstep
      cases phase with
      | held file =>
          obtain ⟨hlive, hstep⟩ := Option.ite_none_right_eq_some.mp hstep
          obtain rfl := Option.some.inj hstep
          exact h.stay ha hlive ⟨nofun, nofun⟩ rfl rfl nofun nofun
      | _ => cases hstep

theorem exclusive (h : s.Inv) : s.Exclusive := by
  intro i j a b ha hb halive hblive haheld hbheld
  have hfile : ∀ phase : Phase, phase.Held → ∃ file, phase.file = some file := by
    intro phase hheld
    cases phase <;> first | exact ⟨_, rfl⟩ | cases hheld
  obtain ⟨f, hf⟩ := hfile _ haheld
  obtain ⟨g, hg⟩ := hfile _ hbheld
  obtain rfl := h.unique i j a b f g ⟨ha, halive, hf⟩ ⟨hb, hblive, hg⟩
  obtain rfl := Option.some.inj (ha.symm.trans hb)
  rfl

end Inv

end World

/--
In every interleaving whose actions are regular, at most one live process has the
lock.
-/
theorem lock_exclusive : ∀ s as s', World.Initial s → Trace World.step World.Regular s as s' →
    s'.Exclusive := by
  intro s as s' hinitial htrace
  have hinv : s'.Inv := htrace.invariant (.initial hinitial) fun _ _ _ h ha hstep => h.step ha hstep
  exact hinv.exclusive

/-- The lock file of process 7, which is dead, and two processes that come to the database. -/
private def staleLock : World where
  path := some 0
  contents _ := some ['7']
  next := 1
  processes pid := if pid = 7 then .dead else if pid = 1 ∨ pid = 2 then .alive else .unborn
  acquisitions _ := none

theorem lock_exclusive_stale : ∃ s : World, s.path = some 1 ∧ s.contents 1 = some ['1'] ∧
    (s.acquisitions 0).map Acquisition.phase = some (.held 1) ∧
    (s.acquisitions 1).map Acquisition.phase = some .failed ∧ s.Exclusive := by
  have hinitial : staleLock.Initial := by
    constructor
    · exact fun _ => rfl
    · intro file hfile
      obtain rfl := Option.some.inj hfile
      decide
    · intro pid hpid
      simp only [staleLock] at hpid
      split at hpid
      · cases hpid
      · split at hpid
        next hpid => omega
        next => cases hpid
  have htrace : Trace World.step World.Regular staleLock
      [.acquire 0 1, .advance 0 true, .advance 0 true, .advance 0 true, .advance 0 true,
        .advance 0 true, .advance 0 true, .advance 0 true, .advance 0 true,
        .acquire 1 2, .advance 1 true, .advance 1 true, .advance 1 true, .advance 1 true] _ :=
    .cons (fun _ _ h => by cases h) rfl <|
    .cons (fun a h => by cases h; trivial) rfl <|
    .cons (fun a h => by cases h; trivial) rfl <|
    .cons (fun a h => by
        cases h
        rintro j b ⟨hb, -, hfile⟩
        by_cases hj : j = 0
        · subst hj
          cases hb
          cases hfile
        · simp [staleLock, hj] at hb) rfl <|
    .cons (fun a h => by cases h; exact fun _ => rfl) rfl <|
    .cons (fun a h => by cases h; exact .inr rfl) rfl <|
    .cons (fun a h => by cases h; rfl) rfl <|
    .cons (fun a h => by cases h; trivial) rfl <|
    .cons (fun a h => by cases h; trivial) rfl <|
    .cons (fun j b hb hpid => by
        by_cases hj : j = 0
        · subst hj
          cases hb
          cases hpid
        · simp [staleLock, hj] at hb) rfl <|
    .cons (fun a h => by cases h; trivial) rfl <|
    .cons (fun a h => by cases h; trivial) rfl <|
    .cons (fun a h => by
        cases h
        rintro j b ⟨hb, -, hfile⟩
        refine ⟨rfl, fun hphase => ?_⟩
        by_cases hj : j = 1
        · subst hj
          cases hb
          cases hphase
        · by_cases hj' : j = 0
          · subst hj'
            cases hb
            cases hphase
          · simp [staleLock, hj, hj'] at hb) rfl <|
    .cons (fun a h => by cases h; exact fun _ => rfl) rfl <|
    .nil _
  exact ⟨_, rfl, rfl, rfl, rfl, lock_exclusive _ _ _ hinitial htrace⟩

/-- Two processes find no lock file, and both make one. -/
theorem two_processes_have_the_lock :
    ¬∀ s as s', World.Initial s → Trace World.step (fun _ _ => True) s as s' → s'.Exclusive := by
  intro h
  have hexclusive := h
    { path := none, contents := fun _ => none, next := 0
      processes := fun pid => if pid = 1 ∨ pid = 2 then .alive else .unborn
      acquisitions := fun _ => none }
    [.acquire 0 1, .acquire 1 2, .advance 0 true, .advance 1 true, .advance 0 true, .advance 1 true,
      .advance 0 true, .advance 1 true, .advance 0 true, .advance 1 true] _ ?_
    (.cons trivial rfl <| .cons trivial rfl <| .cons trivial rfl <| .cons trivial rfl <|
      .cons trivial rfl <| .cons trivial rfl <| .cons trivial rfl <| .cons trivial rfl <|
      .cons trivial rfl <| .cons trivial rfl <| .nil _)
  · have hpid := hexclusive 0 1 ⟨1, .held 0⟩ ⟨2, .held 0⟩ rfl rfl rfl rfl trivial trivial
    cases hpid
  · constructor
    · exact fun _ => rfl
    · exact fun _ h => by cases h
    · intro pid hpid
      simp only at hpid
      split at hpid
      next hpid => omega
      next => cases hpid

end ChocoBase.Concurrency.LockFile
