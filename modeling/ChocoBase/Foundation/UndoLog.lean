import Mathlib.Data.List.Basic

/-!
# Undo logs over block files

A file is a list of blocks.  An undo log lists old images of blocks: writing them
back in order and cutting the file to its old length restores the old file, the
base.  `Undoes` is the invariant that makes this work.  It survives every write
to a block whose image is in the log, and every step of the restoration itself.
-/

namespace ChocoBase.Foundation

variable {V : Type} [Inhabited V]

/-- Write one block at its offset; a gap before it is filled with blank blocks. -/
def writeAt (file : List V) (no : Nat) (block : V) : List V :=
  if no < file.length then file.set no block
  else file ++ List.replicate (no - file.length) default ++ [block]

/-- Cut a file, or extend it with blank blocks. -/
def resize (file : List V) (blocks : Nat) : List V :=
  file.take blocks ++ List.replicate (blocks - file.length) default

@[simp] theorem writeAt_length (file : List V) (no : Nat) (block : V) :
    (writeAt file no block).length = max file.length (no + 1) := by
  unfold writeAt
  split <;> simp <;> omega

@[simp] theorem writeAt_getElem?_same (file : List V) (no : Nat) (block : V) :
    (writeAt file no block)[no]? = some block := by
  unfold writeAt
  split
  next h => simp [h]
  next h =>
    rw [List.getElem?_append_right (by simp; omega)]
    simp [show no - (file.length + (no - file.length)) = 0 by omega]

theorem writeAt_getElem?_of_lt {file : List V} {no i : Nat} {block : V}
    (hne : i ≠ no) (hi : i < file.length) : (writeAt file no block)[i]? = file[i]? := by
  unfold writeAt
  split
  next h => rw [List.getElem?_set_ne (by omega)]
  next h => rw [List.append_assoc, List.getElem?_append_left hi]

theorem writeAt_getElem?_ne {file : List V} {no i : Nat} {block : V}
    (hno : no < file.length) (hne : i ≠ no) : (writeAt file no block)[i]? = file[i]? := by
  rw [writeAt, if_pos hno, List.getElem?_set_ne (by omega)]

/-- A write keeps every other block that a file has. -/
theorem writeAt_getElem?_of_some {file : List V} {no i : Nat} {block old : V}
    (hne : i ≠ no) (hold : file[i]? = some old) : (writeAt file no block)[i]? = some old := by
  rw [writeAt_getElem?_of_lt hne (List.getElem?_eq_some_iff.mp hold).1, hold]

@[simp] theorem resize_length (file : List V) (blocks : Nat) :
    (resize file blocks).length = blocks := by
  simp [resize]
  omega

theorem resize_getElem?_of_lt {file : List V} {blocks i : Nat} (hi : i < blocks)
    (hlen : i < file.length) : (resize file blocks)[i]? = file[i]? := by
  rw [resize, List.getElem?_append_left (by simp; omega), List.getElem?_take_of_lt hi]

theorem resize_getElem?_new {file : List V} {blocks i : Nat} (hi : i < blocks)
    (hlen : file.length ≤ i) : (resize file blocks)[i]? = some default := by
  rw [resize, List.getElem?_append_right (by simp; omega), List.getElem?_replicate,
    if_pos (by simp; omega)]

/-- Growing a file keeps every block it has. -/
theorem resize_getElem?_of_some {file : List V} {blocks i : Nat} {old : V}
    (hi : i < blocks) (hold : file[i]? = some old) : (resize file blocks)[i]? = some old := by
  rw [resize_getElem?_of_lt hi (List.getElem?_eq_some_iff.mp hold).1, hold]

namespace UndoLog

/-- Write the images of a log back, in order. -/
def replay (log : List (Nat × V)) (file : List V) : List V :=
  log.foldl (fun file image => writeAt file image.1 image.2) file

def restore (blocks : Nat) (log : List (Nat × V)) (file : List V) : List V :=
  resize (replay log file) blocks

/-- The blocks a log has an image of. -/
def logged (log : List (Nat × V)) : List Nat := log.map Prod.fst

/-- A log restores a base from a file. -/
structure Undoes (base : List V) (log : List (Nat × V)) (file : List V) : Prop where
  recorded : ∀ no block, (no, block) ∈ log → base[no]? = some block
  untouched : ∀ no, no < base.length → no ∉ logged log → file[no]? = base[no]?

namespace Undoes

variable {base file : List V} {log : List (Nat × V)} {no : Nat} {block : V}

omit [Inhabited V] in
theorem refl (base : List V) : Undoes base [] base :=
  ⟨by simp, fun _ _ _ => rfl⟩

omit [Inhabited V] in
/-- Appending an image of the base to the log. -/
theorem record (h : Undoes base log file) (hblock : base[no]? = some block) :
    Undoes base (log ++ [(no, block)]) file where
  recorded := by
    intro no' block' hmem
    rcases List.mem_append.mp hmem with hmem | hmem
    · exact h.recorded no' block' hmem
    · obtain ⟨rfl, rfl⟩ : no' = no ∧ block' = block := by simpa using hmem
      exact hblock
  untouched := by
    intro no' hlt hno
    refine h.untouched no' hlt fun hmem => hno ?_
    simp [logged] at hmem ⊢
    exact .inl hmem

/-- Overwriting a block whose image is in the log, or one beyond the base. -/
theorem overwrite (h : Undoes base log file)
    (hlogged : no < base.length → no ∈ logged log) :
    Undoes base log (writeAt file no block) where
  recorded := h.recorded
  untouched := by
    intro no' hlt hno
    have hne : no' ≠ no := fun heq => hno (heq ▸ hlogged (heq ▸ hlt))
    have hold := h.untouched no' hlt hno
    rw [List.getElem?_eq_getElem hlt] at hold ⊢
    exact writeAt_getElem?_of_some hne hold

/-- Writing a block of the base back. -/
theorem writeBack (h : Undoes base log file) (hblock : base[no]? = some block) :
    Undoes base log (writeAt file no block) where
  recorded := h.recorded
  untouched := by
    intro no' hlt hno
    by_cases hne : no' = no
    · subst hne
      rw [writeAt_getElem?_same, hblock]
    · have hold := h.untouched no' hlt hno
      rw [List.getElem?_eq_getElem hlt] at hold ⊢
      exact writeAt_getElem?_of_some hne hold

theorem resize {blocks : Nat} (h : Undoes base log file) (hblocks : base.length ≤ blocks) :
    Undoes base log (resize file blocks) where
  recorded := h.recorded
  untouched := by
    intro no' hlt hno
    have hold := h.untouched no' hlt hno
    rw [List.getElem?_eq_getElem hlt] at hold ⊢
    exact resize_getElem?_of_some (by omega) hold

private theorem replay_getElem? (base : List V) (log : List (Nat × V)) (file : List V)
    (hlog : ∀ no block, (no, block) ∈ log → base[no]? = some block) (no : Nat)
    (hno : file[no]? = base[no]? ∨ no ∈ logged log) (hlt : no < base.length) :
    (replay log file)[no]? = base[no]? := by
  induction log generalizing file with
  | nil => simpa [logged, replay] using hno
  | cons image log ih =>
      refine ih (writeAt file image.1 image.2)
        (fun no block hmem => hlog no block (List.mem_cons_of_mem _ hmem)) ?_
      have himage := hlog image.1 image.2 List.mem_cons_self
      by_cases heq : no = image.1
      · exact .inl (by rw [heq, writeAt_getElem?_same, himage])
      · rcases hno with hold | hmem
        · rw [List.getElem?_eq_getElem hlt] at hold ⊢
          exact .inl (writeAt_getElem?_of_some heq hold)
        · refine .inr ?_
          simpa [logged, heq] using hmem

/-- A block that is in the log, or in the file as in the base, is restored. -/
theorem restore_getElem? (hlog : ∀ no block, (no, block) ∈ log → base[no]? = some block)
    (hno : file[no]? = base[no]? ∨ no ∈ logged log) (hlt : no < base.length) :
    (restore base.length log file)[no]? = base[no]? := by
  have hreplay := replay_getElem? base log file hlog no hno hlt
  rw [List.getElem?_eq_getElem hlt] at hreplay ⊢
  exact resize_getElem?_of_some hlt hreplay

/-- The log restores the base. -/
theorem restore_eq (h : Undoes base log file) : restore base.length log file = base := by
  refine List.ext_getElem? fun no => ?_
  by_cases hlt : no < base.length
  · refine restore_getElem? h.recorded ?_ hlt
    by_cases hmem : no ∈ logged log
    · exact .inr hmem
    · exact .inl (h.untouched no hlt hmem)
  · rw [List.getElem?_eq_none (by simp [restore]; omega), List.getElem?_eq_none (by omega)]

private theorem replay_getElem?_untouched (log : List (Nat × V)) (file : List V) (no : Nat)
    (hno : no ∉ logged log) (hlt : no < file.length) : (replay log file)[no]? = file[no]? := by
  induction log generalizing file with
  | nil => rfl
  | cons image log ih =>
      obtain ⟨hne, hno⟩ : no ≠ image.1 ∧ no ∉ logged log := by simpa [logged] using hno
      refine (ih (writeAt file image.1 image.2) hno (by simp; omega)).trans ?_
      exact writeAt_getElem?_of_lt hne hlt

/-- A block that is not in the log stays as it is in the file. -/
theorem restore_getElem?_untouched {blocks : Nat} (hno : no ∉ logged log)
    (hlt : no < file.length) (hblocks : no < blocks) :
    (restore blocks log file)[no]? = file[no]? := by
  have hreplay := replay_getElem?_untouched log file no hno hlt
  have hsome : (replay log file)[no]? = some (file.get ⟨no, hlt⟩) := by
    simp [hreplay, List.getElem?_eq_getElem hlt]
  rw [restore, resize_getElem?_of_some hblocks hsome, ← hsome, hreplay]

/-- For a file that has all blocks of the base, restoring it is all that `Undoes` says. -/
theorem restore_eq_iff (hrecorded : ∀ no block, (no, block) ∈ log → base[no]? = some block)
    (hlen : base.length ≤ file.length) :
    restore base.length log file = base ↔ Undoes base log file := by
  refine ⟨fun h => ⟨hrecorded, fun no hlt hno => ?_⟩, restore_eq⟩
  rw [← restore_getElem?_untouched hno (by omega) hlt, h]

end Undoes

end UndoLog

end ChocoBase.Foundation
