import Mathlib.Algebra.GroupWithZero.Nat
import Mathlib.Data.List.Basic

/-!
# One element of a list updated

What `List.set` does to the lists and sums computed from a list, when one entry moves
from a value to another.
-/

namespace ChocoBase.Foundation

variable {α β : Type}

theorem forall_mem_set {P : α → Prop} {l : List α} {i : Nat} {b : α} (hl : ∀ x ∈ l, P x)
    (hb : P b) : ∀ x ∈ l.set i b, P x := by
  intro x hx
  rcases List.mem_or_eq_of_mem_set hx with hx | rfl
  · exact hl x hx
  · exact hb

theorem map_set_of_eq {l : List α} {i : Nat} {a b : α} {f : α → β} (ha : l[i]? = some a)
    (heq : f b = f a) : (l.set i b).map f = l.map f := by
  obtain ⟨hlt, rfl⟩ := List.getElem?_eq_some_iff.mp ha
  rw [List.map_set, heq, ← List.getElem_map f (h := by simpa using hlt), List.set_getElem_self]

theorem filterMap_set_of_none {l : List α} {i : Nat} {a b : α} {f : α → Option β}
    (ha : l[i]? = some a) (hnone : f a = none) (hnone' : f b = none) :
    (l.set i b).filterMap f = l.filterMap f := by
  induction l generalizing i with
  | nil => simp at ha
  | cons x l ih =>
      cases i with
      | zero =>
          obtain rfl := Option.some.inj ha
          simp [hnone, hnone']
      | succ i => simp only [List.set_cons_succ, List.filterMap_cons, ih ha]

theorem filterMap_set_perm {l : List α} {i : Nat} {a b : α} {f : α → Option β} {v : β}
    (ha : l[i]? = some a) (hnone : f a = none) (hsome : f b = some v) :
    ((l.set i b).filterMap f).Perm (l.filterMap f ++ [v]) := by
  induction l generalizing i with
  | nil => simp at ha
  | cons x l ih =>
      cases i with
      | zero =>
          obtain rfl := Option.some.inj ha
          simpa [hnone, hsome] using (List.perm_append_singleton v _).symm
      | succ i =>
          simp only [List.set_cons_succ, List.filterMap_cons]
          cases f x with
          | none => exact ih ha
          | some w => exact (ih ha).cons w

theorem sum_set_lt {l : List α} {i : Nat} {a b : α} {f : α → Nat} (ha : l[i]? = some a)
    (hlt : f b < f a) : ((l.set i b).map f).sum < (l.map f).sum := by
  induction l generalizing i with
  | nil => simp at ha
  | cons x l ih =>
      cases i with
      | zero =>
          obtain rfl := Option.some.inj ha
          simpa using hlt
      | succ i => simpa using ih ha

end ChocoBase.Foundation
