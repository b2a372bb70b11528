import Mathlib.Data.List.Sort

/-!
# Stable sorts

What a stable sort of a list is, and that insertion sort is one, for a relation that is total
and transitive on the members of the list.
-/

namespace ChocoBase.Foundation

variable {α : Type} {r : α → α → Prop} {xs ys : List α}

/-- The members in order; those that are in order already keep their order. -/
structure StablySorted (r : α → α → Prop) (xs ys : List α) : Prop where
  perm : ys.Perm xs
  sorted : ys.Pairwise r
  stable : ∀ zs : List α, zs.Pairwise r → zs.Sublist xs → zs.Sublist ys

/-- Any two members compare, and comparisons compose. -/
structure Orderly (r : α → α → Prop) (xs : List α) : Prop where
  total : ∀ a ∈ xs, ∀ b ∈ xs, r a b ∨ r b a
  trans : ∀ a ∈ xs, ∀ b ∈ xs, ∀ c ∈ xs, r a b → r b c → r a c

theorem pairwise_insertionSort [DecidableRel r] (h : Orderly r xs) :
    (xs.insertionSort r).Pairwise r := by
  let s (a b : { a // a ∈ xs }) : Prop := r a.1 b.1
  have htotal : Std.Total s := ⟨fun a b => h.total a.1 a.2 b.1 b.2⟩
  have htrans : IsTrans { a // a ∈ xs } s :=
    ⟨fun a b c => h.trans a.1 a.2 b.1 b.2 c.1 c.2⟩
  have hmap := List.map_insertionSort s r Subtype.val xs.attach fun _ _ _ _ => Iff.rfl
  rw [List.attach_map_subtype_val] at hmap
  rw [← hmap, List.pairwise_map]
  exact List.pairwise_insertionSort s xs.attach

theorem stablySorted_insertionSort [DecidableRel r] (h : Orderly r xs) :
    StablySorted r xs (xs.insertionSort r) :=
  ⟨List.perm_insertionSort r xs, pairwise_insertionSort h,
    fun _ hsorted hsublist => List.sublist_insertionSort hsorted hsublist⟩

end ChocoBase.Foundation
