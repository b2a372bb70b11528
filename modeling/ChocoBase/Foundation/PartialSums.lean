import Mathlib.Algebra.BigOperators.Group.List.Basic
import Mathlib.Algebra.Order.BigOperators.Group.List
import Mathlib.Algebra.Ring.Int.Defs

/-!
# Sums within bounds

Integers are added one by one, and every sum on the way has to stay within bounds.  That
works in every order exactly if it works for the positive and for the negative ones alone.
-/

namespace ChocoBase.Foundation

/-- All sums from `base` on lie within the bounds. -/
def SumsWithin (lo hi : Int) : Int → List Int → Prop
  | _, [] => True
  | base, x :: xs => (lo ≤ base + x ∧ base + x ≤ hi) ∧ SumsWithin lo hi (base + x) xs

def positiveSum (xs : List Int) : Int := (xs.filter fun x => 0 < x).sum

def negativeSum (xs : List Int) : Int := (xs.filter fun x => x < 0).sum

variable {lo hi base : Int} {xs ys : List Int}

theorem sumsWithin_append : SumsWithin lo hi base (xs ++ ys) ↔
    SumsWithin lo hi base xs ∧ SumsWithin lo hi (base + xs.sum) ys := by
  induction xs generalizing base with
  | nil => simp [SumsWithin]
  | cons x xs ih =>
      rw [List.cons_append, SumsWithin, SumsWithin, ih, List.sum_cons, Int.add_assoc]
      exact and_assoc.symm

/-- The last sum is one of them. -/
theorem SumsWithin.sum (h : SumsWithin lo hi base xs) (hlo : lo ≤ base) (hhi : base ≤ hi) :
    lo ≤ base + xs.sum ∧ base + xs.sum ≤ hi := by
  induction xs generalizing base with
  | nil => simpa using ⟨hlo, hhi⟩
  | cons x xs ih =>
      obtain ⟨⟨hlo, hhi⟩, hrest⟩ := h
      rw [List.sum_cons, ← Int.add_assoc]
      exact ih hrest hlo hhi

theorem positiveSum_cons (x : Int) (xs : List Int) :
    positiveSum (x :: xs) = max x 0 + positiveSum xs := by
  unfold positiveSum
  by_cases h : 0 < x
  · rw [List.filter_cons_of_pos (by simpa using h), List.sum_cons]
    omega
  · rw [List.filter_cons_of_neg (by simpa using h)]
    omega

theorem negativeSum_cons (x : Int) (xs : List Int) :
    negativeSum (x :: xs) = min x 0 + negativeSum xs := by
  unfold negativeSum
  by_cases h : x < 0
  · rw [List.filter_cons_of_pos (by simpa using h), List.sum_cons]
    omega
  · rw [List.filter_cons_of_neg (by simpa using h)]
    omega

theorem positiveSum_nonneg : 0 ≤ positiveSum xs := by
  induction xs with
  | nil => simp [positiveSum]
  | cons x xs ih =>
      rw [positiveSum_cons]
      omega

theorem negativeSum_nonpos : negativeSum xs ≤ 0 := by
  induction xs with
  | nil => simp [negativeSum]
  | cons x xs ih =>
      rw [negativeSum_cons]
      omega

/-- The positive and the negative members are an envelope of all sums. -/
theorem sumsWithin_of_envelope (hlo : lo ≤ base + negativeSum xs)
    (hhi : base + positiveSum xs ≤ hi) : SumsWithin lo hi base xs := by
  induction xs generalizing base with
  | nil => trivial
  | cons x xs ih =>
      rw [negativeSum_cons] at hlo
      rw [positiveSum_cons] at hhi
      have hneg : negativeSum xs ≤ 0 := negativeSum_nonpos
      have hpos : 0 ≤ positiveSum xs := positiveSum_nonneg
      exact ⟨⟨by omega, by omega⟩, ih (by omega) (by omega)⟩

/-- The bounds hold for the envelope if they hold whichever members come first. -/
theorem envelope_of_sumsWithin (hlo : lo ≤ 0) (hhi : 0 ≤ hi)
    (h : ∀ p : Int → Bool, SumsWithin lo hi 0 (xs.filter p ++ xs.filter fun x => !p x)) :
    lo ≤ negativeSum xs ∧ positiveSum xs ≤ hi := by
  have hfirst (p : Int → Bool) : lo ≤ (xs.filter p).sum ∧ (xs.filter p).sum ≤ hi := by
    simpa using (sumsWithin_append.mp (h p)).1.sum hlo hhi
  exact ⟨(hfirst _).1, (hfirst _).2⟩

/-- Adding up in every order stays within the bounds. -/
theorem sumsWithin_everyOrder_iff (hlo : lo ≤ 0) (hhi : 0 ≤ hi) :
    (∀ ys, ys.Perm xs → SumsWithin lo hi 0 ys) ↔ lo ≤ negativeSum xs ∧ positiveSum xs ≤ hi := by
  refine ⟨fun h => envelope_of_sumsWithin hlo hhi fun p => h _ (List.filter_append_perm p xs), ?_⟩
  rintro ⟨hneg, hpos⟩ ys hperm
  refine sumsWithin_of_envelope ?_ ?_
  · rw [Int.zero_add, negativeSum, (hperm.filter _).sum_eq]
    exact hneg
  · rw [Int.zero_add, positiveSum, (hperm.filter _).sum_eq]
    exact hpos

end ChocoBase.Foundation
