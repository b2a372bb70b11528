import Mathlib.Data.List.Basic

/-!
# Ledgers of changes

A ledger has the changes that are settled and, while a transaction is open, those that are
in effect within it.  What is in effect decides whether the next change is accepted.
-/

namespace ChocoBase.Foundation

structure Ledger (α : Type) where
  settled : List α
  /-- what is in effect within the open transaction -/
  working : Option (List α)

namespace Ledger

variable {α : Type}

def current (s : Ledger α) : List α := s.working.getD s.settled

/-- Changes go into the open transaction, or are settled at once. -/
def add (s : Ledger α) (changes : List α) : Ledger α :=
  match s.working with
  | some working => { s with working := some (working ++ changes) }
  | none => { s with settled := s.settled ++ changes }

@[simp]
theorem add_nil (s : Ledger α) : s.add [] = s := by
  obtain ⟨settled, _ | working⟩ := s <;> simp [add]

@[simp]
theorem current_add (s : Ledger α) (changes : List α) :
    (s.add changes).current = s.current ++ changes := by
  obtain ⟨settled, _ | working⟩ := s <;> rfl

theorem add_add (s : Ledger α) (changes more : List α) :
    (s.add changes).add more = s.add (changes ++ more) := by
  obtain ⟨settled, _ | working⟩ := s <;> simp [add]

theorem add_inj {s : Ledger α} {changes changes' : List α} :
    s.add changes = s.add changes' ↔ changes = changes' := by
  obtain ⟨settled, _ | working⟩ := s <;> simp [add]

theorem add_eq_self_iff {s : Ledger α} {changes : List α} : s.add changes = s ↔ changes = [] := by
  rw [← add_inj (s := s), add_nil]

/-! ## Accepted changes -/

section Accepted

variable (accepts : List α → α → Bool)

/-- The changes that are accepted; one that is refused is left out. -/
def accepted : List α → List α → List α
  | _, [] => []
  | current, change :: changes =>
      if accepts current change then change :: accepted (current ++ [change]) changes
      else accepted current changes

/-- The changes in front of the first that is refused. -/
def untilRefused : List α → List α → List α
  | _, [] => []
  | current, change :: changes =>
      if accepts current change then change :: untilRefused (current ++ [change]) changes else []

/-- Each is accepted in its turn. -/
def allAccepted : List α → List α → Bool
  | _, [] => true
  | current, change :: changes =>
      accepts current change && allAccepted (current ++ [change]) changes

variable {accepts}

theorem accepted_sublist (current changes : List α) :
    (accepted accepts current changes).Sublist changes := by
  induction changes generalizing current with
  | nil => exact List.Sublist.refl _
  | cons change changes ih =>
      rw [accepted]
      split
      · exact (ih _).cons_cons change
      · exact (ih current).cons change

theorem accepted_eq_self_iff {current changes : List α} :
    accepted accepts current changes = changes ↔ allAccepted accepts current changes = true := by
  induction changes generalizing current with
  | nil => exact iff_of_true rfl rfl
  | cons change changes ih =>
      rw [accepted, allAccepted, Bool.and_eq_true, ← ih]
      split
      · next haccepts => simp [haccepts]
      · next hrefused =>
          refine iff_of_false (fun heq => ?_) fun h => hrefused h.1
          have hlength := (@accepted_sublist _ accepts current changes).length_le
          rw [heq, List.length_cons] at hlength
          exact Nat.not_succ_le_self _ hlength

theorem untilRefused_of_allAccepted {current changes : List α}
    (h : allAccepted accepts current changes = true) :
    untilRefused accepts current changes = changes := by
  induction changes generalizing current with
  | nil => rfl
  | cons change changes ih =>
      rw [allAccepted, Bool.and_eq_true] at h
      rw [untilRefused, if_pos h.1, ih h.2]

end Accepted

end Ledger

end ChocoBase.Foundation
