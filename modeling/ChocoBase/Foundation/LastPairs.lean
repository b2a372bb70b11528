import Mathlib.Data.List.Induction

/-!
# The last pair of every key

What a map holds after pairs were put into it one after the other.  A function of the pairs
sees them all exactly if no pair that matters to it is lost.
-/

namespace ChocoBase.Foundation

variable {κ ν β : Type} [DecidableEq κ]

/-- For every key its last pair. -/
def lastPairs : List (κ × ν) → List (κ × ν)
  | [] => []
  | p :: ps => if ps.any (·.1 = p.1) then lastPairs ps else p :: lastPairs ps

theorem lastPairs_sublist (ps : List (κ × ν)) : (lastPairs ps).Sublist ps := by
  induction ps with
  | nil => exact .slnil
  | cons p ps ih =>
      rw [lastPairs]
      split
      · exact ih.cons p
      · exact ih.cons₂ p

theorem lastPairs_concat (ps : List (κ × ν)) (p : κ × ν) :
    lastPairs (ps ++ [p]) = (lastPairs ps).filter (·.1 ≠ p.1) ++ [p] := by
  induction ps with
  | nil => rfl
  | cons q ps ih =>
      rw [List.cons_append, lastPairs, lastPairs, ih]
      by_cases hkey : p.1 = q.1
      · by_cases hany : ps.any (·.1 = q.1) <;> simp [hkey, hany]
      · by_cases hany : ps.any (·.1 = q.1) <;> simp [hkey, hany, Ne.symm hkey]

variable {f : κ × ν → Option β}

/-- No pair that gives something has a later one with its key. -/
def NoneLost (f : κ × ν → Option β) (ps : List (κ × ν)) : Prop :=
  ps.Pairwise fun p q => p.1 = q.1 → f p = none

theorem filterMap_lastPairs {ps : List (κ × ν)} (h : NoneLost f ps) :
    (lastPairs ps).filterMap f = ps.filterMap f := by
  induction ps with
  | nil => rfl
  | cons p ps ih =>
      obtain ⟨hfirst, hrest⟩ := List.pairwise_cons.mp h
      rw [lastPairs]
      split
      case isTrue hany =>
        obtain ⟨q, hq, hkey⟩ := List.any_eq_true.mp hany
        have hnone := hfirst q hq (by simpa using (of_decide_eq_true hkey).symm)
        rw [List.filterMap_cons_none hnone, ih hrest]
      case isFalse => rw [List.filterMap_cons, List.filterMap_cons, ih hrest]

theorem noneLost_of_length {ps : List (κ × ν)}
    (h : ((lastPairs ps).filterMap f).length = (ps.filterMap f).length) : NoneLost f ps := by
  induction ps with
  | nil => exact .nil
  | cons p ps ih =>
      have hle : ((lastPairs ps).filterMap f).length ≤ (ps.filterMap f).length :=
        ((lastPairs_sublist ps).filterMap f).length_le
      rw [lastPairs] at h
      split at h
      case isTrue =>
        cases hp : f p with
        | none =>
            rw [List.filterMap_cons_none hp] at h
            exact List.pairwise_cons.mpr ⟨fun _ _ _ => hp, ih h⟩
        | some b =>
            rw [List.filterMap_cons_some hp, List.length_cons] at h
            omega
      case isFalse hany =>
        have hfirst : ∀ q ∈ ps, p.1 = q.1 → f p = none := fun q hq hkey =>
          absurd (List.any_eq_true.mpr ⟨q, hq, decide_eq_true hkey.symm⟩) hany
        refine List.pairwise_cons.mpr ⟨hfirst, ih ?_⟩
        cases hp : f p with
        | none => rwa [List.filterMap_cons_none hp, List.filterMap_cons_none hp] at h
        | some b =>
            rw [List.filterMap_cons_some hp, List.filterMap_cons_some hp, List.length_cons,
              List.length_cons] at h
            omega

theorem mem_lastPairs {ps : List (κ × ν)} (h : NoneLost f ps) {p : κ × ν} (hp : p ∈ ps)
    (hsome : f p ≠ none) : p ∈ lastPairs ps := by
  induction ps with
  | nil => cases hp
  | cons q ps ih =>
      obtain ⟨hfirst, hrest⟩ := List.pairwise_cons.mp h
      rw [lastPairs]
      split
      case isTrue hany =>
        obtain ⟨r, hr, hkey⟩ := List.any_eq_true.mp hany
        rcases List.mem_cons.mp hp with rfl | hp
        · exact absurd (hfirst r hr (of_decide_eq_true hkey).symm) hsome
        · exact ih hrest hp
      case isFalse =>
        rcases List.mem_cons.mp hp with rfl | hp
        · exact List.mem_cons_self
        · exact List.mem_cons_of_mem _ (ih hrest hp)

/-- Pairs that are put into a map one after the other. -/
theorem foldl_insert_perm (ps : List (κ × ν)) :
    (ps.foldl (fun kept p => p :: kept.filter (·.1 ≠ p.1)) []).Perm (lastPairs ps) := by
  induction ps using List.reverseRecOn with
  | nil => exact .nil
  | append_singleton ps p ih =>
      rw [List.foldl_append, List.foldl_cons, List.foldl_nil, lastPairs_concat]
      exact ((ih.filter _).cons p).trans (List.perm_append_singleton p _).symm

end ChocoBase.Foundation
