import Mathlib.Data.List.Basic
import Mathlib.Order.Basic

/-!
# Sliding windows

A log of times, of which those in a window before now are live.  A log is within a limit if
no window anywhere has more times than that.
-/

namespace ChocoBase.Foundation.SlidingWindow

/-- The times that are less than a window ago. -/
def live (window now : Nat) (times : List Nat) : List Nat :=
  times.filter fun time => now < time + window

/-- No window has more than `limit` times. -/
def WithinLimit (limit window : Nat) (times : List Nat) : Prop :=
  ∀ t, (times.filter fun time => t < time + window ∧ time ≤ t).length ≤ limit

variable {limit window now now' : Nat} {times : List Nat}

theorem live_live (h : now ≤ now') : live window now' (live window now times) =
    live window now' times := by
  rw [live, live, live, List.filter_filter]
  refine List.filter_congr fun time _ => ?_
  rw [Bool.and_eq_left_iff_imp, decide_eq_true_eq, decide_eq_true_eq]
  exact Nat.lt_of_le_of_lt h

theorem live_append (more : List Nat) :
    live window now (times ++ more) = live window now times ++ live window now more :=
  List.filter_append ..

theorem WithinLimit.nil : WithinLimit limit window [] := fun _ => Nat.zero_le _

/-- A time may be added if the live ones are fewer than the limit. -/
theorem WithinLimit.append (h : WithinLimit limit window times)
    (hlive : (live window now times).length < limit) :
    WithinLimit limit window (times ++ [now]) := by
  intro t
  rw [List.filter_append, List.length_append]
  by_cases ht : t < now
  · have hnow : List.filter (fun time => t < time + window ∧ time ≤ t) [now] = [] := by
      simp [Nat.not_le.mpr ht]
    rw [hnow, List.length_nil, Nat.add_zero]
    exact h t
  · have hsub : (times.filter fun time => t < time + window ∧ time ≤ t).length ≤
        (live window now times).length :=
      (List.monotone_filter_right times fun time htime => by
        simp only [decide_eq_true_eq] at htime ⊢
        omega).length_le
    have hone : (List.filter (fun time => t < time + window ∧ time ≤ t) [now]).length ≤ 1 :=
      List.length_filter_le _ [now]
    omega

/-- Of a log that is not ahead of now, at most the limit is live. -/
theorem WithinLimit.length_live (h : WithinLimit limit window times)
    (hpast : ∀ time ∈ times, time ≤ now) : (live window now times).length ≤ limit := by
  refine le_of_eq_of_le (congrArg List.length (List.filter_congr fun time htime => ?_)) (h now)
  simp [hpast time htime]

/-- When the oldest live time leaves the window, fewer than the limit are left, and not before. -/
theorem length_live_lt_iff (h : WithinLimit limit window times) (hsorted : times.Pairwise (· ≤ ·))
    (hpast : ∀ time ∈ times, time ≤ now) {oldest : Nat}
    (holdest : (live window now times).head? = some oldest)
    (hfull : limit ≤ (live window now times).length) (hnow : now ≤ now') :
    (live window now' times).length < limit ↔ oldest + window ≤ now' := by
  have hlength := h.length_live hpast
  obtain ⟨rest, hlive⟩ := List.head?_eq_some_iff.mp holdest
  have hrest : ∀ time ∈ rest, oldest ≤ time := by
    have hpairs := hsorted.sublist (List.filter_sublist (p := fun time => now < time + window))
    rw [show times.filter (fun time => now < time + window) = oldest :: rest from hlive] at hpairs
    exact (List.pairwise_cons.mp hpairs).1
  rw [hlive] at hlength hfull
  rw [← live_live hnow, hlive]
  constructor
  · intro hfewer
    by_contra hlater
    have hall : live window now' (oldest :: rest) = oldest :: rest := by
      refine List.filter_eq_self.mpr fun time htime => ?_
      rcases List.mem_cons.mp htime with rfl | htime
      · exact decide_eq_true (Nat.not_le.mp hlater)
      · have := hrest time htime
        exact decide_eq_true (by omega)
    rw [hall] at hfewer
    exact absurd hfull (Nat.not_le.mpr hfewer)
  · intro hleaves
    have htail : live window now' (oldest :: rest) = live window now' rest :=
      List.filter_cons_of_neg (by simpa using hleaves)
    have hle : (live window now' rest).length ≤ rest.length := List.length_filter_le _ rest
    rw [htail]
    rw [List.length_cons] at hlength
    omega

end ChocoBase.Foundation.SlidingWindow
