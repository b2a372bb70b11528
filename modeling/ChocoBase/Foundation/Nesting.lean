import ChocoBase.Foundation.Exec

/-!
# Nested calls

A recursive function that first calls itself on a list of arguments, one after another,
and then finishes with their results.  `Nested` functions are run down to a depth, with
something else below it.  Such a run ends, at a depth below which nothing is ever
called, exactly if the tree of calls that it reaches is bounded.
-/

namespace ChocoBase.Foundation

variable {σ ε ρ : Type}

namespace Outcome

/-- The results of the calls, up to the first one without. -/
def sequence (call : σ → Outcome ε ρ) : List σ → Outcome ε (List ρ)
  | [] => .ok []
  | s :: rest => (call s).bind fun r => (sequence call rest).bind fun rs => .ok (r :: rs)

variable {call call' : σ → Outcome ε ρ} {why : Stop}

theorem sequence_congr {list : List σ} (h : ∀ s ∈ list, call s = call' s) :
    sequence call list = sequence call' list := by
  induction list with
  | nil => rfl
  | cons s rest ih =>
      rw [sequence, sequence, h s List.mem_cons_self,
        ih fun s hs => h s (List.mem_cons_of_mem _ hs)]

theorem sequence_append {list list' : List σ} : sequence call (list ++ list') =
    (sequence call list).bind fun rs => (sequence call list').bind fun rs' => .ok (rs ++ rs') := by
  induction list with
  | nil =>
      rw [List.nil_append, sequence, Outcome.bind]
      cases sequence call list' <;> rfl
  | cons s rest ih =>
      rw [List.cons_append, sequence, sequence, ih]
      cases call s with
      | ok r =>
          cases sequence call rest with
          | ok rs => cases sequence call list' <;> rfl
          | error reason => rfl
          | stop why => rfl
      | error reason => rfl
      | stop why => rfl

theorem length_of_sequence {list : List σ} : ∀ {rs : List ρ}, sequence call list = .ok rs →
    rs.length = list.length := by
  induction list with
  | nil =>
      intro rs h
      cases h
      rfl
  | cons s rest ih =>
      intro rs h
      obtain ⟨r, -, h⟩ := bind_eq_ok.mp h
      obtain ⟨rs', hrest, h⟩ := bind_eq_ok.mp h
      cases h
      rw [List.length_cons, List.length_cons, ih hrest]

example : sequence (fun n : Nat => if n = 2 then .error "two" else .ok (n + 1)) [1, 2, 3] =
    (.error "two" : Outcome String (List Nat)) := by
  decide +kernel

/-- Each call is as another one or stops: so is the sequence. -/
theorem sequence_cut {list : List σ} (h : ∀ s ∈ list, call s = .stop why ∨ call' s = call s) :
    sequence call list = .stop why ∨ sequence call' list = sequence call list := by
  induction list with
  | nil => exact .inr rfl
  | cons s rest ih =>
      rw [sequence, sequence]
      rcases h s List.mem_cons_self with hstop | heq
      · exact .inl (by rw [hstop, Outcome.bind])
      · rw [heq]
        cases call s with
        | ok r =>
            rcases ih fun s hs => h s (List.mem_cons_of_mem _ hs) with hstop | heq
            · exact .inl (by rw [Outcome.bind, hstop, Outcome.bind])
            · exact .inr (by rw [Outcome.bind, heq, Outcome.bind])
        | error reason => exact .inr rfl
        | stop why => exact .inr rfl

/-- A call that stops is reached, if no earlier one fails. -/
theorem sequence_stop {before after : List σ} {s : σ}
    (hbefore : ∀ t ∈ before, call t = .stop why ∨ ∃ r, call t = .ok r) (hs : call s = .stop why) :
    sequence call (before ++ s :: after) = .stop why := by
  induction before with
  | nil => rw [List.nil_append, sequence, hs, Outcome.bind]
  | cons t before ih =>
      rw [List.cons_append, sequence]
      rcases hbefore t List.mem_cons_self with hstop | ⟨r, hr⟩
      · rw [hstop, Outcome.bind]
      · rw [hr, Outcome.bind, ih fun t ht => hbefore t (List.mem_cons_of_mem _ ht), Outcome.bind]

end Outcome

open Outcome

/-- `run below depth` calls itself down to the depth, and `below` there. -/
structure Nested (run : (σ → Outcome ε ρ) → Nat → σ → Outcome ε ρ) (calls : σ → List σ) : Prop where
  zero : ∀ below s, run below 0 s = below s
  succ : ∀ s, ∃ finish : List ρ → Outcome ε ρ, ∀ below depth,
    run below (depth + 1) s = (sequence (run below depth) (calls s)).bind finish

/-- From some depth on it does not matter what is below. -/
def EndsIn (run : (σ → Outcome ε ρ) → Nat → σ → Outcome ε ρ) (s : σ) (o : Outcome ε ρ) : Prop :=
  ∃ depth, ∀ below, run below depth s = o

/-- Every call that is reached is bounded itself. -/
inductive Bounded (run : (σ → Outcome ε ρ) → Nat → σ → Outcome ε ρ) (calls : σ → List σ) :
    σ → Prop
  | intro {s : σ} (h : ∀ before t after, calls s = before ++ t :: after →
      (∀ t' ∈ before, ∃ r, EndsIn run t' (.ok r)) → Bounded run calls t) : Bounded run calls s

namespace Nested

variable {run : (σ → Outcome ε ρ) → Nat → σ → Outcome ε ρ} {calls : σ → List σ}

theorem run_add (h : Nested run calls) (below : σ → Outcome ε ρ) (m n : Nat) (s : σ) :
    run below (m + n) s = run (run below n) m s := by
  induction m generalizing s with
  | zero => rw [Nat.zero_add, h.zero]
  | succ m ih =>
      obtain ⟨finish, hfinish⟩ := h.succ s
      rw [Nat.succ_add, hfinish, hfinish]
      exact congrArg (Outcome.bind · finish) (sequence_congr fun t _ => ih t)

theorem mono (h : Nested run calls) {depth depth' : Nat} (hle : depth ≤ depth') {s : σ}
    {o : Outcome ε ρ} (ho : ∀ below, run below depth s = o) (below : σ → Outcome ε ρ) :
    run below depth' s = o := by
  obtain ⟨n, rfl⟩ := Nat.exists_eq_add_of_le hle
  rw [h.run_add, ho]

theorem endsIn_unique (h : Nested run calls) {s : σ} {o o' : Outcome ε ρ} (ho : EndsIn run s o)
    (ho' : EndsIn run s o') : o = o' := by
  obtain ⟨depth, hdepth⟩ := ho
  obtain ⟨depth', hdepth'⟩ := ho'
  have below : σ → Outcome ε ρ := fun _ => .stop .panic
  rw [← h.mono (Nat.le_max_left depth depth') hdepth below,
    h.mono (Nat.le_max_right depth depth') hdepth' below]

/-- What stops below a depth stops the run there, or does not matter. -/
theorem run_cut (h : Nested run calls) (why : Stop) (depth : Nat) (s : σ) :
    run (fun _ => .stop why) depth s = .stop why ∨
      ∀ below, run below depth s = run (fun _ => .stop why) depth s := by
  induction depth generalizing s with
  | zero => exact .inl (h.zero _ s)
  | succ depth ih =>
      obtain ⟨finish, hfinish⟩ := h.succ s
      by_cases hcut : sequence (run (fun _ => .stop why) depth) (calls s) = .stop why
      · exact .inl (by rw [hfinish, hcut, Outcome.bind])
      · refine .inr fun below => ?_
        rw [hfinish, hfinish]
        refine congrArg (Outcome.bind · finish) ((sequence_cut fun t _ => ?_).resolve_left hcut)
        exact (ih t).imp_right fun h => h below

/-! ## Bounded runs end -/

theorem endsIn_sequence (h : Nested run calls) {s : σ}
    (hends : ∀ before t after, calls s = before ++ t :: after →
      (∀ t' ∈ before, ∃ r, EndsIn run t' (.ok r)) → ∃ o, EndsIn run t o) (after : List σ) :
    ∀ before, calls s = before ++ after → (∀ t ∈ before, ∃ r, EndsIn run t (.ok r)) →
      ∃ depth o, ∀ depth', depth ≤ depth' → ∀ below, sequence (run below depth') after = o := by
  induction after with
  | nil => exact fun _ _ _ => ⟨0, .ok [], fun _ _ _ => rfl⟩
  | cons t after ih =>
      intro before hcalls hbefore
      obtain ⟨o, depth, hdepth⟩ := hends before t after hcalls hbefore
      cases o with
      | ok r =>
          have hanswered : ∀ t' ∈ before ++ [t], ∃ r, EndsIn run t' (.ok r) := by
            intro t' ht'
            rcases List.mem_append.mp ht' with ht' | ht'
            · exact hbefore t' ht'
            · exact ⟨r, List.mem_singleton.mp ht' ▸ ⟨depth, hdepth⟩⟩
          obtain ⟨rest, o, hrest⟩ := ih (before ++ [t]) (by simp [hcalls]) hanswered
          refine ⟨max depth rest, o.bind fun rs => .ok (r :: rs), fun depth' hle below => ?_⟩
          rw [Outcome.sequence, h.mono (Nat.le_trans (Nat.le_max_left ..) hle) hdepth, Outcome.bind,
            hrest depth' (Nat.le_trans (Nat.le_max_right ..) hle)]
      | error reason =>
          refine ⟨depth, .error reason, fun depth' hle below => ?_⟩
          rw [Outcome.sequence, h.mono hle hdepth, Outcome.bind]
      | stop why =>
          refine ⟨depth, .stop why, fun depth' hle below => ?_⟩
          rw [Outcome.sequence, h.mono hle hdepth, Outcome.bind]

theorem ends_of_bounded (h : Nested run calls) {s : σ} (hs : Bounded run calls s) :
    ∃ o, EndsIn run s o := by
  induction hs with
  | @intro s _ ih =>
      obtain ⟨depth, o, hdepth⟩ := h.endsIn_sequence ih (calls s) [] rfl (fun _ h => by cases h)
      obtain ⟨finish, hfinish⟩ := h.succ s
      refine ⟨o.bind finish, depth + 1, fun below => ?_⟩
      rw [hfinish, hdepth depth (Nat.le_refl _)]

/-! ## Runs that are not bounded do not end -/

theorem run_of_endsIn_ok (h : Nested run calls) {s : σ} {r : ρ} (hends : EndsIn run s (.ok r))
    (why : Stop) (depth : Nat) : run (fun _ => .stop why) depth s = .stop why ∨
      ∃ r, run (fun _ => .stop why) depth s = .ok r := by
  refine (h.run_cut why depth s).imp_right fun hfree => ⟨r, ?_⟩
  exact h.endsIn_unique ⟨depth, hfree⟩ hends

/-- At every depth the run gets below it. -/
theorem stops_of_not_bounded (h : Nested run calls) {s : σ} (hs : ¬Bounded run calls s)
    (why : Stop) (depth : Nat) : run (fun _ => .stop why) depth s = .stop why := by
  induction depth generalizing s with
  | zero => exact h.zero _ s
  | succ depth ih =>
      have hreached : ∃ before t after, calls s = before ++ t :: after ∧
          (∀ t' ∈ before, ∃ r, EndsIn run t' (.ok r)) ∧ ¬Bounded run calls t := by
        by_contra hnone
        push Not at hnone
        exact hs (.intro hnone)
      obtain ⟨before, t, after, hcalls, hbefore, ht⟩ := hreached
      obtain ⟨finish, hfinish⟩ := h.succ s
      have hstop : sequence (run (fun _ => .stop why) depth) (calls s) = .stop why := by
        rw [hcalls]
        refine sequence_stop (fun t' ht' => ?_) (ih ht)
        obtain ⟨r, hr⟩ := hbefore t' ht'
        exact h.run_of_endsIn_ok hr why depth
      rw [hfinish, hstop, Outcome.bind]

theorem ends_iff (h : Nested run calls) {s : σ} :
    (∃ o, EndsIn run s o) ↔ Bounded run calls s := by
  refine ⟨fun ⟨o, depth, hdepth⟩ => ?_, h.ends_of_bounded⟩
  by_contra hs
  have hpanic := (hdepth _).symm.trans (h.stops_of_not_bounded hs .panic depth)
  have hdiverges := (hdepth _).symm.trans (h.stops_of_not_bounded hs .diverges depth)
  rw [hpanic] at hdiverges
  cases hdiverges

end Nested

/-- Calls that get smaller are bounded. -/
theorem Bounded.of_acc {run : (σ → Outcome ε ρ) → Nat → σ → Outcome ε ρ} {calls : σ → List σ}
    {s : σ} (hs : Acc (fun t s => t ∈ calls s) s) : Bounded run calls s := by
  induction hs with
  | intro s _ ih =>
      refine .intro fun before t after hcalls _ => ih t ?_
      rw [hcalls]
      exact List.mem_append_right _ List.mem_cons_self

/-- A call of itself before all others is not bounded. -/
theorem Bounded.not_self {run : (σ → Outcome ε ρ) → Nat → σ → Outcome ε ρ} {calls : σ → List σ}
    {s : σ} {rest : List σ} (hself : calls s = s :: rest) : ¬Bounded run calls s := by
  intro hs
  induction hs with
  | intro _ ih => exact ih [] _ rest hself (fun _ h => by cases h) hself

end ChocoBase.Foundation
