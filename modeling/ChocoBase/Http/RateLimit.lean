import ChocoBase.Foundation.Exec
import ChocoBase.Foundation.SlidingWindow
import Mathlib.Algebra.Group.Nat.Defs

/-!
# Rate limits

Every key has the times of its last requests.  A request is let through while fewer than
the limit are in the window, and else told when the oldest of them leaves it.
-/

namespace ChocoBase.Http

open ChocoBase.Foundation

open SlidingWindow (live)

structure RateLimiter where
  records : String → Option (List Nat)

namespace RateLimiter

def new : RateLimiter := ⟨fun _ => none⟩

def checkRateLimit (key : String) (maxRequests windowSecs now : Nat) : Exec RateLimiter Nat Unit :=
  fun s =>
    let cutoff := now - windowSecs
    let timestamps := ((s.records key).getD []).filter fun t => cutoff < t
    if maxRequests ≤ timestamps.length then
      let oldest := timestamps.head?.getD now
      (if oldest + windowSecs < 2 ^ 64 then .error (max (oldest + windowSecs - now) 1)
        else .stop .overflow,
        ⟨Function.update s.records key (some timestamps)⟩)
    else (.ok (), ⟨Function.update s.records key (some (timestamps ++ [now]))⟩)

end RateLimiter

/-- What a key may do. -/
structure Limit where
  maxRequests : Nat
  windowSecs : Nat
  maxRequests_pos : 1 ≤ maxRequests
  windowSecs_pos : 1 ≤ windowSecs

/-- A call, at a time that a clock with signed seconds shows. -/
structure Check where
  key : String
  now : Nat
  now_lt : now < 2 ^ 63

/-- A call and what came of it. -/
abbrev Checked : Type := Check × Outcome Nat Unit

section Runs

variable (limits : String → Limit)

def Check.run (c : Check) : Exec RateLimiter Nat Unit :=
  RateLimiter.checkRateLimit c.key (limits c.key).maxRequests (limits c.key).windowSecs c.now

def runChecks : RateLimiter → List Check → List Checked
  | _, [] => []
  | s, c :: cs => (c, (c.run limits s).1) :: runChecks (c.run limits s).2 cs

/-- The times at which a key was let through. -/
def admitted (key : String) (log : List Checked) : List Nat :=
  (log.filter fun r => r.1.key = key ∧ r.2 = .ok ()).map fun r => r.1.now

/-- What a call comes to, by the times at which its key was let through. -/
def decision (limit : Limit) (now : Nat) (times : List Nat) : Outcome Nat Unit :=
  if limit.maxRequests ≤ (live limit.windowSecs now times).length then
    .error ((live limit.windowSecs now times).head?.getD now + limit.windowSecs - now)
  else .ok ()

/-- The limiter has what is live of the log, whatever comes next. -/
structure Follows (log : List Checked) (last : Nat) (s : RateLimiter) : Prop where
  times : ∀ key now, last ≤ now →
    live (limits key).windowSecs now ((s.records key).getD []) =
      live (limits key).windowSecs now (admitted key log)
  sorted : ∀ key, (admitted key log).Pairwise (· ≤ ·)
  past : ∀ key, ∀ time ∈ admitted key log, time ≤ last
  within : ∀ key, SlidingWindow.WithinLimit (limits key).maxRequests (limits key).windowSecs
    (admitted key log)

variable {limits}

@[simp]
theorem admitted_append (key : String) (log more : List Checked) :
    admitted key (log ++ more) = admitted key log ++ admitted key more := by
  rw [admitted, List.filter_append, List.map_append]
  rfl

theorem admitted_single (key : String) (c : Check) (outcome : Outcome Nat Unit) :
    admitted key [(c, outcome)] = if c.key = key ∧ outcome = .ok () then [c.now] else [] := by
  rw [admitted, List.filter_cons]
  split <;> simp_all

theorem Follows.new : Follows limits [] 0 RateLimiter.new where
  times _ _ _ := rfl
  sorted _ := List.Pairwise.nil
  past _ := nofun
  within _ := SlidingWindow.WithinLimit.nil

/-- The cutoff of the source is the window's edge. -/
theorem filter_cutoff {window now : Nat} (h : window ≤ now) (times : List Nat) :
    (times.filter fun t => now - window < t) = live window now times := by
  refine List.filter_congr fun t _ => decide_eq_decide.mpr ?_
  omega

theorem live_head_lt {window now : Nat} {times : List Nat} {oldest : Nat}
    (h : (live window now times).head? = some oldest) : oldest ∈ times ∧ now < oldest + window := by
  have hmem := List.mem_filter.mp (List.mem_of_head? h)
  exact ⟨hmem.1, of_decide_eq_true hmem.2⟩

theorem live_head_of_full {limit : Limit} {now : Nat} {times : List Nat}
    (h : limit.maxRequests ≤ (live limit.windowSecs now times).length) :
    ∃ oldest, (live limit.windowSecs now times).head? = some oldest := by
  cases hlive : live limit.windowSecs now times with
  | nil =>
      rw [hlive] at h
      exact absurd (Nat.le_trans limit.maxRequests_pos h) (Nat.not_succ_le_zero 0)
  | cons oldest rest => exact ⟨oldest, rfl⟩

variable {log : List Checked} {last : Nat} {s : RateLimiter}

/-- A call is decided by the log. -/
theorem Follows.run_eq (h : Follows limits log last s) {c : Check} (hlast : last ≤ c.now)
    (hwindow : (limits c.key).windowSecs ≤ c.now) :
    c.run limits s = (decision (limits c.key) c.now (admitted c.key log),
      ⟨Function.update s.records c.key (some
        (if decision (limits c.key) c.now (admitted c.key log) = .ok () then
          live (limits c.key).windowSecs c.now (admitted c.key log) ++ [c.now]
        else live (limits c.key).windowSecs c.now (admitted c.key log)))⟩) := by
  have htimes := h.times c.key c.now hlast
  simp only [Check.run, RateLimiter.checkRateLimit, filter_cutoff hwindow, htimes, decision]
  split
  · next hfull =>
      obtain ⟨oldest, holdest⟩ := live_head_of_full hfull
      obtain ⟨hmem, hlate⟩ := live_head_lt holdest
      have hpast := h.past c.key oldest hmem
      have hnow := c.now_lt
      have hfits : oldest + (limits c.key).windowSecs < 2 ^ 64 := by omega
      have hwait : 1 ≤ oldest + (limits c.key).windowSecs - c.now := by omega
      rw [holdest, Option.getD_some, if_pos hfits, Nat.max_eq_left hwait, if_neg nofun]
  · next hfewer => rw [if_pos rfl]

theorem decision_eq_ok_iff {limit : Limit} {now : Nat} {times : List Nat} :
    decision limit now times = .ok () ↔
      (live limit.windowSecs now times).length < limit.maxRequests := by
  rw [decision]
  split
  · next hfull => exact iff_of_false nofun (Nat.not_lt.mpr hfull)
  · next hfewer => exact iff_of_true rfl (Nat.not_le.mp hfewer)

/-- A call that is turned away waits for the oldest live time. -/
theorem decision_eq_error {limit : Limit} {now wait : Nat} {times : List Nat}
    (h : decision limit now times = .error wait) :
    limit.maxRequests ≤ (live limit.windowSecs now times).length ∧
      ∃ oldest, (live limit.windowSecs now times).head? = some oldest ∧
        wait = oldest + limit.windowSecs - now := by
  rw [decision] at h
  split at h
  · next hfull =>
      obtain ⟨oldest, holdest⟩ := live_head_of_full hfull
      rw [holdest] at h
      exact ⟨hfull, oldest, holdest, (Outcome.error.inj h).symm⟩
  · cases h

theorem Follows.step (h : Follows limits log last s) {c : Check} (hlast : last ≤ c.now)
    (hwindow : (limits c.key).windowSecs ≤ c.now) :
    Follows limits (log ++ [(c, decision (limits c.key) c.now (admitted c.key log))]) c.now
      (c.run limits s).2 := by
  rw [h.run_eq hlast hwindow]
  by_cases hok : decision (limits c.key) c.now (admitted c.key log) = .ok ()
  · have hadmitted : ∀ key, admitted key
        (log ++ [(c, decision (limits c.key) c.now (admitted c.key log))]) =
          if c.key = key then admitted key log ++ [c.now] else admitted key log := by
      intro key
      rw [admitted_append, admitted_single, hok]
      split <;> simp_all
    have hpast : ∀ key, ∀ time ∈ admitted key log, time ≤ c.now := fun key time htime =>
      Nat.le_trans (h.past key time htime) hlast
    constructor
    · intro key now hnow
      rw [hadmitted, if_pos hok]
      dsimp only
      by_cases hkey : c.key = key
      · subst hkey
        rw [Function.update_self, Option.getD_some, if_pos rfl, SlidingWindow.live_append,
          SlidingWindow.live_append, SlidingWindow.live_live hnow]
      · rw [Function.update_of_ne (Ne.symm hkey), if_neg hkey]
        exact h.times key now (Nat.le_trans hlast hnow)
    · intro key
      rw [hadmitted]
      split
      · refine List.pairwise_append.mpr ⟨h.sorted key, List.pairwise_singleton _ _, ?_⟩
        intro time htime now hnow
        rw [List.mem_singleton.mp hnow]
        exact hpast key time htime
      · exact h.sorted key
    · intro key time htime
      rw [hadmitted] at htime
      split at htime
      · rcases List.mem_append.mp htime with htime | htime
        · exact hpast key time htime
        · exact Nat.le_of_eq (List.mem_singleton.mp htime)
      · exact hpast key time htime
    · intro key
      rw [hadmitted]
      split
      · next hkey =>
          subst hkey
          exact (h.within _).append (decision_eq_ok_iff.mp hok)
      · exact h.within key
  · have hadmitted : ∀ key, admitted key
        (log ++ [(c, decision (limits c.key) c.now (admitted c.key log))]) = admitted key log := by
      intro key
      rw [admitted_append, admitted_single, if_neg fun hboth => hok hboth.2, List.append_nil]
    constructor
    · intro key now hnow
      rw [hadmitted, if_neg hok]
      dsimp only
      by_cases hkey : c.key = key
      · subst hkey
        rw [Function.update_self, Option.getD_some, SlidingWindow.live_live hnow]
      · rw [Function.update_of_ne (Ne.symm hkey)]
        exact h.times key now (Nat.le_trans hlast hnow)
    · intro key
      rw [hadmitted]
      exact h.sorted key
    · intro key time htime
      rw [hadmitted] at htime
      exact Nat.le_trans (h.past key time htime) hlast
    · intro key
      rw [hadmitted]
      exact h.within key

/-! ## Runs -/

/-- The calls come one after another, none in the first window of the clock. -/
def Timely (limits : String → Limit) (cs : List Check) : Prop :=
  cs.Pairwise (fun c c' => c.now ≤ c'.now) ∧ ∀ c ∈ cs, (limits c.key).windowSecs ≤ c.now

theorem map_runChecks (s : RateLimiter) (cs : List Check) :
    (runChecks limits s cs).map Prod.fst = cs := by
  induction cs generalizing s with
  | nil => rfl
  | cons c cs ih => rw [runChecks, List.map_cons, ih]

/-- After a part of the calls the limiter follows what came of them. -/
theorem Follows.run (h : Follows limits log last s) {cs : List Check} (hcs : Timely limits cs)
    (hlast : ∀ c ∈ cs, last ≤ c.now) {before after : List Checked}
    (hrun : runChecks limits s cs = before ++ after) :
    ∃ last' s', Follows limits (log ++ before) last' s' ∧
      after = runChecks limits s' (after.map Prod.fst) ∧
      Timely limits (after.map Prod.fst) ∧ ∀ c ∈ after.map Prod.fst, last' ≤ c.now := by
  induction before generalizing log last s cs with
  | nil =>
      obtain rfl : runChecks limits s cs = after := hrun
      rw [map_runChecks, List.append_nil]
      exact ⟨last, s, h, rfl, hcs, hlast⟩
  | cons r before ih =>
      cases cs with
      | nil => cases hrun
      | cons c cs =>
          obtain ⟨hr, hrest⟩ := List.cons.inj hrun
          have hwindow := hcs.2 c List.mem_cons_self
          have hstep := h.step (hlast c List.mem_cons_self) hwindow
          rw [h.run_eq (hlast c List.mem_cons_self) hwindow] at hr
          rw [show log ++ r :: before = log ++ [r] ++ before by simp]
          rw [hr] at hstep
          obtain ⟨hfirst, hpairs⟩ := List.pairwise_cons.mp hcs.1
          exact ih hstep ⟨hpairs, fun c' hc' => hcs.2 c' (List.mem_cons_of_mem _ hc')⟩ hfirst hrest

/-- What each call comes to, by those before it. -/
theorem decided {cs : List Check} (hcs : Timely limits cs) {before after : List Checked}
    {r : Checked} (hrun : runChecks limits .new cs = before ++ r :: after) :
    r.2 = decision (limits r.1.key) r.1.now (admitted r.1.key before) ∧
      ∃ last s, Follows limits before last s ∧ last ≤ r.1.now := by
  obtain ⟨last, s, hfollows, hafter, htimely, hlast⟩ :=
    Follows.new.run hcs (fun c _ => Nat.zero_le c.now) hrun
  rw [List.nil_append] at hfollows
  rw [List.map_cons] at hafter htimely hlast
  have hnow := hlast r.1 List.mem_cons_self
  have hr := congrArg Prod.snd (List.cons.inj hafter).1
  rw [hfollows.run_eq hnow (htimely.2 r.1 List.mem_cons_self)] at hr
  exact ⟨hr, last, s, hfollows, hnow⟩

/-! ### Keys by themselves -/

theorem run_records_of_ne {c : Check} {key : String} (h : c.key ≠ key) (s : RateLimiter) :
    (c.run limits s).2.records key = s.records key := by
  simp only [Check.run, RateLimiter.checkRateLimit]
  split <;> exact Function.update_of_ne h.symm _ _

theorem run_congr {c : Check} {s s' : RateLimiter} (h : s.records c.key = s'.records c.key) :
    (c.run limits s).1 = (c.run limits s').1 ∧
      (c.run limits s).2.records c.key = (c.run limits s').2.records c.key := by
  have hset : ∀ (f g : String → Option (List Nat)) v,
      Function.update f c.key v c.key = Function.update g c.key v c.key := by
    intro f g v
    rw [Function.update_self, Function.update_self]
  simp only [Check.run, RateLimiter.checkRateLimit, h]
  split <;> exact ⟨rfl, hset _ _ _⟩

theorem runChecks_filter (key : String) {s s' : RateLimiter}
    (h : s.records key = s'.records key) (cs : List Check) :
    (runChecks limits s cs).filter (fun r => r.1.key = key) =
      runChecks limits s' (cs.filter fun c => c.key = key) := by
  induction cs generalizing s s' with
  | nil => rfl
  | cons c cs ih =>
      rw [runChecks]
      by_cases hkey : c.key = key
      · subst hkey
        obtain ⟨houtcome, hrecords⟩ := run_congr h
        rw [List.filter_cons_of_pos (by simp), List.filter_cons_of_pos (by simp), runChecks,
          houtcome, ih hrecords]
      · rw [List.filter_cons_of_neg (by simpa using hkey),
          List.filter_cons_of_neg (by simpa using hkey),
          ih ((run_records_of_ne hkey s).trans h)]

/-! ### The limits -/

/-- What a client sees of the limits, in all that came of a run. -/
structure Limited (limits : String → Limit) (cs : List Check) (log : List Checked) : Prop where
  answered : ∀ r ∈ log, ¬r.2.Stops
  atMost : ∀ key t, ((admitted key log).filter fun time =>
    t < time + (limits key).windowSecs ∧ time ≤ t).length ≤ (limits key).maxRequests
  rejectsFull : ∀ before c wait after, log = before ++ (c, .error wait) :: after →
    (limits c.key).maxRequests ≤ ((admitted c.key before).filter fun time =>
      c.now < time + (limits c.key).windowSecs ∧ time ≤ c.now).length
  waits : ∀ before c wait between c' outcome after,
    log = before ++ (c, .error wait) :: between ++ (c', outcome) :: after →
      c'.key = c.key → (∀ r ∈ between, r.1.key ≠ c.key) →
        (outcome = .ok () ↔ c.now + wait ≤ c'.now)
  separate : ∀ key, log.filter (fun r => r.1.key = key) =
    runChecks limits .new (cs.filter fun c => c.key = key)

theorem admitted_eq_nil {key : String} {log : List Checked} (h : ∀ r ∈ log, r.1.key ≠ key) :
    admitted key log = [] := by
  rw [admitted, List.map_eq_nil_iff, List.filter_eq_nil_iff]
  intro r hr hboth
  exact h r hr (of_decide_eq_true hboth).1

theorem rate_limits (limits : String → Limit) {cs : List Check} (h : Timely limits cs) :
    Limited limits cs (runChecks limits .new cs) where
  answered := by
    intro r hr
    obtain ⟨before, after, hrun⟩ := List.append_of_mem hr
    rw [(decided h hrun).1, decision]
    split <;> nofun
  atMost := by
    intro key
    obtain ⟨last, s, hfollows, -⟩ := Follows.new.run h (fun c _ => Nat.zero_le c.now)
      (List.append_nil (runChecks limits .new cs)).symm
    exact hfollows.within key
  rejectsFull := by
    intro before c wait after hrun
    obtain ⟨hdecision, last, s, hfollows, hlast⟩ := decided h hrun
    obtain ⟨hfull, -⟩ := decision_eq_error hdecision.symm
    have hlive : live (limits c.key).windowSecs c.now (admitted c.key before) =
        (admitted c.key before).filter fun time =>
          c.now < time + (limits c.key).windowSecs ∧ time ≤ c.now := by
      refine List.filter_congr fun time htime => ?_
      simp [Nat.le_trans (hfollows.past c.key time htime) hlast]
    rw [← hlive]
    exact hfull
  waits := by
    intro before c wait between c' outcome after hrun hkey hbetween
    rw [List.append_assoc, List.cons_append] at hrun
    obtain ⟨hdecision, last, s, hfollows, hlast⟩ := decided h hrun
    have hrun' : runChecks limits .new cs =
        (before ++ (c, .error wait) :: between) ++ (c', outcome) :: after := by simp [hrun]
    obtain ⟨houtcome, -⟩ := decided h hrun'
    have hlater : c.now ≤ c'.now := by
      have hpairs := h.1
      rw [← map_runChecks .new cs, hrun, List.map_append, List.map_cons] at hpairs
      have := (List.pairwise_cons.mp (List.pairwise_append.mp hpairs).2.1).1
      exact this c' (by simp)
    have hsame : admitted c'.key (before ++ (c, .error wait) :: between) =
        admitted c.key before := by
      have hnone : admitted c.key ([(c, .error wait)] ++ between) = [] := by
        rw [admitted_append, admitted_single, if_neg nofun, admitted_eq_nil hbetween]
        rfl
      rw [hkey, admitted_append]
      exact (congrArg _ hnone).trans (List.append_nil _)
    rw [hsame, hkey] at houtcome
    obtain ⟨hfull, oldest, holdest, hwait⟩ := decision_eq_error hdecision.symm
    have hlate := (live_head_lt holdest).2
    rw [show outcome = _ from houtcome, decision_eq_ok_iff, SlidingWindow.length_live_lt_iff (hfollows.within c.key)
      (hfollows.sorted c.key)
      (fun time htime => Nat.le_trans (hfollows.past c.key time htime) hlast)
      holdest hfull hlater]
    dsimp only at hwait hlate
    omega
  separate key := runChecks_filter key rfl cs

/-- One request in ten seconds. -/
def onePerTen : Limit := ⟨1, 10, by decide, by decide⟩

theorem rate_limits_onePerTen :
    Limited (fun _ => onePerTen)
        [⟨"a", 100, by decide⟩, ⟨"a", 105, by decide⟩, ⟨"a", 110, by decide⟩]
        (runChecks (fun _ => onePerTen) .new
          [⟨"a", 100, by decide⟩, ⟨"a", 105, by decide⟩, ⟨"a", 110, by decide⟩]) ∧
      (runChecks (fun _ => onePerTen) .new
          [⟨"a", 100, by decide⟩, ⟨"a", 105, by decide⟩, ⟨"a", 110, by decide⟩]).map Prod.snd =
        [.ok (), .error 5, .ok ()] :=
  ⟨rate_limits (fun _ => onePerTen) ⟨by simp, by simp [onePerTen]⟩, by decide +kernel⟩

end Runs

end ChocoBase.Http
