import ChocoBase.Foundation.Exec
import ChocoBase.Foundation.Trace
import ChocoBase.Storage.Page
import Mathlib.Data.List.Nodup
import Mathlib.Data.List.Perm.Basic

/-!
# Buffer pool

Frames that hold pages, with the guards of the one thread that uses the pool.  A guard pins
its frame; where the pool is full, the first frame of the recency queue that is not pinned
makes room, whether it is dirty or not.
-/

namespace ChocoBase.Storage

open ChocoBase.Foundation

/-- The one error of the pool. -/
inductive PoolError where
  | bufferPoolFull
  deriving DecidableEq, Repr

structure Frame where
  page : Page
  pinCount : Nat
  dirty : Bool
  readers : Nat
  writer : Bool

def Frame.new (page : Page) : Frame := ⟨page, 0, false, 0, false⟩

structure BufferPool where
  capacity : Nat
  /-- the shared frames, by their addresses -/
  heap : Nat → Frame
  nextFrame : Nat
  frames : List (PageNo × Nat)
  recency : List PageNo

namespace BufferPool

def new (capacity : Nat) : Outcome PoolError BufferPool :=
  if 0 < capacity then .ok ⟨capacity, fun _ => .new .zeroed, 0, [], []⟩ else .stop .panic

def frameOf (pool : BufferPool) (pageNo : PageNo) : Option Nat :=
  (pool.frames.find? fun entry => entry.1 = pageNo).map Prod.snd

def setFrame (pool : BufferPool) (frame : Nat) (contents : Frame) : BufferPool :=
  { pool with heap := Function.update pool.heap frame contents }

def touch (pool : BufferPool) (pageNo : PageNo) : BufferPool :=
  { pool with recency := pool.recency.filter (· ≠ pageNo) ++ [pageNo] }

/-- The first page of the queue whose frame nobody holds. -/
def victim (pool : BufferPool) : Option PageNo :=
  pool.recency.find? fun pageNo =>
    (pool.frameOf pageNo).any fun frame => (pool.heap frame).pinCount = 0

def evictOne (pool : BufferPool) : Except PoolError BufferPool :=
  if pool.frames.length < pool.capacity then .ok pool
  else match pool.victim with
    | none => .error .bufferPoolFull
    | some pageNo => .ok { pool with
        recency := pool.recency.filter (· ≠ pageNo)
        frames := pool.frames.filter fun entry => entry.1 ≠ pageNo }

def insert (pool : BufferPool) (pageNo : PageNo) (page : Page) : Except PoolError BufferPool :=
  if (pool.frameOf pageNo).isSome then .ok pool
  else match pool.evictOne with
    | .error e => .error e
    | .ok pool => .ok ({ pool with
        heap := Function.update pool.heap pool.nextFrame (.new page)
        nextFrame := pool.nextFrame + 1
        frames := pool.frames ++ [(pageNo, pool.nextFrame)] }.touch pageNo)

end BufferPool

/-- A guard that is alive, with the page number it was asked for. -/
structure Guard where
  pageNo : PageNo
  frame : Nat
  page : Page
  writes : Bool

/-- The pool and the guards that are alive. -/
structure Guarded where
  pool : BufferPool
  guards : List Guard

namespace Guarded

/-- `fetch` and `fetch_mut`; a latch that is held by a guard of the same thread is never free. -/
def fetch (writes : Bool) (pageNo : PageNo) (s : Guarded) :
    Outcome PoolError (Option Guard) × Guarded :=
  match s.pool.frameOf pageNo with
  | none => (.ok none, s)
  | some frame =>
      let contents := s.pool.heap frame
      let pinned := { contents with pinCount := contents.pinCount + 1 }
      let pool := (s.pool.setFrame frame pinned).touch pageNo
      if contents.writer ∨ writes ∧ 0 < contents.readers then
        (.stop .diverges, { s with pool := pool })
      else
        let latched := if writes then { pinned with writer := true }
          else { pinned with readers := pinned.readers + 1 }
        let guard := ⟨pageNo, frame, contents.page, writes⟩
        (.ok (some guard), ⟨pool.setFrame frame latched, s.guards ++ [guard]⟩)

/-- What a guard does to its frame when it is dropped. -/
def released (guard : Guard) (contents : Frame) : Outcome PoolError Frame :=
  if guard.writes then
    .ok ⟨guard.page, contents.pinCount - 1, true, contents.readers, false⟩
  else if contents.readers = 0 then .stop .overflow
  else .ok { contents with readers := contents.readers - 1, pinCount := contents.pinCount - 1 }

end Guarded

inductive PoolCall where
  | insert (pageNo : PageNo) (page : Page)
  | fetch (writes : Bool) (pageNo : PageNo)
  /-- write through a guard -/
  | write (guard : Nat) (page : Page)
  | drop (guard : Nat)

/-- The pool in use, with the pages that were last written through a guard since dropped. -/
structure InUse extends Guarded where
  written : PageNo → Option Page

namespace InUse

/-- A call that gives back control. -/
def step (s : InUse) : PoolCall → Option InUse
  | .insert pageNo page =>
      match s.pool.insert pageNo page with
      | .ok pool => some { s with pool := pool }
      | .error _ => some s
  | .fetch writes pageNo =>
      match s.toGuarded.fetch writes pageNo with
      | (.ok _, s') => some { s with toGuarded := s' }
      | _ => none
  | .write i page =>
      match s.guards[i]? with
      | some guard =>
          if guard.writes then some { s with guards := s.guards.set i { guard with page := page } }
          else none
      | none => none
  | .drop i =>
      match s.guards[i]? with
      | some guard =>
          match Guarded.released guard (s.pool.heap guard.frame) with
          | .ok contents => some
              { pool := s.pool.setFrame guard.frame contents
                guards := s.guards.eraseIdx i
                written := if guard.writes then
                    Function.update s.written guard.pageNo (some guard.page) else s.written }
          | _ => none
      | none => none

def start (pool : BufferPool) : InUse := ⟨⟨pool, []⟩, fun _ => none⟩

/-- Room is made by a frame that is not dirty. -/
def EvictsClean (s : InUse) : PoolCall → Prop
  | .insert pageNo _ =>
      (s.pool.frameOf pageNo).isNone → s.pool.capacity ≤ s.pool.frames.length →
        ∀ victim ∈ s.pool.victim, ∀ frame ∈ s.pool.frameOf victim, (s.pool.heap frame).dirty = false
  | _ => True

/-- No frame with a guard is gone, and the frames are not too many. -/
structure Holds (s : InUse) : Prop where
  pinned : ∀ guard ∈ s.guards, s.pool.frameOf guard.pageNo = some guard.frame
  bounded : s.pool.frames.length ≤ s.pool.capacity

/-- A page that was written is what any fetch of it returns. -/
def KeepsWrites (s : InUse) : Prop :=
  ∀ pageNo page, s.written pageNo = some page → ∀ writes result s',
    s.toGuarded.fetch writes pageNo = (.ok result, s') → result.map Guard.page = some page

end InUse

/-! ## What one call can do -/

namespace BufferPool

theorem find?_key {l : List (PageNo × Nat)} (h : (l.map Prod.fst).Nodup) {pageNo : PageNo}
    {frame : Nat} :
    (l.find? fun entry => entry.1 = pageNo).map Prod.snd = some frame ↔ (pageNo, frame) ∈ l := by
  induction l with
  | nil => simp
  | cons entry l ih =>
      obtain ⟨hnot, hrest⟩ := List.nodup_cons.mp h
      obtain ⟨key, value⟩ := entry
      rw [List.find?_cons, List.mem_cons]
      by_cases hkey : key = pageNo
      · subst hkey
        have habsent : (key, frame) ∉ l := fun hmem => hnot (List.mem_map.mpr ⟨_, hmem, rfl⟩)
        simp [habsent, eq_comm]
      · have hne : (pageNo, frame) ≠ (key, value) := fun heq => hkey (congrArg Prod.fst heq).symm
        simp only [hkey, decide_false, hne, false_or]
        exact ih hrest

/-- Page numbers and frames go together one to one. -/
structure OneToOne (pool : BufferPool) : Prop where
  keys : (pool.frames.map Prod.fst).Nodup
  addresses : (pool.frames.map Prod.snd).Nodup
  fresh : ∀ entry ∈ pool.frames, entry.2 < pool.nextFrame

variable {pool pool' : BufferPool}

theorem OneToOne.frameOf_iff (h : pool.OneToOne) {pageNo : PageNo} {frame : Nat} :
    pool.frameOf pageNo = some frame ↔ (pageNo, frame) ∈ pool.frames :=
  find?_key h.keys

theorem OneToOne.pageNo_inj (h : pool.OneToOne) {pageNo pageNo' : PageNo} {frame : Nat}
    (hpage : pool.frameOf pageNo = some frame) (hpage' : pool.frameOf pageNo' = some frame) :
    pageNo = pageNo' :=
  congrArg Prod.fst (List.inj_on_of_nodup_map h.addresses (h.frameOf_iff.mp hpage)
    (h.frameOf_iff.mp hpage') rfl)

theorem victim_unpinned {pageNo : PageNo} (h : pool.victim = some pageNo) :
    ∃ frame, pool.frameOf pageNo = some frame ∧ (pool.heap frame).pinCount = 0 := by
  have hany := List.find?_some h
  obtain ⟨frame, hframe, hpin⟩ := (Option.any_eq_true _ _).mp hany
  exact ⟨frame, hframe, of_decide_eq_true hpin⟩

/-- A page that is new takes a new frame, where one has been given up if there was no room. -/
structure Inserted (pool : BufferPool) (pageNo : PageNo) (page : Page) (gone : Option PageNo)
    (pool' : BufferPool) : Prop where
  absent : pool.frameOf pageNo = none
  room : gone = none → pool.frames.length < pool.capacity
  full : ∀ victim, gone = some victim →
    pool.victim = some victim ∧ pool.capacity ≤ pool.frames.length
  capacity : pool'.capacity = pool.capacity
  heap : pool'.heap = Function.update pool.heap pool.nextFrame (.new page)
  nextFrame : pool'.nextFrame = pool.nextFrame + 1
  frames : pool'.frames = (pool.frames.filter fun entry => gone ≠ some entry.1) ++
    [(pageNo, pool.nextFrame)]

theorem evictOne_cases (h : pool.evictOne = .ok pool') :
    pool.frames.length < pool.capacity ∧ pool' = pool ∨
      pool.capacity ≤ pool.frames.length ∧ ∃ victim, pool.victim = some victim ∧
        pool' = { pool with
          recency := pool.recency.filter (· ≠ victim)
          frames := pool.frames.filter fun entry => entry.1 ≠ victim } := by
  rw [evictOne] at h
  split at h
  · next hroom => exact .inl ⟨hroom, (Except.ok.inj h).symm⟩
  · next hfull =>
      cases hvictim : pool.victim with
      | none =>
          rw [hvictim] at h
          cases h
      | some victim =>
          rw [hvictim] at h
          exact .inr ⟨Nat.not_lt.mp hfull, victim, rfl, (Except.ok.inj h).symm⟩

theorem insert_cases {pageNo : PageNo} {page : Page}
    (h : pool.insert pageNo page = .ok pool') :
    (pool.frameOf pageNo).isSome ∧ pool' = pool ∨
      ∃ gone, Inserted pool pageNo page gone pool' := by
  rw [insert] at h
  split at h
  · next hsome => exact .inl ⟨hsome, (Except.ok.inj h).symm⟩
  · next hnone =>
      have habsent := Option.not_isSome_iff_eq_none.mp hnone
      right
      rcases hevict : pool.evictOne with e | kept <;> rw [hevict] at h
      · cases h
      · obtain rfl := Except.ok.inj h
        obtain ⟨hroom, rfl⟩ | ⟨hfull, victim, hvictim, rfl⟩ := evictOne_cases hevict
        · exact ⟨none, habsent, fun _ => hroom, nofun, rfl, rfl, rfl, by simp [touch]⟩
        · refine ⟨some victim, habsent, nofun, ?_, rfl, rfl, rfl, by simp [touch, eq_comm]⟩
          rintro _ ⟨⟩
          exact ⟨hvictim, hfull⟩

namespace Inserted

variable {pageNo : PageNo} {page : Page} {gone : Option PageNo}
  (h : Inserted pool pageNo page gone pool')
include h

theorem oneToOne (hpool : pool.OneToOne) : pool'.OneToOne := by
  have hsub := List.filter_sublist (l := pool.frames) (p := fun entry => gone ≠ some entry.1)
  constructor
  · rw [h.frames, List.map_append]
    refine List.nodup_append'.mpr ⟨hpool.keys.sublist (hsub.map _), List.nodup_singleton _, ?_⟩
    rintro key hkey hnew
    obtain rfl := List.mem_singleton.mp hnew
    obtain ⟨⟨key, frame⟩, hmem, rfl⟩ := List.mem_map.mp hkey
    have hframe := hpool.frameOf_iff.mpr (hsub.subset hmem)
    exact absurd (h.absent.symm.trans hframe) nofun
  · rw [h.frames, List.map_append]
    refine List.nodup_append'.mpr ⟨hpool.addresses.sublist (hsub.map _), List.nodup_singleton _, ?_⟩
    rintro frame hframe hnew
    obtain rfl := List.mem_singleton.mp hnew
    obtain ⟨entry, hmem, heq⟩ := List.mem_map.mp hframe
    exact absurd (hpool.fresh entry (hsub.subset hmem)) (by omega)
  · intro entry hentry
    rw [h.frames] at hentry
    rw [h.nextFrame]
    rcases List.mem_append.mp hentry with hentry | hentry
    · exact Nat.lt_succ_of_lt (hpool.fresh entry (hsub.subset hentry))
    · rw [List.mem_singleton.mp hentry]
      exact Nat.lt_succ_self _

/-- The frames of the other pages, of those that are still there. -/
theorem frameOf_iff (hpool : pool.OneToOne) {pageNo' : PageNo} {frame : Nat} :
    pool'.frameOf pageNo' = some frame ↔
      pool.frameOf pageNo' = some frame ∧ gone ≠ some pageNo' ∨
        pageNo' = pageNo ∧ frame = pool.nextFrame := by
  rw [(h.oneToOne hpool).frameOf_iff, h.frames, List.mem_append, List.mem_filter,
    hpool.frameOf_iff, List.mem_singleton, Prod.mk.injEq, decide_eq_true_eq]

theorem frameOf_self (hpool : pool.OneToOne) : pool'.frameOf pageNo = some pool.nextFrame :=
  (h.frameOf_iff hpool).mpr (.inr ⟨rfl, rfl⟩)

theorem frameOf_gone (hpool : pool.OneToOne) {victim : PageNo} (hgone : gone = some victim) :
    pool'.frameOf victim = none := by
  refine Option.eq_none_iff_forall_ne_some.mpr fun frame hframe => ?_
  rcases (h.frameOf_iff hpool).mp hframe with ⟨-, hstays⟩ | ⟨rfl, -⟩
  · exact hstays hgone
  · obtain ⟨frame, hthere, -⟩ := victim_unpinned (h.full _ hgone).1
    exact absurd (h.absent.symm.trans hthere) nofun

theorem frameOf_other (hpool : pool.OneToOne) {other : PageNo} (hother : other ≠ pageNo)
    (hgone : gone ≠ some other) : pool'.frameOf other = pool.frameOf other := by
  refine Option.ext fun frame => ?_
  rw [h.frameOf_iff hpool]
  exact ⟨fun hframe => (hframe.resolve_right fun heq => hother heq.1).1,
    fun hframe => .inl ⟨hframe, hgone⟩⟩

end Inserted

/-! ## Guards -/

end BufferPool

namespace InUse

/-- How many guards are on a frame. -/
def guardsOn (s : InUse) (frame : Nat) : Nat := s.guards.countP fun guard => guard.frame = frame

def readersOn (s : InUse) (frame : Nat) : Nat :=
  s.guards.countP fun guard => guard.frame = frame ∧ guard.writes = false

structure Sound (s : InUse) : Prop extends Holds s where
  oneToOne : s.pool.OneToOne
  pins : ∀ frame < s.pool.nextFrame, (s.pool.heap frame).pinCount = s.guardsOn frame
  readers : ∀ frame < s.pool.nextFrame, (s.pool.heap frame).readers = s.readersOn frame

/-- The page of a frame that is there and dirty. -/
def dirtyPage (s : InUse) (pageNo : PageNo) : Option Page :=
  (s.pool.frameOf pageNo).bind fun frame =>
    if (s.pool.heap frame).dirty then some (s.pool.heap frame).page else none

/-- What was written is what the dirty frames have. -/
def WrittenIsDirty (s : InUse) : Prop := ∀ pageNo, s.written pageNo = s.dirtyPage pageNo

variable {s s' : InUse}

theorem Sound.start {capacity : Nat} {pool : BufferPool} (h : BufferPool.new capacity = .ok pool) :
    Sound (start pool) := by
  rw [BufferPool.new] at h
  split at h
  · obtain rfl := Outcome.ok.inj h
    exact ⟨⟨nofun, Nat.zero_le _⟩, ⟨List.nodup_nil, List.nodup_nil, nofun⟩, fun _ _ => rfl,
      fun _ _ => rfl⟩
  · cases h

theorem writtenIsDirty_start {capacity : Nat} {pool : BufferPool}
    (h : BufferPool.new capacity = .ok pool) : WrittenIsDirty (start pool) := by
  rw [BufferPool.new] at h
  split at h
  · obtain rfl := Outcome.ok.inj h
    exact fun _ => rfl
  · cases h

theorem Sound.frame_lt (h : Sound s) {pageNo : PageNo} {frame : Nat}
    (hframe : s.pool.frameOf pageNo = some frame) : frame < s.pool.nextFrame :=
  h.oneToOne.fresh _ (h.oneToOne.frameOf_iff.mp hframe)

theorem Sound.guardsOn_next (h : Sound s) : s.guardsOn s.pool.nextFrame = 0 := by
  refine List.countP_eq_zero.mpr fun guard hguard hframe => ?_
  have hlt := h.frame_lt (h.pinned guard hguard)
  exact absurd (of_decide_eq_true hframe) (Nat.ne_of_lt hlt)

theorem readersOn_le (s : InUse) (frame : Nat) : s.readersOn frame ≤ s.guardsOn frame :=
  List.countP_mono_left fun _ _ h => decide_eq_true (of_decide_eq_true h).1

/-- A frame without a guard is the only one that makes room. -/
theorem Sound.gone_unguarded (h : Sound s) {pageNo : PageNo} {page : Page} {gone : Option PageNo}
    {pool' : BufferPool} (hinserted : s.pool.Inserted pageNo page gone pool') {guard : Guard}
    (hguard : guard ∈ s.guards) : gone ≠ some guard.pageNo := by
  intro hgone
  obtain ⟨frame, hframe, hpin⟩ := BufferPool.victim_unpinned (hinserted.full _ hgone).1
  obtain rfl := Option.some.inj ((h.pinned guard hguard).symm.trans hframe)
  rw [h.pins _ (h.frame_lt hframe)] at hpin
  exact List.countP_eq_zero.mp hpin guard hguard (decide_eq_true rfl)

theorem Sound.length_le (h : Sound s) {pageNo : PageNo} {page : Page} {gone : Option PageNo}
    {pool' : BufferPool} (hinserted : s.pool.Inserted pageNo page gone pool') :
    pool'.frames.length ≤ pool'.capacity := by
  rw [hinserted.frames, hinserted.capacity, List.length_append, List.length_singleton]
  cases gone with
  | none =>
      have hroom := hinserted.room rfl
      exact Nat.le_trans (Nat.succ_le_succ (List.length_filter_le _ _)) hroom
  | some victim =>
      obtain ⟨frame, hframe, -⟩ := BufferPool.victim_unpinned (hinserted.full _ rfl).1
      have hless : (s.pool.frames.filter fun entry => some victim ≠ some entry.1).length <
          s.pool.frames.length :=
        List.length_filter_lt_length_iff_exists.mpr
          ⟨_, h.oneToOne.frameOf_iff.mp hframe, by simp⟩
      exact Nat.le_trans hless h.bounded

theorem Sound.insert (h : Sound s) {pageNo : PageNo} {page : Page} {pool' : BufferPool}
    (hinsert : s.pool.insert pageNo page = .ok pool') : Sound { s with pool := pool' } := by
  obtain ⟨-, rfl⟩ | ⟨gone, hinserted⟩ := BufferPool.insert_cases hinsert
  · exact h
  · have hone := hinserted.oneToOne h.oneToOne
    refine ⟨⟨?_, h.length_le hinserted⟩, hone, ?_, ?_⟩
    · intro guard hguard
      exact (hinserted.frameOf_iff h.oneToOne).mpr
        (.inl ⟨h.pinned guard hguard, h.gone_unguarded hinserted hguard⟩)
    · intro frame hframe
      rw [hinserted.nextFrame] at hframe
      dsimp only
      rw [hinserted.heap, Function.update_apply]
      split
      · next heq => rw [heq]; exact h.guardsOn_next.symm
      · next hne => exact h.pins frame (by omega)
    · intro frame hframe
      rw [hinserted.nextFrame] at hframe
      dsimp only
      rw [hinserted.heap, Function.update_apply]
      split
      · next heq =>
          have hnone := h.guardsOn_next
          have hle := s.readersOn_le s.pool.nextFrame
          rw [heq]
          exact (Nat.eq_zero_of_le_zero (hnone ▸ hle)).symm
      · next hne => exact h.readers frame (by omega)

/-! ### Calls on one frame -/

/-- A call that changes what one frame has, and the guards. -/
structure Touched (s s' : InUse) (frame : Nat) (contents : Frame) : Prop where
  frames : s'.pool.frames = s.pool.frames
  capacity : s'.pool.capacity = s.pool.capacity
  nextFrame : s'.pool.nextFrame = s.pool.nextFrame
  heap : s'.pool.heap = Function.update s.pool.heap frame contents

theorem Touched.frameOf {frame : Nat} {contents : Frame} (h : Touched s s' frame contents)
    (pageNo : PageNo) : s'.pool.frameOf pageNo = s.pool.frameOf pageNo := by
  rw [BufferPool.frameOf, BufferPool.frameOf, h.frames]

theorem Sound.touched (h : Sound s) {frame : Nat} {contents : Frame}
    (htouched : Touched s s' frame contents)
    (hpinned : ∀ guard ∈ s'.guards, s.pool.frameOf guard.pageNo = some guard.frame)
    (hpins : contents.pinCount = s'.guardsOn frame) (hreaders : contents.readers = s'.readersOn frame)
    (hothers : ∀ other, other ≠ frame →
      s'.guardsOn other = s.guardsOn other ∧ s'.readersOn other = s.readersOn other) :
    Sound s' := by
  refine ⟨⟨?_, ?_⟩, ⟨?_, ?_, ?_⟩, ?_, ?_⟩
  · intro guard hguard
    rw [htouched.frameOf]
    exact hpinned guard hguard
  · rw [htouched.frames, htouched.capacity]
    exact h.bounded
  · rw [htouched.frames]
    exact h.oneToOne.keys
  · rw [htouched.frames]
    exact h.oneToOne.addresses
  · rw [htouched.frames, htouched.nextFrame]
    exact h.oneToOne.fresh
  · intro other hother
    rw [htouched.nextFrame] at hother
    rw [htouched.heap, Function.update_apply]
    split
    · next heq => rw [heq, hpins]
    · next hne => rw [h.pins other hother, (hothers other hne).1]
  · intro other hother
    rw [htouched.nextFrame] at hother
    rw [htouched.heap, Function.update_apply]
    split
    · next heq => rw [heq, hreaders]
    · next hne => rw [h.readers other hother, (hothers other hne).2]

theorem guardsOn_append {guard : Guard} (hguards : s'.guards = s.guards ++ [guard]) (frame : Nat) :
    s'.guardsOn frame = s.guardsOn frame + if guard.frame = frame then 1 else 0 := by
  simp [guardsOn, hguards, List.countP_append, List.countP_cons]

theorem readersOn_append {guard : Guard} (hguards : s'.guards = s.guards ++ [guard]) (frame : Nat) :
    s'.readersOn frame = s.readersOn frame +
      if guard.frame = frame ∧ guard.writes = false then 1 else 0 := by
  simp [readersOn, hguards, List.countP_append, List.countP_cons]

/-- A fetch finds nothing, or pins and latches the frame. -/
theorem fetch_cases {writes : Bool} {pageNo : PageNo} {result : Option Guard} {g : Guarded}
    (h : s.toGuarded.fetch writes pageNo = (.ok result, g)) :
    s.pool.frameOf pageNo = none ∧ result = none ∧ g = s.toGuarded ∨
      ∃ frame, s.pool.frameOf pageNo = some frame ∧
        result = some ⟨pageNo, frame, (s.pool.heap frame).page, writes⟩ ∧
        g.guards = s.guards ++ [⟨pageNo, frame, (s.pool.heap frame).page, writes⟩] ∧
        Touched s { s with toGuarded := g } frame
          { s.pool.heap frame with
            pinCount := (s.pool.heap frame).pinCount + 1
            readers := (s.pool.heap frame).readers + if writes then 0 else 1
            writer := if writes then true else (s.pool.heap frame).writer } := by
  rw [Guarded.fetch] at h
  cases hframe : s.pool.frameOf pageNo with
  | none =>
      rw [hframe] at h
      obtain ⟨hresult, rfl⟩ := Prod.mk.inj h
      exact .inl ⟨rfl, (Outcome.ok.inj hresult).symm, rfl⟩
  | some frame =>
      rw [hframe] at h
      dsimp only at h
      split at h
      · cases (Prod.mk.inj h).1
      · obtain ⟨hresult, rfl⟩ := Prod.mk.inj h
        refine .inr ⟨frame, rfl, (Outcome.ok.inj hresult).symm, rfl, rfl, rfl, rfl, ?_⟩
        dsimp only [BufferPool.setFrame, BufferPool.touch]
        rw [Function.update_idem]
        cases writes <;> rfl

theorem Sound.fetch (h : Sound s) {writes : Bool} {pageNo : PageNo} {result : Option Guard}
    {g : Guarded} (hfetch : s.toGuarded.fetch writes pageNo = (.ok result, g)) :
    Sound { s with toGuarded := g } := by
  obtain ⟨-, -, rfl⟩ | ⟨frame, hframe, -, hguards, htouched⟩ := fetch_cases hfetch
  · exact h
  · have hlt := h.frame_lt hframe
    have hpins := h.pins frame hlt
    have hreaders := h.readers frame hlt
    refine h.touched htouched ?_ ?_ ?_ ?_
    · intro guard hguard
      rcases List.mem_append.mp (hguards ▸ hguard) with hguard | hguard
      · exact h.pinned guard hguard
      · rw [List.mem_singleton.mp hguard]
        exact hframe
    · rw [guardsOn_append hguards, if_pos rfl]
      exact congrArg (· + 1) hpins
    · rw [readersOn_append hguards]
      cases writes <;> simpa using hreaders
    · intro other hother
      rw [guardsOn_append hguards, readersOn_append hguards, if_neg hother.symm,
        if_neg fun hboth => hother hboth.1.symm]
      exact ⟨rfl, rfl⟩

theorem countP_eraseIdx {p : Guard → Bool} {l : List Guard} {i : Nat} {guard : Guard}
    (h : l[i]? = some guard) :
    l.countP p = (l.eraseIdx i).countP p + if p guard then 1 else 0 := by
  obtain ⟨hi, rfl⟩ := List.getElem?_eq_some_iff.mp h
  rw [← (List.getElem_cons_eraseIdx_perm hi).countP_eq, List.countP_cons]

theorem countP_set_same {p : Guard → Bool} {l : List Guard} {i : Nat} {guard guard' : Guard}
    (h : l[i]? = some guard) (hp : p guard' = p guard) : (l.set i guard').countP p = l.countP p := by
  obtain ⟨hi, rfl⟩ := List.getElem?_eq_some_iff.mp h
  have hle : (if p l[i] = true then 1 else 0) ≤ l.countP p := by
    split
    · next hpos => exact List.countP_pos_iff.mpr ⟨_, List.getElem_mem hi, hpos⟩
    · exact Nat.zero_le _
  rw [List.countP_set hi, hp, Nat.sub_add_cancel hle]

theorem Sound.write (h : Sound s) {i : Nat} {page : Page} {guard : Guard}
    (hguard : s.guards[i]? = some guard) :
    Sound { s with guards := s.guards.set i { guard with page := page } } := by
  have hmem := List.mem_of_getElem? hguard
  have hsame := fun p => @countP_set_same p s.guards i guard { guard with page := page } hguard
  refine ⟨⟨?_, h.bounded⟩, h.oneToOne, ?_, ?_⟩
  · intro other hother
    rcases List.mem_or_eq_of_mem_set hother with hother | rfl
    · exact h.pinned other hother
    · exact h.pinned guard hmem
  · intro frame hframe
    exact (h.pins frame hframe).trans (hsame _ (by rfl)).symm
  · intro frame hframe
    exact (h.readers frame hframe).trans (hsame _ (by rfl)).symm

/-- Dropping a guard gives up its pin and its latch; one that writes gives its page. -/
theorem released_cases {guard : Guard} {contents contents' : Frame}
    (h : Guarded.released guard contents = .ok contents') :
    contents'.pinCount = contents.pinCount - 1 ∧
      (guard.writes = true ∧ contents'.readers = contents.readers ∧ contents'.dirty = true ∧
          contents'.page = guard.page ∨
        guard.writes = false ∧ contents'.readers = contents.readers - 1 ∧
          contents'.dirty = contents.dirty ∧ contents'.page = contents.page) := by
  rw [Guarded.released] at h
  split at h
  · next hwrites =>
      obtain rfl := Outcome.ok.inj h
      exact ⟨rfl, .inl ⟨hwrites, rfl, rfl, rfl⟩⟩
  · next hreads =>
      split at h
      · cases h
      · obtain rfl := Outcome.ok.inj h
        exact ⟨rfl, .inr ⟨Bool.not_eq_true _ ▸ hreads, rfl, rfl, rfl⟩⟩

theorem Sound.drop (h : Sound s) {i : Nat} {guard : Guard} {contents : Frame}
    {written : PageNo → Option Page} (hguard : s.guards[i]? = some guard)
    (hreleased : Guarded.released guard (s.pool.heap guard.frame) = .ok contents) :
    Sound ⟨⟨s.pool.setFrame guard.frame contents, s.guards.eraseIdx i⟩, written⟩ := by
  have hmem := List.mem_of_getElem? hguard
  have hlt := h.frame_lt (h.pinned guard hmem)
  have hpins := h.pins guard.frame hlt
  have hreaders := h.readers guard.frame hlt
  obtain ⟨hpin, hlatch⟩ := released_cases hreleased
  have hguards : ∀ frame, s.guardsOn frame = (s.guards.eraseIdx i).countP
      (fun other => other.frame = frame) + if guard.frame = frame then 1 else 0 := by
    intro frame
    rw [guardsOn, countP_eraseIdx hguard]
    simp
  have hreads : ∀ frame, s.readersOn frame = (s.guards.eraseIdx i).countP
      (fun other => other.frame = frame ∧ other.writes = false) +
        if guard.frame = frame ∧ guard.writes = false then 1 else 0 := by
    intro frame
    rw [readersOn, countP_eraseIdx hguard]
    simp
  have htouched : Touched s
      ⟨⟨s.pool.setFrame guard.frame contents, s.guards.eraseIdx i⟩, written⟩ guard.frame contents :=
    ⟨rfl, rfl, rfl, rfl⟩
  refine h.touched htouched ?_ ?_ ?_ ?_
  · exact fun other hother => h.pinned other (List.mem_of_mem_eraseIdx hother)
  · rw [hpin, hpins, hguards, if_pos rfl]
    rfl
  · rcases hlatch with ⟨hwrites, hsame, -⟩ | ⟨hreading, hless, -⟩
    · rw [hsame, hreaders, hreads, if_neg (by simp [hwrites])]
      rfl
    · rw [hless, hreaders, hreads, if_pos ⟨rfl, hreading⟩]
      rfl
  · intro other hother
    rw [hguards, hreads, if_neg hother.symm, if_neg fun hboth => hother hboth.1.symm]
    exact ⟨rfl, rfl⟩

theorem Sound.step (h : Sound s) {call : PoolCall} (hstep : s.step call = some s') : Sound s' := by
  cases call with
  | insert pageNo page =>
      rw [InUse.step] at hstep
      cases hinsert : s.pool.insert pageNo page with
      | ok pool =>
          rw [hinsert] at hstep
          exact Option.some.inj hstep ▸ h.insert hinsert
      | error e =>
          rw [hinsert] at hstep
          exact Option.some.inj hstep ▸ h
  | fetch writes pageNo =>
      rw [InUse.step] at hstep
      split at hstep
      · next hfetch => exact Option.some.inj hstep ▸ h.fetch hfetch
      · cases hstep
  | write i page =>
      rw [InUse.step] at hstep
      split at hstep
      · next hguard =>
          split at hstep
          · exact Option.some.inj hstep ▸ h.write hguard
          · cases hstep
      · cases hstep
  | drop i =>
      rw [InUse.step] at hstep
      split at hstep
      · next hguard =>
          split at hstep
          · next hreleased => exact Option.some.inj hstep ▸ h.drop hguard hreleased
          · cases hstep
      · cases hstep

/-! ### What was written -/

theorem Touched.dirtyPage {frame : Nat} {contents : Frame} (h : Touched s s' frame contents)
    (hpage : contents.page = (s.pool.heap frame).page)
    (hdirty : contents.dirty = (s.pool.heap frame).dirty) (pageNo : PageNo) :
    s'.dirtyPage pageNo = s.dirtyPage pageNo := by
  rw [InUse.dirtyPage, InUse.dirtyPage, h.frameOf, h.heap]
  refine congrArg _ (funext fun other => ?_)
  rw [Function.update_apply]
  split
  · next heq => rw [heq, hpage, hdirty]
  · rfl

theorem WrittenIsDirty.insert (h : Sound s) (hwritten : WrittenIsDirty s) {pageNo : PageNo}
    {page : Page} {pool' : BufferPool} (hinsert : s.pool.insert pageNo page = .ok pool')
    (hclean : EvictsClean s (.insert pageNo page)) :
    WrittenIsDirty { s with pool := pool' } := by
  obtain ⟨-, rfl⟩ | ⟨gone, hinserted⟩ := BufferPool.insert_cases hinsert
  · exact hwritten
  · intro other
    rw [show _ = s.written other from rfl, hwritten other, InUse.dirtyPage, InUse.dirtyPage]
    dsimp only
    by_cases hself : other = pageNo
    · subst hself
      rw [hinserted.absent, hinserted.frameOf_self h.oneToOne, hinserted.heap, Option.bind_some,
        Function.update_self]
      rfl
    · by_cases hgone : gone = some other
      · obtain ⟨hvictim, hfull⟩ := hinserted.full other hgone
        obtain ⟨frame, hframe, -⟩ := BufferPool.victim_unpinned hvictim
        have hnone : (s.pool.frameOf pageNo).isNone := by rw [hinserted.absent]; rfl
        rw [hinserted.frameOf_gone h.oneToOne hgone, hframe, Option.bind_some,
          hclean hnone hfull other hvictim frame hframe]
        rfl
      · rw [hinserted.frameOf_other h.oneToOne hself hgone]
        cases hframe : s.pool.frameOf other with
        | none => rfl
        | some frame =>
            have hne := Nat.ne_of_lt (h.frame_lt hframe)
            rw [Option.bind_some, Option.bind_some, hinserted.heap, Function.update_of_ne hne]

theorem WrittenIsDirty.drop (h : Sound s) (hwritten : WrittenIsDirty s) {i : Nat} {guard : Guard}
    {contents : Frame} (hguard : s.guards[i]? = some guard)
    (hreleased : Guarded.released guard (s.pool.heap guard.frame) = .ok contents) :
    WrittenIsDirty ⟨⟨s.pool.setFrame guard.frame contents, s.guards.eraseIdx i⟩,
      if guard.writes then Function.update s.written guard.pageNo (some guard.page)
      else s.written⟩ := by
  have htouched : ∀ written, Touched s
      ⟨⟨s.pool.setFrame guard.frame contents, s.guards.eraseIdx i⟩, written⟩ guard.frame contents :=
    fun _ => ⟨rfl, rfl, rfl, rfl⟩
  have hframe := h.pinned guard (List.mem_of_getElem? hguard)
  intro pageNo
  dsimp only
  obtain ⟨-, ⟨hwrites, -, hdirty, hpage⟩ | ⟨hreads, -, hdirty, hpage⟩⟩ := released_cases hreleased
  · rw [if_pos hwrites, Function.update_apply]
    split
    · next heq =>
        subst heq
        rw [InUse.dirtyPage, (htouched _).frameOf, hframe, Option.bind_some, (htouched _).heap,
          Function.update_self, hdirty, hpage]
        rfl
    · next hne =>
        rw [hwritten pageNo, InUse.dirtyPage, InUse.dirtyPage, (htouched _).frameOf]
        cases hother : s.pool.frameOf pageNo with
        | none => rfl
        | some frame =>
            have hframes : frame ≠ guard.frame := by
              rintro rfl
              exact hne (h.oneToOne.pageNo_inj hother hframe)
            rw [Option.bind_some, Option.bind_some, (htouched _).heap,
              Function.update_of_ne hframes]
  · rw [if_neg (by simp [hreads]), hwritten pageNo, (htouched _).dirtyPage hpage hdirty]

theorem WrittenIsDirty.step (h : Sound s) (hwritten : WrittenIsDirty s) {call : PoolCall}
    (hclean : EvictsClean s call) (hstep : s.step call = some s') : WrittenIsDirty s' := by
  cases call with
  | insert pageNo page =>
      rw [InUse.step] at hstep
      cases hinsert : s.pool.insert pageNo page with
      | ok pool =>
          rw [hinsert] at hstep
          exact Option.some.inj hstep ▸ hwritten.insert h hinsert hclean
      | error e =>
          rw [hinsert] at hstep
          exact Option.some.inj hstep ▸ hwritten
  | fetch writes pageNo =>
      rw [InUse.step] at hstep
      split at hstep
      · next hfetch =>
          obtain rfl := Option.some.inj hstep
          obtain ⟨-, -, rfl⟩ | ⟨frame, -, -, -, htouched⟩ := fetch_cases hfetch
          · exact hwritten
          · intro other
            rw [htouched.dirtyPage rfl rfl]
            exact hwritten other
      · cases hstep
  | write i page =>
      rw [InUse.step] at hstep
      split at hstep
      · split at hstep
        · exact Option.some.inj hstep ▸ hwritten
        · cases hstep
      · cases hstep
  | drop i =>
      rw [InUse.step] at hstep
      split at hstep
      · next hguard =>
          split at hstep
          · next hreleased => exact Option.some.inj hstep ▸ hwritten.drop h hguard hreleased
          · cases hstep
      · cases hstep

theorem WrittenIsDirty.keepsWrites (h : WrittenIsDirty s) : KeepsWrites s := by
  intro pageNo page hpage writes result g hfetch
  rw [h pageNo, dirtyPage, Option.bind_eq_some_iff] at hpage
  obtain ⟨frame, hframe, hpage⟩ := hpage
  obtain ⟨-, hpage⟩ := Option.ite_none_right_eq_some.mp hpage
  obtain ⟨hnone, -⟩ | ⟨frame', hframe', rfl, -⟩ := fetch_cases hfetch
  · exact absurd (hnone.symm.trans hframe) nofun
  · obtain rfl := Option.some.inj (hframe.symm.trans hframe')
    exact hpage

/-- A dirty frame that makes room takes what was written with it. -/
theorem WrittenIsDirty.lost (h : Sound s) (hwritten : WrittenIsDirty s) {call : PoolCall}
    (hdirty : ¬EvictsClean s call) (hstep : s.step call = some s') : ¬KeepsWrites s' := by
  cases call with
  | insert pageNo page =>
      simp only [EvictsClean, not_forall, Option.mem_def] at hdirty
      obtain ⟨hnone, hfull, victim, hvictim, frame, hframe, hdirty⟩ := hdirty
      rw [InUse.step] at hstep
      cases hinsert : s.pool.insert pageNo page with
      | ok pool =>
          rw [hinsert] at hstep
          obtain rfl := Option.some.inj hstep
          obtain ⟨hsome, -⟩ | ⟨gone, hinserted⟩ := BufferPool.insert_cases hinsert
          · rw [Option.isNone_iff_eq_none.mp hnone] at hsome
            cases hsome
          · have hgone : gone = some victim := by
              cases gone with
              | none => exact absurd (hinserted.room rfl) (Nat.not_lt.mpr hfull)
              | some other =>
                  exact (hinserted.full other rfl).1.symm.trans hvictim
            have hpage : s.written victim = some (s.pool.heap frame).page := by
              rw [hwritten victim, dirtyPage, hframe, Option.bind_some,
                if_pos (Bool.not_eq_false _ ▸ hdirty)]
            have hlost : Guarded.fetch false victim { s.toGuarded with pool := pool } =
                (.ok none, { s.toGuarded with pool := pool }) := by
              rw [Guarded.fetch, show BufferPool.frameOf _ _ = none from
                hinserted.frameOf_gone h.oneToOne hgone]
            exact fun hkeeps => absurd (hkeeps victim _ hpage false none _ hlost) nofun
      | error e =>
          rw [BufferPool.insert, if_neg (by rw [Option.isNone_iff_eq_none.mp hnone]; nofun),
            BufferPool.evictOne, if_neg (Nat.not_lt.mpr hfull), hvictim] at hinsert
          cases hinsert
  | fetch writes pageNo => exact absurd trivial hdirty
  | write i page => exact absurd trivial hdirty
  | drop i => exact absurd trivial hdirty

/-- What holds in every run, and when a run loses what was written. -/
theorem pool_keeps_writes_iff {capacity : Nat} {pool : BufferPool}
    (h : BufferPool.new capacity = .ok pool) :
    (∀ calls s, Trace step (fun _ _ => True) (start pool) calls s → Holds s) ∧
      ∀ calls s, Trace step EvictsClean (start pool) calls s →
        KeepsWrites s ∧ ∀ call s', s.step call = some s' → (KeepsWrites s' ↔ EvictsClean s call) := by
  constructor
  · intro calls s hrun
    exact (hrun.invariant (Sound.start h) fun _ _ _ hs _ hstep => hs.step hstep).toHolds
  · intro calls s hrun
    have hsteps : ∀ s call s', Sound s ∧ WrittenIsDirty s → EvictsClean s call →
        s.step call = some s' → Sound s' ∧ WrittenIsDirty s' :=
      fun _ _ _ hs hclean hstep => ⟨hs.1.step hstep, hs.2.step hs.1 hclean hstep⟩
    obtain ⟨hsound, hwritten⟩ :=
      hrun.invariant (And.intro (Sound.start h) (writtenIsDirty_start h)) hsteps
    refine ⟨hwritten.keepsWrites, fun call s' hstep => ⟨fun hkeeps => ?_, fun hclean => ?_⟩⟩
    · by_contra hdirty
      exact hwritten.lost hsound hdirty hstep hkeeps
    · exact (hwritten.step hsound hclean hstep).keepsWrites

/-- A pool with room for one page. -/
def onePage : BufferPool := ⟨1, fun _ => .new .zeroed, 0, [], []⟩

theorem pool_keeps_writes_onePage :
    BufferPool.new 1 = .ok onePage ∧
      (∀ calls s, Trace step (fun _ _ => True) (start onePage) calls s → Holds s) ∧
      ∀ calls s, Trace step EvictsClean (start onePage) calls s →
        KeepsWrites s ∧ ∀ call s', s.step call = some s' →
          (KeepsWrites s' ↔ EvictsClean s call) := by
  have hnew : BufferPool.new 1 = .ok onePage := rfl
  exact ⟨hnew, pool_keeps_writes_iff hnew⟩

/-- A write, and a second page in a pool with room for one. -/
def writeThenInsert : List PoolCall :=
  [.insert 1 .zeroed, .fetch true 1, .write 0 ⟨fun _ => 7⟩, .drop 0, .insert 2 .zeroed]

theorem pool_loses_write : ∃ s,
    Trace step (fun _ _ => True) (start onePage) writeThenInsert s ∧ ¬KeepsWrites s := by
  obtain ⟨s, hrun, hwritten, hgone⟩ : ∃ s,
      Trace step (fun _ _ => True) (start onePage) writeThenInsert s ∧
        (s.written 1).isSome ∧ (s.pool.frameOf 1).isNone :=
    Trace.exists_of_follow (by decide +kernel)
  refine ⟨s, hrun, fun hkeeps => ?_⟩
  obtain ⟨page, hpage⟩ := Option.isSome_iff_exists.mp hwritten
  have hfetch : s.toGuarded.fetch false 1 = (.ok none, s.toGuarded) := by
    rw [Guarded.fetch, Option.isNone_iff_eq_none.mp hgone]
  exact absurd (hkeeps 1 page hpage false none _ hfetch) nofun

end InUse

end ChocoBase.Storage
