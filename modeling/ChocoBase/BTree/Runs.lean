import ChocoBase.BTree.Delete

/-!
# Runs of insertions and deletions

A tree that starts as one empty leaf stands for the ordered map that the same
calls build.
-/

namespace ChocoBase.BTree

open ChocoBase.Foundation ChocoBase.Storage
open SearchTree hiding entries leaves
open Exec (Post)

inductive TreeCall where
  | insert (key payload : Bytes)
  | delete (key : Bytes)

inductive TreeAnswer where
  | inserted (result : Except BTreeError Unit)
  | deleted (present : Bool)
  deriving DecidableEq

namespace TreeCall

/-- The call on the tree at `root`.  A refused insertion leaves the root where it is. -/
def perform (root : PageNo) : TreeCall → PageProg BTreeError (TreeAnswer × PageNo)
  | .insert key payload => do
      match ← (BTree.insert root key payload).attempt with
      | .ok root' => return (.inserted (.ok ()), root')
      | .error reason => return (.inserted (.error reason), root)
  | .delete key => do
      let (present, root') ← BTree.delete root key
      return (.deleted present, root')

def performAll (root : PageNo) : List TreeCall → PageProg BTreeError (List TreeAnswer × PageNo)
  | [] => return ([], root)
  | call :: calls => do
      let (answer, root) ← call.perform root
      let (answers, root) ← performAll root calls
      return (answer :: answers, root)

/-- What the call does to the map. -/
def onMap (m : OrdMap Bytes Bytes) : TreeCall → TreeAnswer × OrdMap Bytes Bytes
  | .insert key payload =>
      if pageSize < singleEntrySize key payload then
        (.inserted (.error (.rowTooLarge (singleEntrySize key payload) pageSize)), m)
      else if m.get key ≠ none then (.inserted (.error .duplicateKey), m)
      else (.inserted (.ok ()), m.insert key payload)
  | .delete key => (.deleted (m.get key).isSome, m.erase key)

def onMapAll (m : OrdMap Bytes Bytes) : List TreeCall → List TreeAnswer × OrdMap Bytes Bytes
  | [] => ([], m)
  | call :: calls =>
      let (answer, m) := call.onMap m
      let (answers, m) := onMapAll m calls
      (answer :: answers, m)

/-- The call does not split an internal node that has at most one separator. -/
def SplitsNoThin (node : PageNo → Option Node) (root : PageNo) : TreeCall → Prop
  | .insert key payload => ¬InsertSplitsThin node root key payload
  | .delete _ => True

end TreeCall

section Runs

variable {c : PageNo} {F : Demand} {T : PageWhole} {root : PageNo} {st : Store}

/-- A tree that stands for the map `m`. -/
structure Maps (c : PageNo) (F : Demand) (m : OrdMap Bytes Bytes) (T : PageWhole) (root : PageNo)
    (st : Store) : Prop where
  represents : Represents c F T root st
  toMap_eq : toMap _ represents.sorted = m

variable {m : OrdMap Bytes Bytes}

/-- One call does to the tree what it does to the map. -/
theorem run_perform (hT : Maps c F m T root st) (call : TreeCall) :
    Run (call.perform root) (Ends fun x st' => x.1 = (call.onMap m).1 ∧
      ∃ F' T', Maps c F' (call.onMap m).2 T' x.2 st' ∧
        (call.SplitsNoThin st.node root → T.2.Proper → T'.2.Proper)) st := by
  obtain ⟨hT, rfl⟩ := hT
  cases call with
  | insert key payload =>
      refine .step ((Prog.wp_attempt _ _ _).mpr (run_insert hT (fun hlarge => ?_)
        (fun hfits hdup => ?_) (fun hfits habsent T' root' st' hins => ?_) fun st' hfull => ?_))
      · have hmap : (TreeCall.insert key payload).onMap (toMap _ hT.sorted) =
            (.inserted (.error (.rowTooLarge (singleEntrySize key payload) pageSize)),
              toMap _ hT.sorted) := if_pos hlarge
        rw [hmap]
        exact ⟨rfl, F, T, ⟨hT, rfl⟩, fun _ h => h⟩
      · have hmap : (TreeCall.insert key payload).onMap (toMap _ hT.sorted) =
            (.inserted (.error .duplicateKey), toMap _ hT.sorted) := by
          rw [TreeCall.onMap, if_neg (by omega), if_pos hdup]
        rw [hmap]
        exact ⟨rfl, F, T, ⟨hT, rfl⟩, fun _ h => h⟩
      · have hmap : (TreeCall.insert key payload).onMap (toMap _ hT.sorted) =
            (.inserted (.ok ()), (toMap _ hT.sorted).insert key payload) := by
          rw [TreeCall.onMap, if_neg (by omega), if_neg (not_not.mpr habsent)]
        rw [hmap]
        exact ⟨rfl, F, T', ⟨hins.represents, hins.toMap_eq⟩, hins.proper⟩
      · exact ⟨rfl, hfull⟩
  | delete key =>
      refine .step (run_delete hT key (fun habsent => ?_) fun hpresent T' root' st' hdel => ?_)
      · have hmap : (TreeCall.delete key).onMap (toMap _ hT.sorted) =
            (.deleted false, toMap _ hT.sorted) := by
          rw [TreeCall.onMap, habsent, OrdMap.erase_eq_self habsent]
          rfl
        rw [hmap]
        exact ⟨rfl, F, T, ⟨hT, rfl⟩, fun _ h => h⟩
      · have hmap : (TreeCall.delete key).onMap (toMap _ hT.sorted) =
            (.deleted true, (toMap _ hT.sorted).erase key) := by
          rw [TreeCall.onMap, Option.isSome_iff_ne_none.mpr hpresent]
        rw [hmap]
        exact ⟨rfl, _, T', ⟨hdel.represents, hdel.toMap_eq⟩, fun _ => hdel.proper⟩

/-- A run of calls does to the tree what it does to the map. -/
theorem run_performAll (hT : Maps c F m T root st) (calls : List TreeCall) :
    Run (TreeCall.performAll root calls) (Ends fun x st' =>
      x.1 = (TreeCall.onMapAll m calls).1 ∧
        ∃ F' T', Maps c F' (TreeCall.onMapAll m calls).2 T' x.2 st') st := by
  induction calls generalizing m F T root st with
  | nil => exact ⟨rfl, F, T, hT⟩
  | cons call calls ih =>
      refine .bind (run_perform hT call) ?_
      rintro ⟨answer, root'⟩ st' ⟨rfl, F', T', hT', -⟩
      refine .bind (ih hT') ?_
      rintro ⟨answers, root''⟩ st'' ⟨rfl, F'', T'', hT''⟩
      exact ⟨rfl, F'', T'', hT''⟩

/-- The pages in use, but for the root of a tree. -/
def otherPages (st : Store) (root : PageNo) : Demand :=
  Multiset.ofList ((((List.range st.count.toNat).map UInt32.ofNat).filter fun no =>
    (st.page no).isSome && no ≠ root).map fun no => (no, none))

theorem mem_otherPages (hwf : st.Wf) {no : PageNo} :
    no ∈ (otherPages st root).map Prod.fst ↔ st.page no ≠ none ∧ no ≠ root := by
  simp only [otherPages, Multiset.map_coe, List.map_map, Function.comp_def, List.map_id',
    Multiset.mem_coe, List.mem_filter, List.mem_map, List.mem_range, Bool.and_eq_true,
    Option.isSome_iff_ne_none, decide_eq_true_eq, and_iff_right_iff_imp]
  rintro ⟨hused, -⟩
  have hlt := UInt32.lt_iff_toNat_lt.mp (hwf.bound no (.inl hused))
  exact ⟨no.toNat, hlt, UInt32.ofNat_toNat⟩

theorem otherPages_nodup : ((otherPages st root).map Prod.fst).Nodup := by
  simp only [otherPages, Multiset.map_coe, List.map_map, Function.comp_def, List.map_id',
    Multiset.coe_nodup]
  refine List.Nodup.filter _ (List.Nodup.map_on (fun a ha b hb heq => ?_) List.nodup_range)
  have hcount : st.count.toNat < UInt32.size := st.count.toNat_lt
  have hnat := congrArg UInt32.toNat heq
  rwa [UInt32.toNat_ofNat_of_lt' ((List.mem_range.mp ha).trans hcount),
    UInt32.toNat_ofNat_of_lt' ((List.mem_range.mp hb).trans hcount)] at hnat

/-- One empty leaf stands for the empty map. -/
theorem maps_empty (hwf : st.Wf) (hroot : st.node root = some (.leaf ⟨[], 0⟩)) :
    Maps st.catalogRoot (otherPages st root) .empty ⟨0, .ofLeaf ⟨root, []⟩⟩ root st := by
  have hdemand : treeDemand ⟨0, .ofLeaf ⟨root, []⟩⟩ + otherPages st root =
      leafAt (root, [], 0) ::ₘ otherPages st root := by
    simp [treeDemand]
  have hused : st.page root ≠ none := fun hnone => by simp [Store.node, hnone] at hroot
  refine ⟨⟨⟨rfl, ?_⟩, List.Pairwise.nil⟩, rfl⟩
  rw [hdemand]
  refine ⟨hwf, rfl, ?_, fun x hx => ?_, fun no node hx => ?_, fun no hno => ?_⟩
  · rw [Multiset.map_cons, Multiset.nodup_cons]
    exact ⟨fun hmem => ((mem_otherPages hwf).mp hmem).2 rfl, otherPages_nodup⟩
  · cases Multiset.mem_cons.mp hx with
    | inl heq => exact heq ▸ hused
    | inr hx => exact ((mem_otherPages hwf).mp (Multiset.mem_map_of_mem _ hx)).1
  · cases Multiset.mem_cons.mp hx with
    | inl heq =>
        obtain ⟨rfl, hnode⟩ := Prod.mk.inj heq
        rw [hroot, Option.some.inj hnode]
        rfl
    | inr hx => simp [otherPages] at hx
  · rw [Multiset.map_cons, Multiset.mem_cons]
    by_cases heq : no = root
    · exact .inl heq
    · exact .inr ((mem_otherPages hwf).mpr ⟨hno, heq⟩)

end Runs

/-! ## Programs on the pager -/

/-- Every node that the program writes, run from `s`, has room on its page. -/
def Fitting {σ ε α : Type} (H : Handler pageRequests σ) (x : PageProg ε α) (s : σ) : Prop :=
  ∀ op ∈ x.calls H s, op.Fits

instance : DecidablePred PageRequest.Fits
  | .encodeInto _ node => inferInstanceAs (Decidable (node.encodedSize ≤ pageSize))
  | .getPage _ | .allocatePage | .freePage _ | .catalogRoot | .setCatalogRoot _ => .isTrue trivial

instance {σ ε α : Type} (H : Handler pageRequests σ) (x : PageProg ε α) (s : σ) :
    Decidable (Fitting H x s) :=
  @List.decidableBAll PageRequest PageRequest.Fits inferInstance (x.calls H s)

section OnPager

variable {base : List Page} {start : Os} {active : Bool} {p : Pager} {st : Store} {ε α : Type}

/-- What is proved of a program on the store holds on every pager with these pages. -/
theorem run_onPager {x : PageProg ε α} {Q : Post Store ε α} (h : Holds base start active p st)
    (hx : Run x Q st) (hmisuse : ∀ st', ¬Q.stop .misuse st')
    (hfits : Fitting PageRequest.onPager x p) :
    Exec.wp (x.run PageRequest.onPager)
      ⟨fun value p' => ∃ st', Holds base start active p' st' ∧ Q.ok value st',
        fun reason p' => ∃ st', Holds base start active p' st' ∧ Q.error reason st',
        fun why p' => ∃ st', Holds base start active p' st' ∧ Q.stop why st'⟩ p := by
  have hcalls := Prog.calls_prefix onPager_simulates x h
  have hstore := Prog.wp_sound hx fun op hop => hfits op (hcalls.subset hop)
  have hdefined : (x.run PageRequest.onStore st).1 ≠ .stop .misuse := by
    intro hstop
    unfold Exec.wp at hstore
    rw [show x.run PageRequest.onStore st = (.stop .misuse, (x.run PageRequest.onStore st).2) from
      Prod.ext hstop rfl] at hstore
    exact hmisuse _ hstore
  obtain ⟨houtcome, hholds, -⟩ := Prog.run_simulates onPager_simulates x h hdefined
  unfold Exec.wp at hstore ⊢
  rcases hp : x.run PageRequest.onPager p with ⟨outcome, p'⟩
  rcases hst : x.run PageRequest.onStore st with ⟨outcome', st'⟩
  rw [hp, hst] at houtcome hholds
  rw [hst] at hstore
  have houtcome : outcome = outcome' := houtcome
  subst houtcome
  cases outcome with
  | ok value => exact ⟨st', hholds, hstore⟩
  | error reason => exact ⟨st', hholds, hstore⟩
  | stop why => exact ⟨st', hholds, hstore⟩

end OnPager

/-! ## Programs that only read -/

/-- The request changes nothing. -/
def PageRequest.Reads : PageRequest → Prop
  | .getPage _ => True
  | _ => False

theorem PageRequest.Reads.fits {op : PageRequest} (h : op.Reads) : op.Fits := by
  cases op <;> trivial

section Reading

variable {ε α : Type}

abbrev Reading (x : PageProg ε α) : Prop := x.Only PageRequest.Reads

theorem reading_getPage (no : PageNo) : Reading (getPage no) := Prog.only_request trivial

theorem reading_readLeaf (no : PageNo) : Reading (readLeaf no) :=
  .bind (reading_getPage no) fun _ => Prog.only_unwrap _

theorem reading_descendLoop (key : Bytes) (fuel : Nat) (path : List PageNo) (current : PageNo) :
    Reading (descendLoop key fuel path current) := by
  induction fuel generalizing path current with
  | zero => trivial
  | succ fuel ih =>
      refine .bind (reading_getPage current) fun page => ?_
      split
      · trivial
      · split
        · exact .bind (Prog.only_unwrap _) fun node => ih _ _
        · trivial

theorem reading_leftmostLoop (fuel : Nat) (current : PageNo) :
    Reading (leftmostLoop fuel current) := by
  induction fuel generalizing current with
  | zero => trivial
  | succ fuel ih =>
      refine .bind (reading_getPage current) fun page => ?_
      split
      · trivial
      · split
        · refine .bind (Prog.only_unwrap _) fun node => ?_
          split
          · exact ih _
          · exact ih _
        · trivial

theorem reading_nextLoop (fuel : Nat) (cursor : Cursor) : Reading (cursor.nextLoop fuel) := by
  induction fuel generalizing cursor with
  | zero => trivial
  | succ fuel ih =>
      rw [Cursor.nextLoop]
      split
      · trivial
      · split
        · trivial
        · split
          · trivial
          · exact .bind (reading_readLeaf _) fun node => ih _

theorem reading_nexts (count : Nat) (cursor : Cursor) : Reading (cursor.nexts count) := by
  induction count generalizing cursor with
  | zero => trivial
  | succ count ih =>
      exact .bind (reading_nextLoop _ cursor) fun x => .bind (ih x.2) fun _ => trivial

theorem reading_search (root : PageNo) (key : Bytes) : Reading (search root key) :=
  .bind (reading_descendLoop key _ _ _) fun _ => .bind (reading_readLeaf _) fun _ => trivial

theorem reading_cursorStart (root : PageNo) : Reading (cursorStart root) :=
  .bind (reading_leftmostLoop _ _) fun _ => .bind (reading_readLeaf _) fun _ => trivial

theorem reading_cursorSeek (root : PageNo) (key : Bytes) : Reading (cursorSeek root key) :=
  .bind (reading_descendLoop key _ _ _) fun _ => .bind (reading_readLeaf _) fun _ => trivial

end Reading

/-! ## The tree on the pager -/

section Contract

variable {base : List Page} {start : Os} {active : Bool} {p : Pager} {st : Store} {root : PageNo}

/-- Searching and iterating in the tree at `root` shows the map `m`. -/
structure ReadsAs (p : Pager) (root : PageNo) (m : OrdMap Bytes Bytes) : Prop where
  search : ∀ key, ((search root key).run PageRequest.onPager p).1 = .ok (m.get key)
  start : ∀ count, ((cursorStart root >>= fun cursor => cursor.nexts count).run
    PageRequest.onPager p).1 = .ok (firstAnswers count m.entries)
  seek : ∀ key count, ((cursorSeek root key >>= fun cursor => cursor.nexts count).run
    PageRequest.onPager p).1 = .ok (firstAnswers count (m.from key))

/-- A program that only reads, and always answers, gives that answer. -/
theorem answer_of_run {ε α : Type} {x : PageProg ε α} {value : α}
    (h : Holds base start active p st) (hreading : Reading x)
    (hx : Run x ⟨fun a _ => a = value, fun _ _ => False, fun _ _ => False⟩ st) :
    (x.run PageRequest.onPager p).1 = .ok value := by
  have hfits : Fitting PageRequest.onPager x p := fun op hop =>
    (hreading.calls _ _ op hop).fits
  have hwp := run_onPager h hx (fun _ h => h) hfits
  unfold Exec.wp at hwp
  rcases hp : x.run PageRequest.onPager p with ⟨outcome, p'⟩
  rw [hp] at hwp
  cases outcome with
  | ok value' =>
      obtain ⟨_, _, rfl⟩ := hwp
      rfl
  | error reason => exact hwp.choose_spec.2.elim
  | stop why => exact hwp.choose_spec.2.elim

theorem readsAs {c : PageNo} {F : Demand} {m : OrdMap Bytes Bytes} {T : PageWhole}
    (h : Holds base start active p st) (hT : Maps c F m T root st) : ReadsAs p root m := by
  obtain ⟨hT, rfl⟩ := hT
  constructor
  · exact fun key => answer_of_run h (reading_search root key) (run_search hT key rfl)
  · exact fun count => answer_of_run h
      (.bind (reading_cursorStart root) (reading_nexts count)) (run_scanStart hT count rfl)
  · exact fun key count =>
      answer_of_run h (.bind (reading_cursorSeek root key) (reading_nexts count))
        (run_scanSeek hT key count rfl)

/--
A tree that starts as one empty leaf answers every run of insertions and deletions
as the ordered map does, and then reads as that map, unless the page numbers run
out.  An entry that no page has room for is refused whatever the map holds.
-/
theorem tree_refines_map (h : Holds base start active p st)
    (hroot : st.node root = some (.leaf ⟨[], 0⟩)) (calls : List TreeCall)
    (hfits : Fitting PageRequest.onPager (TreeCall.performAll root calls) p) :
    Exec.wp ((TreeCall.performAll root calls).run PageRequest.onPager)
      ⟨fun x p' => x.1 = (TreeCall.onMapAll .empty calls).1 ∧
          ReadsAs p' x.2 (TreeCall.onMapAll .empty calls).2,
        fun _ _ => False,
        fun why p' => why = .overflow ∧ ∃ st', Holds base start active p' st' ∧
          st'.allocate = none⟩ p := by
  have hrun := run_performAll (maps_empty h.models.wf hroot) calls
  refine Exec.wp_mono (run_onPager h hrun (fun _ hstop => by cases hstop.1) hfits) ?_ ?_ ?_
  · rintro x p' ⟨st', hholds, hanswers, F', T', hT'⟩
    exact ⟨hanswers, readsAs hholds hT'⟩
  · rintro reason p' ⟨st', -, hfalse⟩
    exact hfalse
  · rintro why p' ⟨st', hholds, hwhy, hfull⟩
    exact ⟨hwhy, st', hholds, hfull⟩

end Contract

/-! ## A small tree -/

/-- A new tree. -/
def emptyTree {ε : Type} (convert : StorageError → ε) : PageProg ε PageNo := do
  let no ← @Prog.request pageRequests ε convert .allocatePage
  @Prog.request pageRequests ε convert (.encodeInto no (.leaf ⟨[], 0⟩))
  return no

/-- The only tree in a new file, on page 1. -/
def newTreeStore : Store := ((emptyTree BTreeError.storage).run PageRequest.onStore .empty).2

def newTreePager : Pager := ((emptyTree BTreeError.storage).run PageRequest.onPager .created).2

theorem newTreePager_holds : Holds [] Pager.created.file false newTreePager newTreeStore := by
  have h : Holds [] Pager.created.file false .created .empty :=
    ⟨Pager.created_serves.models, Pager.created_coherent, rfl, fun _ => rfl, by simp⟩
  have hdefined : ((emptyTree BTreeError.storage).run PageRequest.onStore .empty).1 ≠
      .stop .misuse := by decide +kernel
  exact (Prog.run_simulates onPager_simulates _ h hdefined).2.1

theorem newTreeStore_root : newTreeStore.node 1 = some (.leaf ⟨[], 0⟩) := by decide +kernel

theorem tree_refines_map_small :
    let calls : List TreeCall := [.insert [1] [2], .insert [1] [3], .delete [1], .delete [1]]
    Exec.wp ((TreeCall.performAll 1 calls).run PageRequest.onPager)
      ⟨fun x p' => x.1 = [.inserted (.ok ()), .inserted (.error .duplicateKey), .deleted true,
          .deleted false] ∧ ReadsAs p' x.2 .empty,
        fun _ _ => False, fun why _ => why = .overflow⟩ newTreePager := by
  intro calls
  have hfits : Fitting PageRequest.onPager (TreeCall.performAll 1 calls) newTreePager := by
    decide +kernel
  have hmap : TreeCall.onMapAll .empty calls = ([.inserted (.ok ()),
      .inserted (.error .duplicateKey), .deleted true, .deleted false], .empty) := rfl
  have h := tree_refines_map newTreePager_holds newTreeStore_root calls hfits
  rw [hmap] at h
  exact Exec.wp_mono h (fun _ _ h => h) (fun _ _ h => h) fun _ _ h => h.1

/-- An entry that is too large is refused as such also if its key is present. -/
theorem present_key_is_too_large : ¬∀ (base : List Page) (start : Os) (active : Bool) (p : Pager)
    (st : Store) (root : PageNo) (calls : List TreeCall) (answers : List TreeAnswer)
    (root' : PageNo), Holds base start active p st → st.node root = some (.leaf ⟨[], 0⟩) →
    Fitting PageRequest.onPager (TreeCall.performAll root calls) p →
    ((TreeCall.performAll root calls).run PageRequest.onPager p).1 = .ok (answers, root') →
    ∀ i key payload, calls[i]? = some (.insert key payload) →
      (answers[i]? = some (.inserted (.error .duplicateKey)) ↔
        (TreeCall.onMapAll .empty (calls.take i)).2.get key ≠ none) := by
  intro h
  have hrun : ((TreeCall.performAll 1 [.insert [] [], .insert [] (List.replicate 4096 0)]).run
      PageRequest.onPager newTreePager).1 =
        .ok ([.inserted (.ok ()), .inserted (.error (.rowTooLarge 4114 4096))], 1) := by
    decide +kernel
  have hiff := h _ _ _ _ _ 1 _ _ _ newTreePager_holds newTreeStore_root (by decide +kernel) hrun
    1 [] (List.replicate 4096 0) rfl
  have hdup := hiff.mpr (by decide +kernel)
  revert hdup
  decide

end ChocoBase.BTree
