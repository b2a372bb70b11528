import ChocoBase.BTree.Runs

/-!
# Several trees in one store

A store holds a tree at each of several roots.  `Roots` gives the map that the
tree at a root stands for.  An operation takes one tree out, works on it while
the others are the rest of the demand, and puts it back, perhaps at another root.
-/

namespace ChocoBase.BTree

open ChocoBase.Foundation ChocoBase.Storage
open SearchTree hiding entries leaves
open Exec (Post)

/-- The map at each root. -/
abbrev Roots : Type := PageNo → Option (OrdMap Bytes Bytes)

namespace Roots

/-- A page number for the root of a new tree. -/
def Fresh (f : Roots) (no : PageNo) : Prop := no ≠ 0 ∧ f no = none

variable (f : Roots) {root no : PageNo} {m : OrdMap Bytes Bytes}

def plant (root : PageNo) (m : OrdMap Bytes Bytes) : Roots := Function.update f root (some m)

def fell (root : PageNo) : Roots := Function.update f root none

@[simp] theorem plant_same : f.plant root m root = some m := Function.update_self ..

@[simp] theorem fell_same : f.fell root root = none := Function.update_self ..

theorem plant_of_ne (h : no ≠ root) : f.plant root m no = f no := Function.update_of_ne h ..

theorem fell_of_ne (h : no ≠ root) : f.fell root no = f no := Function.update_of_ne h ..

theorem fell_eq_some {no : PageNo} : f.fell root no = some m ↔ no ≠ root ∧ f no = some m := by
  by_cases h : no = root
  · simp [h]
  · simp [h, f.fell_of_ne h]

theorem plant_eq_some {no : PageNo} {m' : OrdMap Bytes Bytes} :
    f.plant root m no = some m' ↔ no = root ∧ m = m' ∨ no ≠ root ∧ f no = some m' := by
  by_cases h : no = root
  · simp [h]
  · simp [h, f.plant_of_ne h]

end Roots

/-- The trees `L` lie at the roots of `f` and stand for its maps. -/
structure Grove (L : Multiset PageWhole) (f : Roots) : Prop where
  sorted : ∀ T ∈ L, Sorted T.2.tokens
  shows : ∀ root m, f root = some m ↔ ∃ T ∈ L, T.2.page = root ∧ ∃ h, toMap T.2.tokens h = m

/-- A demand of the trees of `f`, and of no other page if it is tidy. -/
def Stocks (F : Demand) (f : Roots) (tidy : Bool) : Prop :=
  ∃ L X, F = (L.map treeDemand).sum + X ∧ Grove L f ∧ (tidy = true → X = 0)

/-- The pages in use are those of the trees of `f`, and others unless it is tidy. -/
def Plants (c : PageNo) (f : Roots) (tidy : Bool) (st : Store) : Prop :=
  ∃ F, Owns c F st ∧ Stocks F f tidy

section Forest

variable {c root : PageNo} {f : Roots} {tidy : Bool} {st : Store} {F : Demand} {T : PageWhole}
  {m : OrdMap Bytes Bytes}

theorem page_mem_treeDemand (T : PageWhole) : T.2.page ∈ (treeDemand T).map Prod.fst := by
  rw [treeDemand_pages]
  exact Multiset.singleton_le.mp (page_le_treePages T.2)

theorem page_mem_stock {L : Multiset PageWhole} (hT : T ∈ L) :
    T.2.page ∈ ((L.map treeDemand).sum).map Prod.fst := by
  obtain ⟨L', rfl⟩ := Multiset.exists_cons_of_mem hT
  rw [Multiset.map_cons, Multiset.sum_cons, Multiset.map_add, Multiset.mem_add]
  exact .inl (page_mem_treeDemand T)

/-- A page of what is owned in addition is no root of the trees. -/
theorem Stocks.ne_of_owns {D : Demand} (h : Stocks F f tidy) (how : Owns c (D + F) st)
    {no : PageNo} (hno : no ∈ D.map Prod.fst) : f no = none := by
  obtain ⟨L, X, rfl, hgrove, -⟩ := h
  by_contra hsome
  obtain ⟨m, hm⟩ := Option.ne_none_iff_exists'.mp hsome
  obtain ⟨T, hT, rfl, -⟩ := (hgrove.shows no m).mp hm
  have hnodup := how.nodup
  rw [Multiset.map_add, Multiset.nodup_add] at hnodup
  refine Multiset.disjoint_left.mp hnodup.2.2 hno ?_
  rw [Multiset.map_add, Multiset.mem_add]
  exact .inl (page_mem_stock hT)

/-- Take a tree out of the forest. -/
theorem Plants.uproot (h : Plants c f tidy st) (hroot : f root = some m) :
    ∃ F T, Maps c F m T root st ∧ Stocks F (f.fell root) tidy := by
  obtain ⟨_, how, L, X, rfl, hgrove, htidy⟩ := h
  obtain ⟨T, hT, hpage, hsorted, hmap⟩ := (hgrove.shows root m).mp hroot
  obtain ⟨L, rfl⟩ := Multiset.exists_cons_of_mem hT
  have how : Owns c (treeDemand T + ((L.map treeDemand).sum + X)) st :=
    how.of_eq (by rw [Multiset.map_cons, Multiset.sum_cons, add_assoc])
  refine ⟨_, T, ⟨⟨⟨hpage, how⟩, hsorted⟩, hmap⟩, L, X, rfl, ⟨fun T' hT' => ?_, fun no m' => ?_⟩,
    htidy⟩
  · exact hgrove.sorted T' (Multiset.mem_cons_of_mem hT')
  · have hother : ∀ T' ∈ L, T'.2.page ≠ root := by
      intro T' hT' heq
      have hnodup := how.nodup
      rw [Multiset.map_add, Multiset.nodup_add] at hnodup
      refine Multiset.disjoint_left.mp hnodup.2.2 (page_mem_treeDemand T) ?_
      rw [Multiset.map_add, Multiset.mem_add, hpage, ← heq]
      exact .inl (page_mem_stock hT')
    rw [Roots.fell_eq_some, hgrove.shows]
    constructor
    · rintro ⟨hne, T', hT', hpage', hmap'⟩
      refine ⟨T', (Multiset.mem_cons.mp hT').resolve_left ?_, hpage', hmap'⟩
      rintro rfl
      exact hne (hpage'.symm.trans hpage)
    · rintro ⟨T', hT', hpage', hmap'⟩
      exact ⟨hpage' ▸ hother T' hT', T', Multiset.mem_cons_of_mem hT', hpage', hmap'⟩

/-- Put a tree into the forest. -/
theorem Stocks.replant (h : Stocks F f tidy) (hT : Maps c F m T root st) :
    f.Fresh root ∧ Plants c (f.plant root m) tidy st := by
  have hmem := page_mem_treeDemand T
  rw [hT.represents.page] at hmem
  have hroot : f root = none := h.ne_of_owns hT.represents.owns hmem
  have hzero : root ≠ 0 := by
    obtain ⟨x, hx, rfl⟩ := Multiset.mem_map.mp hmem
    exact hT.represents.owns.ne_zero (n := x.2) (Multiset.mem_add.mpr (.inl hx))
  obtain ⟨L, X, rfl, hgrove, htidy⟩ := h
  refine ⟨⟨hzero, hroot⟩, _, hT.represents.owns, T ::ₘ L, X, ?_, ⟨fun T' hT' => ?_, fun no m' => ?_⟩, htidy⟩
  · rw [Multiset.map_cons, Multiset.sum_cons, add_assoc]
  · cases Multiset.mem_cons.mp hT' with
    | inl heq => exact heq ▸ hT.represents.sorted
    | inr hT' => exact hgrove.sorted T' hT'
  · rw [Roots.plant_eq_some, hgrove.shows]
    constructor
    · rintro (⟨rfl, rfl⟩ | ⟨-, T', hT', hmap'⟩)
      · exact ⟨T, Multiset.mem_cons_self _ _, hT.represents.page, _, hT.toMap_eq⟩
      · exact ⟨T', Multiset.mem_cons_of_mem hT', hmap'⟩
    · rintro ⟨T', hT', hpage', hsorted', hmap'⟩
      cases Multiset.mem_cons.mp hT' with
      | inl heq =>
          subst heq
          exact .inl ⟨hpage'.symm.trans hT.represents.page, hT.toMap_eq.symm.trans hmap'⟩
      | inr hT' =>
          refine .inr ⟨?_, T', hT', hpage', hsorted', hmap'⟩
          rintro rfl
          have hsome := (hgrove.shows _ m').mpr ⟨T', hT', hpage', hsorted', hmap'⟩
          simp [hroot] at hsome

/-- A page that a root left behind is in use, but part of no tree. -/
theorem Stocks.leave (h : Stocks F f tidy) {root' : PageNo} :
    Stocks (leftOver root root' + F) f (tidy && decide (root' = root)) := by
  obtain ⟨L, X, rfl, hgrove, htidy⟩ := h
  refine ⟨L, leftOver root root' + X, by abel, hgrove, fun h => ?_⟩
  rw [Bool.and_eq_true, decide_eq_true_eq] at h
  rw [htidy h.1, h.2, leftOver_self, add_zero]

/-! ## Operations on one of the trees -/

theorem Plants.run_insert (h : Plants c f tidy st) (hroot : f root = some m) {key payload : Bytes}
    {Q : Post Store BTreeError PageNo}
    (hlarge : pageSize < singleEntrySize key payload →
      Q.error (.rowTooLarge (singleEntrySize key payload) pageSize) st)
    (hdup : m.get key ≠ none → Q.error .duplicateKey st)
    (hok : singleEntrySize key payload ≤ pageSize → m.get key = none → ∀ root' st',
      (f.fell root).Fresh root' →
      Plants c ((f.fell root).plant root' (m.insert key payload)) tidy st' → Q.ok root' st')
    (hstop : ∀ st', st'.allocate = none → Q.stop .overflow st') :
    Run (BTree.insert root key payload) Q st := by
  obtain ⟨F, T, ⟨hT, rfl⟩, hstocks⟩ := h.uproot hroot
  refine BTree.run_insert hT hlarge (fun _ => hdup) (fun hfits habsent T' root' st' hins => ?_) hstop
  obtain ⟨hfresh, hplants⟩ := hstocks.replant ⟨hins.represents, hins.toMap_eq⟩
  exact hok hfits habsent root' st' hfresh hplants

theorem Plants.run_delete (h : Plants c f tidy st) (hroot : f root = some m) (key : Bytes)
    {Q : Bool × PageNo → Store → Prop} (habsent : m.get key = none → Q (false, root) st)
    (hpresent : m.get key ≠ none → ∀ root' st', (f.fell root).Fresh root' →
      Plants c ((f.fell root).plant root' (m.erase key)) (tidy && decide (root' = root)) st' →
        Q (true, root') st') : Run (BTree.delete root key) (Ends Q) st := by
  obtain ⟨F, T, ⟨hT, rfl⟩, hstocks⟩ := h.uproot hroot
  refine BTree.run_delete hT key habsent fun hmem T' root' st' hdel => ?_
  obtain rfl : T.2.page = root := hT.page
  obtain ⟨hfresh, hplants⟩ := hstocks.leave.replant ⟨hdel.represents, hdel.toMap_eq⟩
  exact hpresent hmem root' st' hfresh hplants

theorem Plants.run_search (h : Plants c f tidy st) (hroot : f root = some m) (key : Bytes)
    {Q : Post Store BTreeError (Option Bytes)} (hok : Q.ok (m.get key) st) :
    Run (BTree.search root key) Q st := by
  obtain ⟨F, T, ⟨hT, rfl⟩, -⟩ := h.uproot hroot
  exact BTree.run_search hT key hok

/-- A new tree, at a root that no other tree has. -/
theorem Plants.run_emptyTree (h : Plants c f tidy st) {Q : PageNo → Store → Prop}
    (hok : ∀ root st', f.Fresh root → Plants c (f.plant root .empty) tidy st' → Q root st') :
    Run (emptyTree BTreeError.storage) (Ends Q) st := by
  obtain ⟨F, how, hstocks⟩ := h
  refine .bind (run_allocatePage how fun no st₁ h₁ => h₁) fun no st₁ h₁ => ?_
  refine .step (run_encodeInto h₁ fun st₂ h₂ => ?_)
  have hdemand : treeDemand ⟨0, .ofLeaf ⟨no, []⟩⟩ + F = (no, some (.leaf ⟨[], 0⟩)) ::ₘ F := by
    simp [treeDemand, leafAt, LeafNode.ofEntries]
    rfl
  have hT : Maps c F .empty ⟨0, .ofLeaf ⟨no, []⟩⟩ no st₂ :=
    ⟨⟨⟨rfl, h₂.of_eq hdemand.symm⟩, List.Pairwise.nil⟩, rfl⟩
  obtain ⟨hfresh, hplants⟩ := hstocks.replant hT
  exact hok no st₂ hfresh hplants

end Forest

end ChocoBase.BTree
