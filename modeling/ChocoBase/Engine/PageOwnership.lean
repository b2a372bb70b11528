import ChocoBase.Engine.Histories

/-!
# Who owns a page

A page of the file belongs to one of the trees or to the freelist.  In a database that
stands for a dictionary no page is reached from the roots of two trees, and no page of
the freelist is reached from any.
-/

namespace ChocoBase.BTree

open ChocoBase.Foundation ChocoBase.Foundation.SearchTree ChocoBase.Storage

/-! ## The pages of one tree -/

/-- The pages that a node points to: its children, or the next leaf. -/
def Node.targets : Node → List PageNo
  | .internal node => node.children
  | .leaf node => if node.nextLeaf = 0 then [] else [node.nextLeaf]

theorem mem_frontSum {α β κ : Type} {f : α → Multiset β} {front : List (α × κ)} {b : β} :
    b ∈ Kids.frontSum f front ↔ ∃ x ∈ front, b ∈ f x.1 := by
  induction front with
  | nil => simp
  | cons x front ih => simp [ih]

theorem le_frontSum {α β κ : Type} {f : α → Multiset β} {front : List (α × κ)} {x : α × κ}
    (hx : x ∈ front) : f x.1 ≤ Kids.frontSum f front := by
  obtain ⟨xs, ys, rfl⟩ := List.append_of_mem hx
  simp only [Kids.frontSum, List.map_append, List.map_cons, List.sum_append, List.sum_cons]
  exact (Multiset.le_add_right _ _).trans (Multiset.le_add_left _ _)

/-- The children of a branch are pages of the tree. -/
theorem mem_treePages_of_inner {h : Nat} (t : PageTree h) {no child : PageNo} {kids : PageKids}
    (hmem : (no, kids) ∈ t.inner) (hchild : child ∈ pagesOf kids) : child ∈ treePages t := by
  induction h with
  | zero =>
      obtain ⟨l, rfl⟩ := t.exists_ofLeaf
      exact (Multiset.notMem_zero _ hmem).elim
  | succ h ih =>
      obtain ⟨no', kids', rfl⟩ := t.exists_branch
      have hpages : kids'.sum treePages ≤ treePages (.branch no' kids') := by
        rw [sum_treePages, treePages, Tree.inner_branch, Tree.tokens_branch, Multiset.map_cons,
          Multiset.cons_add]
        exact Multiset.le_cons_self _ _
      refine Multiset.mem_of_le hpages ?_
      rw [Tree.inner_branch, Multiset.mem_cons] at hmem
      rcases hmem with heq | hmem
      · obtain ⟨rfl, rfl⟩ := Prod.mk.inj heq
        exact Multiset.mem_of_le (pagesOf_le kids') (Multiset.mem_coe.mpr hchild)
      · rcases Multiset.mem_add.mp hmem with hmem | hmem
        · obtain ⟨x, hx, hmem⟩ := mem_frontSum.mp hmem
          exact Multiset.mem_add.mpr (.inl (Multiset.mem_of_le (le_frontSum hx) (ih x.1 hmem)))
        · exact Multiset.mem_add.mpr (.inr (ih kids'.last hmem))

theorem next_of_mem_chain {ls : List PageLeaf} {stop no next : PageNo} {entries : List (Bytes × Bytes)}
    (hmem : (no, entries, next) ∈ chain ls stop) : next = stop ∨ next ∈ ls.map Leaf.page := by
  induction ls with
  | nil => cases hmem
  | cons l ls ih =>
      rw [chain_cons, List.mem_cons] at hmem
      rcases hmem with heq | hmem
      · obtain ⟨-, -, rfl⟩ := by simpa using heq
        cases ls with
        | nil => exact .inl rfl
        | cons l' ls => exact .inr (by simp)
      · exact (ih hmem).imp_right (List.mem_cons_of_mem _)

/-- A tree is closed under what its nodes point to. -/
theorem mem_treePages_of_target {T : PageWhole} {no target : PageNo} {node : Node}
    (hmem : (no, some node) ∈ treeDemand T) (htarget : target ∈ node.targets) :
    target ∈ treePages T.2 := by
  rcases Multiset.mem_add.mp hmem with hmem | hmem
  · obtain ⟨⟨no', kids⟩, hinner, heq⟩ := Multiset.mem_map.mp hmem
    obtain ⟨rfl, rfl⟩ := by simpa [branchAt] using heq
    refine mem_treePages_of_inner T.2 hinner ?_
    simpa [Node.targets, InternalNode.children, InternalNode.ofKids, pagesOf, toEntry,
      Function.comp_def] using htarget
  · obtain ⟨⟨no', entries, next⟩, hchain, heq⟩ := List.mem_map.mp (Multiset.mem_coe.mp hmem)
    obtain ⟨rfl, rfl⟩ := by simpa [leafAt] using heq
    rcases next_of_mem_chain hchain with rfl | hnext
    · simp [Node.targets, LeafNode.ofEntries] at htarget
    · refine Multiset.mem_add.mpr (.inr (Multiset.mem_coe.mpr ?_))
      by_cases hzero : next = 0
      · simp [Node.targets, LeafNode.ofEntries, hzero] at htarget
      · obtain rfl : target = next := by
          simpa [Node.targets, LeafNode.ofEntries, hzero] using htarget
        exact hnext

theorem exists_node_of_mem {T : PageWhole} {no : PageNo} (hmem : no ∈ treePages T.2) :
    ∃ node, (no, some node) ∈ treeDemand T := by
  rw [← treeDemand_pages] at hmem
  obtain ⟨⟨no', n⟩, hdemand, rfl⟩ := Multiset.mem_map.mp hmem
  rcases Multiset.mem_add.mp hdemand with hbranch | hleaf
  · obtain ⟨x, -, heq⟩ := Multiset.mem_map.mp hbranch
    obtain ⟨-, rfl⟩ := Prod.mk.inj heq
    exact ⟨_, hdemand⟩
  · obtain ⟨x, -, heq⟩ := List.mem_map.mp (Multiset.mem_coe.mp hleaf)
    obtain ⟨-, rfl⟩ := Prod.mk.inj heq
    exact ⟨_, hdemand⟩

/-! ## The pages of all trees -/

/-- The pages of the tree at each root: what its nodes point to is its own. -/
structure Territory (f : Roots) (st : Store) (pages : PageNo → Set PageNo) : Prop where
  root : ∀ root m, f root = some m → root ∈ pages root
  closed : ∀ root no, no ∈ pages root →
    ∃ node, st.node no = some node ∧ ∀ target ∈ node.targets, target ∈ pages root
  apart : ∀ root root' no, no ∈ pages root → no ∈ pages root' → root = root'

theorem Plants.exists_territory {c : PageNo} {f : Roots} {tidy : Bool} {st : Store}
    (h : Plants c f tidy st) : ∃ pages, Territory f st pages := by
  obtain ⟨_, how, L, X, rfl, hgrove, -⟩ := h
  refine ⟨fun root => {no | ∃ T ∈ L, T.2.page = root ∧ no ∈ treePages T.2}, ?_, ?_, ?_⟩
  · intro root m hroot
    obtain ⟨T, hT, rfl, -⟩ := (hgrove.shows root m).mp hroot
    exact ⟨T, hT, rfl, Multiset.singleton_le.mp (page_le_treePages T.2)⟩
  · rintro root no ⟨T, hT, hpage, hno⟩
    obtain ⟨node, hmem⟩ := exists_node_of_mem hno
    have hdemand : (no, some node) ∈ (L.map treeDemand).sum + X := by
      obtain ⟨L', rfl⟩ := Multiset.exists_cons_of_mem hT
      rw [Multiset.map_cons, Multiset.sum_cons, add_assoc]
      exact Multiset.mem_add.mpr (.inl hmem)
    exact ⟨node, how.node no node hdemand, fun target htarget =>
      ⟨T, hT, hpage, mem_treePages_of_target hmem htarget⟩⟩
  · rintro _ _ no ⟨T, hT, rfl, hno⟩ ⟨T', hT', rfl, hno'⟩
    by_contra hne
    obtain ⟨L', rfl⟩ := Multiset.exists_cons_of_mem hT
    have hT' : T' ∈ L' := (Multiset.mem_cons.mp hT').resolve_left (by rintro rfl; exact hne rfl)
    obtain ⟨L'', rfl⟩ := Multiset.exists_cons_of_mem hT'
    -- the two trees lie beside each other in what the pages are owned for
    have hnodup := how.nodup
    simp only [Multiset.map_cons, Multiset.sum_cons, Multiset.map_add, treeDemand_pages, add_assoc,
      Multiset.nodup_add] at hnodup
    exact Multiset.disjoint_left.mp hnodup.2.2 hno (Multiset.mem_add.mpr (.inl hno'))

/-! ## The pages that a pager reaches -/

/-- The page holds a node that points to the other page. -/
def PointsTo (p : Pager) (no target : PageNo) : Prop :=
  ∃ node, (p.content no).bind Node.decode = some node ∧ target ∈ node.targets

/-- The page is reached from the root. -/
abbrev Reaches (p : Pager) : PageNo → PageNo → Prop := Relation.ReflTransGen (PointsTo p)

theorem content_of_node {p : Pager} {st : Store} (h : Models p st) {no : PageNo} {node : Node}
    (hnode : st.node no = some node) : (p.content no).bind Node.decode = some node := by
  obtain ⟨page, hpage, hdecode⟩ := Option.bind_eq_some_iff.mp hnode
  rw [(h.pages no page hpage).2]
  exact hdecode

theorem Territory.mem_of_reaches {f : Roots} {st : Store} {pages : PageNo → Set PageNo} {p : Pager}
    (h : Territory f st pages) (hmodels : Models p st) {root no : PageNo}
    {m : OrdMap Bytes Bytes} (hroot : f root = some m) (hreaches : Reaches p root no) :
    no ∈ pages root := by
  induction hreaches with
  | refl => exact h.root root m hroot
  | tail _ hpoints ih =>
      obtain ⟨node, hnode, htarget⟩ := hpoints
      obtain ⟨node', hnode', hclosed⟩ := h.closed _ _ ih
      rw [content_of_node hmodels hnode'] at hnode
      exact hclosed _ (Option.some.inj hnode ▸ htarget)

end ChocoBase.BTree

namespace ChocoBase.Engine

open ChocoBase.Foundation ChocoBase.Storage ChocoBase.BTree ChocoBase.Catalog ChocoBase.Sql
  ChocoBase.Types

/-! ## The trees of a database -/

inductive TreeName where
  | catalog
  | table (name : String)
  | index (name : String)

/-- The owner of the tree, or none for the catalog itself. -/
def TreeName.owner : TreeName → Option Owner
  | .catalog => none
  | .table name => some (.record (tableKey name))
  | .index name => some (.record (indexKey name))

theorem TreeName.owner_injective : Function.Injective TreeName.owner := by
  rintro (_ | name | name) (_ | name' | name') heq
  · rfl
  · cases heq
  · cases heq
  · cases heq
  · rw [tableKey_injective (Owner.record.inj (Option.some.inj heq))]
  · exact absurd (Owner.record.inj (Option.some.inj heq)) (tableKey_ne_indexKey name name')
  · cases heq
  · exact absurd (Owner.record.inj (Option.some.inj heq)).symm (tableKey_ne_indexKey name' name)
  · rw [indexKey_injective (Owner.record.inj (Option.some.inj heq))]

/-- The roots that the catalog answers with. -/
inductive RootOf (env : Environment) (d : Database) : TreeName → PageNo → Prop
  | catalog : RootOf env d .catalog d.root
  | table {name : String} {schema : TableSchema} {d' : Database}
      (hrun : (getTable name).run (Database.answer env) d = (.ok (some schema), d')) :
      RootOf env d (.table name) schema.rootPage
  | index {table : String} {indexes : List IndexSchema} {d' : Database} {idx : IndexSchema}
      (hrun : (listIndexesForTable table).run (Database.answer env) d = (.ok indexes, d'))
      (hidx : idx ∈ indexes) : RootOf env d (.index idx.name) idx.rootPage

/--
Every page that is reached from a tree holds a node, is not the header's, lies in the file
and not on the freelist, and is reached from no other tree.
-/
structure PagesApart (env : Environment) (d : Database) (free : List PageNo) : Prop where
  freelist : FreeChain d.pager.content d.pager.header.freelistHead free
  nodup : free.Nodup
  holds : ∀ name root no, RootOf env d name root → Reaches d.pager root no →
    ∃ node, (d.pager.content no).bind Node.decode = some node
  inside : ∀ name root no, RootOf env d name root → Reaches d.pager root no →
    no ≠ 0 ∧ no < d.pager.header.pageCount ∧ no ∉ free
  apart : ∀ name root name' root' no, RootOf env d name root → RootOf env d name' root' →
    Reaches d.pager root no → Reaches d.pager root' no → name = name'

section PagesApart

variable {lib : Library} {env : Environment} {d : Database} {f : Forest} {cat : OrdMap Bytes Bytes}
  {lay : Layout}

theorem RootOf.laid {name : TreeName} {root : PageNo} (h : RootOf env d name root)
    (hd : Describes d f) (hsound : Sound lib ∅ f cat lay) :
    ∃ m, withCatalog f.root cat lay name.owner = some (root, m) := by
  cases h with
  | catalog => exact ⟨cat, by rw [hd.root]; rfl⟩
  | table hrun =>
      obtain ⟨_, -, -, hfound⟩ := Exec.wp_ok (Prog.sure_sound (honours env false) hd
        (hsound.views_getTable _) (along_inspects (only_getRecord _ _) d)) hrun
      rcases hfound with ⟨-, hnone⟩ | ⟨schema, rfl, ht, heq⟩
      · cases hnone
      · obtain rfl := Option.some.inj heq
        exact hsound.tree ht (Set.notMem_empty _)
  | index hrun hidx =>
      have honly (table : String) : (listIndexesForTable table).Only Inspects :=
        .bind (only_listRecords _ _) fun _ => trivial
      have hviews (table : String) : Views f (listIndexesForTable table) (Lists cat table)
          fun _ => True := hsound.views_listIndexes table
      obtain ⟨_, -, -, hlists⟩ := Exec.wp_ok (Prog.sure_sound (honours env false) hd (hviews _)
        (along_inspects (honly _) d)) hrun
      exact hsound.indexTree ((hlists.mem _).mp hidx).1 (Set.notMem_empty _)

theorem Describes.pagesApart (hd : Describes d f) (hsound : Sound lib ∅ f cat lay) :
    ∃ free, PagesApart env d free := by
  obtain ⟨base, start, active, st, hholds, hplants, -, -⟩ := hd.pager
  have hmodels := hholds.models
  obtain ⟨pages, hterritory⟩ := hplants.exists_territory
  have hmem {name : TreeName} {root no : PageNo} (hroot : RootOf env d name root)
      (hreaches : Reaches d.pager root no) : no ∈ pages root := by
    obtain ⟨m, hlaid⟩ := hroot.laid hd hsound
    exact hterritory.mem_of_reaches hmodels (hsound.laid.planted _ _ _ hlaid).1 hreaches
  have hnode {name : TreeName} {root no : PageNo} (hroot : RootOf env d name root)
      (hreaches : Reaches d.pager root no) : ∃ node, st.node no = some node := by
    obtain ⟨node, hnode, -⟩ := hterritory.closed _ _ (hmem hroot hreaches)
    exact ⟨node, hnode⟩
  refine ⟨st.free, hmodels.chain, hmodels.free_nodup, ?_, ?_, ?_⟩
  · intro name root no hroot hreaches
    obtain ⟨node, hnode⟩ := hnode hroot hreaches
    exact ⟨node, content_of_node hmodels hnode⟩
  · intro name root no hroot hreaches
    obtain ⟨node, hnode⟩ := hnode hroot hreaches
    have hused : st.page no ≠ none := fun hnone => by simp [Store.node, hnone] at hnode
    refine ⟨?_, ?_, fun hfree => hused (hmodels.free_unused no hfree)⟩
    · rintro rfl
      exact hused hmodels.wf.zero.1
    · rw [hmodels.count]
      exact hmodels.wf.bound no (.inl hused)
  · intro name root name' root' no hroot hroot' hreaches hreaches'
    obtain rfl := hterritory.apart _ _ no (hmem hroot hreaches) (hmem hroot' hreaches')
    obtain ⟨m, hlaid⟩ := hroot.laid hd hsound
    obtain ⟨m', hlaid'⟩ := hroot'.laid hd hsound
    exact TreeName.owner_injective (hsound.laid.apart _ _ _ _ _ hlaid hlaid')

end PagesApart

/-! ## Over every history -/

end ChocoBase.Engine
