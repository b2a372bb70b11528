import ChocoBase.BTree.Steps
import ChocoBase.Foundation.OrdMap

/-!
# Looking up keys

Descending from the root ends at the leaf where the key belongs, and the chain of
leaves from there on holds the entries from the key on, in order.
-/

namespace ChocoBase.BTree

open ChocoBase.Foundation ChocoBase.Storage
open SearchTree hiding entries leaves
open Exec (Post)

/-- A tree at the page `root`, with the rest of the demand kept. -/
structure Stands (c : PageNo) (F : Demand) (T : PageWhole) (root : PageNo) (st : Store) :
    Prop where
  page : T.2.page = root
  owns : Owns c (treeDemand T + F) st

/-- A tree at the page `root` with its keys in order. -/
structure Represents (c : PageNo) (F : Demand) (T : PageWhole) (root : PageNo) (st : Store) :
    Prop extends Stands c F T root st where
  sorted : Sorted T.2.tokens

/-! ## The height is bounded by the number of pages -/

private theorem height_lt_card {h : Nat} (t : PageTree h) : h < (treePages t).card := by
  induction h with
  | zero =>
      obtain ⟨l, hl⟩ := t.exists_ofLeaf
      rw [hl]
      simp [treePages]
  | succ h ih =>
      obtain ⟨no, kids, ht⟩ := t.exists_branch
      have hsum : treePages (Tree.branch no kids) = no ::ₘ kids.sum treePages := by
        rw [sum_treePages, treePages, Tree.inner_branch, Tree.tokens_branch, Multiset.map_cons,
          Multiset.cons_add]
      have hlast := ih kids.last
      rw [ht, hsum, Multiset.card_cons, Kids.sum, Multiset.card_add]
      omega

private theorem card_le_maxPages {pages : Multiset PageNo} (h : pages.Nodup) :
    pages.card ≤ maxPages := by
  have hnodup : (pages.map UInt32.toNat).Nodup :=
    h.map fun _ _ heq => UInt32.toNat_inj.mp heq
  have hle : pages.map UInt32.toNat ≤ Multiset.range maxPages := by
    refine (Multiset.le_iff_subset hnodup).mpr fun n hn => ?_
    obtain ⟨no, -, rfl⟩ := Multiset.mem_map.mp hn
    exact Multiset.mem_range.mpr no.toNat_lt
  simpa using Multiset.card_le_card hle

theorem treeDemand_pages (T : PageWhole) : (treeDemand T).map Prod.fst = treePages T.2 := by
  simp only [treeDemand, treePages, Multiset.map_add, branches_pages, chainOf_pages]

section Lookup

variable {c : PageNo} {F : Demand} {T : PageWhole} {root : PageNo} {st : Store}

theorem Owns.card_le (how : Owns c (treeDemand T + F) st) : (treePages T.2).card ≤ maxPages := by
  refine card_le_maxPages ?_
  rw [← treeDemand_pages]
  exact Multiset.nodup_of_le (Multiset.map_le_map (Multiset.le_add_right _ _)) how.nodup

theorem Owns.height_lt (how : Owns c (treeDemand T + F) st) : T.1 < maxPages :=
  (height_lt_card T.2).trans_le how.card_le

/-! ## Descending -/

theorem childForKey_eq {h : Nat} (kids : Kids Bytes (PageTree h)) (key : Bytes) :
    (InternalNode.ofKids (kids.map Tree.page)).childForKey key = (kids.childFor key).page := by
  have hfind : (InternalNode.ofKids (kids.map Tree.page)).entries.find? (fun e => key < e.key) =
      (kids.separatorAbove key).map fun x => toEntry (x.1.page, x.2) := by
    simp only [InternalNode.ofKids, Kids.map, List.find?_map, List.map_map]
    -- the two sides decide the same order by different instances
    refine congrArg _ (congrArg (List.find? · kids.front) (funext fun x => ?_))
    exact decide_eq_decide.mpr Iff.rfl
  unfold InternalNode.childForKey Kids.childFor
  rw [hfind]
  cases kids.separatorAbove key with
  | none => simp [InternalNode.ofKids, Kids.map]
  | some x => simp [toEntry]

/-- The leaf of an open tree is on its page. -/
theorem leafAt_mem {ctx : PageCtx 0} {l : PageLeaf} (D : Demand) :
    leafAt (l.page, l.entries, firstPage (SearchTree.leaves ctx.after) 0) ∈
      treeDemand (ctx.plug (.ofLeaf l)) + D := by
  simp [treeDemand, Ctx.tokens_plug, Ctx.inner_plug]

theorem branchAt_mem {h : Nat} {ctx : PageCtx (h + 1)} {p : PageNo}
    {kids : Kids Bytes (PageTree h)} (D : Demand) :
    branchAt (p, kids.map Tree.page) ∈ treeDemand (ctx.plug (.branch p kids)) + D := by
  simp [treeDemand_plug]

/-- The internal nodes above the missing subtree, nearest first. -/
def trail : {h : Nat} → PageCtx h → PageNo → List (PageNo × InternalNode)
  | _, .top, _ => []
  | _, .under no frame up, hole =>
      (no, .ofKids ((frame.map Tree.page).fill hole)) :: trail up no

/-- The nodes a key leads to: the internal nodes, nearest to the leaf first, and the leaf. -/
inductive Descent (node : PageNo → Option Node) (key : Bytes) :
    PageNo → List (PageNo × InternalNode) → PageNo → LeafNode → Prop where
  | leaf {no leaf} (hleaf : node no = some (.leaf leaf)) : Descent node key no [] no leaf
  | internal {no n up leafNo leaf} (hnode : node no = some (.internal n))
      (hrest : Descent node key (n.childForKey key) up leafNo leaf) :
      Descent node key no (up ++ [(no, n)]) leafNo leaf

/-- The leaf of a tree with an open path, as it is stored. -/
def storedLeaf (ctx : PageCtx 0) (l : PageLeaf) : LeafNode :=
  .ofEntries l.entries (firstPage (SearchTree.leaves ctx.after) 0)

/-- Where a key leads: an open path to a leaf. -/
structure Leads (key : Bytes) (root : PageNo) (T : PageWhole) (st : Store) (ctx : PageCtx 0)
    (l : PageLeaf) : Prop where
  plug : ctx.plug (.ofLeaf l) = T
  routes : Routes key ctx.before ctx.after
  descent : Descent st.node key root (trail ctx l.page) l.page (storedLeaf ctx l)

theorem run_descendLoop {h : Nat} (t : PageTree h) (ctx : PageCtx h) (key : Bytes) {fuel : Nat}
    (hfuel : h < fuel) (how : Owns c (treeDemand (ctx.plug t) + F) st)
    (hsorted : Sorted (ctx.plug t).2.tokens) (hroutes : Routes key ctx.before ctx.after)
    {Q : Post Store BTreeError (List PageNo × PageNo)}
    (hok : ∀ ctx' l up, ctx'.plug (.ofLeaf l) = ctx.plug t → Routes key ctx'.before ctx'.after →
      trail ctx' l.page = up ++ trail ctx t.page →
      Descent st.node key t.page up l.page (storedLeaf ctx' l) → Q.ok (ctx'.path, l.page) st) :
    Run (descendLoop key fuel ctx.path t.page) Q st := by
  induction h generalizing fuel with
  | zero =>
      obtain ⟨l, ht⟩ := t.exists_ofLeaf
      obtain ⟨fuel, rfl⟩ : ∃ n, fuel = n + 1 := ⟨fuel - 1, by omega⟩
      rw [ht] at how hok ⊢
      refine .step (run_getPage how (leafAt_mem F) fun page hpage => ?_)
      obtain ⟨htype, -⟩ := Node.decode_eq_leaf.mp hpage
      simp only [Post.withOk_ok, if_pos htype]
      exact hok ctx l [] rfl hroutes rfl (.leaf (how.node _ _ (leafAt_mem F)))
  | succ h ih =>
      obtain ⟨p, kids, ht⟩ := t.exists_branch
      obtain ⟨fuel, rfl⟩ : ∃ n, fuel = n + 1 := ⟨fuel - 1, by omega⟩
      rw [ht] at how hok hsorted ⊢
      obtain ⟨fr, hkids, hadmits⟩ := kids.exists_frame key
      refine .step (run_getPage how (branchAt_mem F) fun page hpage => ?_)
      obtain ⟨htype, hdecode⟩ := Node.decode_eq_internal.mp hpage
      have hleaf : page.pageType ≠ pageTypeLeaf := by
        rw [htype]
        decide
      simp only [Post.withOk_ok, if_neg hleaf, if_pos htype]
      refine .step (run_unwrap hdecode ?_)
      dsimp only [Post.withOk_ok]
      rw [childForKey_eq]
      have hplug : (Ctx.under p fr ctx).plug (kids.childFor key) =
          ctx.plug (.branch p kids) := by
        rw [Ctx.plug, ← hkids]
      refine ih (kids.childFor key) (.under p fr ctx) (by omega) (by rwa [hplug])
        (by rwa [hplug]) ?_ fun ctx' l up hplug' hroutes' htrail hdescent => ?_
      · rw [Ctx.tokens_plug, Tree.tokens_branch, hkids] at hsorted
        exact hroutes.under hadmits hsorted
      · refine hok ctx' l (up ++ [(p, .ofKids (kids.map Tree.page))]) (hplug'.trans hplug)
          hroutes' ?_ (.internal (how.node _ _ (branchAt_mem F)) ?_)
        · rw [htrail, trail, ← Frame.fill_map, ← hkids, List.append_assoc]
          rfl
        · rwa [childForKey_eq]

theorem run_descend (hT : Represents c F T root st) (key : Bytes)
    {Q : Post Store BTreeError (List PageNo × PageNo)}
    (hok : ∀ ctx l, Leads key root T st ctx l → Q.ok (ctx.path, l.page) st) :
    Run (descend root key) Q st := by
  obtain rfl := hT.page
  refine run_descendLoop T.2 .top key hT.owns.height_lt hT.owns hT.sorted (.nil key)
    fun ctx l up hplug hroutes htrail hdescent => hok ctx l ⟨hplug, hroutes, ?_⟩
  rw [htrail]
  simpa [trail] using hdescent

/-! ## Searching -/

/-- The map a sorted list of tokens stands for. -/
def toMap (ts : List PageToken) (h : Sorted ts) : OrdMap Bytes Bytes := ⟨SearchTree.entries ts, h.entries⟩

theorem mem_toMap {ts : List PageToken} {h : Sorted ts} {e : Bytes × Bytes} :
    e ∈ toMap ts h ↔ e ∈ SearchTree.entries ts := Iff.rfl

/-- Entries on the way to a key are not entries of that key. -/
theorem entries_lt_of_routes {key : Bytes} {before after : List PageToken}
    (h : Routes key before after) :
    (∀ e ∈ SearchTree.entries before, e.1 < key) ∧
      ∀ e ∈ SearchTree.entries after, key < e.1 := by
  constructor
  · exact fun e he => Mark.entry_lt_entry.mp (h.before_lt _
      ((entries_map_marks before).subset (List.mem_map_of_mem he)))
  · exact fun e he => Mark.entry_lt_entry.mp (h.lt_after _
      ((entries_map_marks after).subset (List.mem_map_of_mem he)))

/-- The entry of a key is in the leaf where the key belongs. -/
theorem mem_leaf_iff {key value : Bytes} {ctx : PageCtx 0} {l : PageLeaf}
    (hroutes : Routes key ctx.before ctx.after) :
    (key, value) ∈ SearchTree.entries (ctx.plug (.ofLeaf l)).2.tokens ↔
      (key, value) ∈ l.entries := by
  have hbefore : (key, value) ∉ SearchTree.entries ctx.before := fun hmem =>
    ((entries_lt_of_routes hroutes).1 _ hmem).ne rfl
  have hafter : (key, value) ∉ SearchTree.entries ctx.after := fun hmem =>
    ((entries_lt_of_routes hroutes).2 _ hmem).ne rfl
  simp [Ctx.tokens_plug, hbefore, hafter]

/-- The map of one leaf. -/
def leafMap {ctx : PageCtx 0} {l : PageLeaf} (h : Sorted (ctx.plug (.ofLeaf l)).2.tokens) :
    OrdMap Bytes Bytes where
  entries := l.entries
  sorted := by
    refine h.entries.sublist ?_
    rw [Ctx.tokens_plug, entries_append, entries_append]
    simp

theorem get_leafMap {key : Bytes} {ctx : PageCtx 0} {l : PageLeaf}
    (h : Sorted (ctx.plug (.ofLeaf l)).2.tokens) (hroutes : Routes key ctx.before ctx.after) :
    (leafMap h).get key = (toMap _ h).get key := by
  ext value
  rw [OrdMap.get_eq_some, OrdMap.get_eq_some, mem_toMap, mem_leaf_iff hroutes]
  rfl

theorem run_search (hT : Represents c F T root st) (key : Bytes)
    {Q : Post Store BTreeError (Option Bytes)} (hok : Q.ok ((toMap _ hT.sorted).get key) st) :
    Run (search root key) Q st := by
  refine .step (run_descend hT key fun ctx l hleads => ?_)
  obtain ⟨rfl, hroutes, -⟩ := hleads
  refine .step (run_readLeaf hT.owns (leafAt_mem F) ?_)
  have hget : ((LeafNode.ofEntries l.entries (firstPage (SearchTree.leaves ctx.after) 0)).entries.find?
      fun e => e.key = key).map LeafEntry.payload = (leafMap hT.sorted).get key := by
    simp only [LeafNode.ofEntries, List.find?_map, Option.map_map, OrdMap.get, leafMap]
    refine congrArg _ (congrArg (List.find? · l.entries) (funext fun e => ?_))
    exact decide_eq_decide.mpr Iff.rfl
  change Q.ok (Option.map _ _) st
  rw [hget, get_leafMap hT.sorted hroutes]
  exact hok

end Lookup

end ChocoBase.BTree
