import ChocoBase.BTree.Growth
import ChocoBase.BTree.Scan

/-!
# Inserting

An insertion puts one entry where its key belongs and splits the nodes that
overflow.  The tree then stands for the old map with the new entry.
-/

namespace ChocoBase.BTree

open ChocoBase.Foundation ChocoBase.Storage
open SearchTree hiding entries leaves
open Exec (Post)

/-- The leaf with one more entry. -/
def LeafNode.insertEntry (node : LeafNode) (key payload : Bytes) : LeafNode :=
  { node with
    entries := node.entries.insertIdx (partitionPoint node.entries key) { key, payload } }

/--
Whether inserting the entry splits an internal node that holds at most one
separator: the leaf overflows, and so do the nodes above it up to that one.
-/
def InsertSplitsThin (node : PageNo → Option Node) (root : PageNo) (key payload : Bytes) : Prop :=
  ∃ up leafNo leaf, Descent node key root up leafNo leaf ∧
    let grown := leaf.insertEntry key payload
    pageSize < grown.encodedSize ∧
      ∃ first, (grown.entries.drop (grown.entries.length / 2)).head? = some first ∧
        splitsThin up leafNo first.key

section Insert

variable {c : PageNo} {F : Demand} {T : PageWhole} {root : PageNo} {st : Store}
  {ctx : PageCtx 0} {l : PageLeaf} {key payload : Bytes}

/-- A tree with an open leaf: everything but the leaf itself. -/
def aroundLeaf (ctx : PageCtx 0) (no : PageNo) : Demand :=
  branches (ctx.inner no) + (chainOf ctx.before no + chainOf ctx.after 0)

theorem treeDemand_plug_leaf (ctx : PageCtx 0) (l : PageLeaf) :
    treeDemand (ctx.plug (.ofLeaf l)) =
      leafAt (l.page, l.entries, firstPage (SearchTree.leaves ctx.after) 0) ::ₘ
        aroundLeaf ctx l.page := by
  simp [treeDemand, aroundLeaf, Ctx.inner_plug, Ctx.tokens_plug]

/-- The entries of a leaf with one more at its place. -/
def withEntry (es : List (Bytes × Bytes)) (key payload : Bytes) : List (Bytes × Bytes) :=
  es.takeWhile (fun e => e.1 < key) ++ (key, payload) :: es.dropWhile fun e => e.1 < key

theorem insertEntry_eq (es : List (Bytes × Bytes)) (next : PageNo) :
    (LeafNode.ofEntries es next).insertEntry key payload =
      .ofEntries (withEntry es key payload) next := by
  have hsplit : es.map toLeafEntry = (es.takeWhile fun e => e.1 < key).map toLeafEntry ++
      (es.dropWhile fun e => e.1 < key).map toLeafEntry := by
    rw [← List.map_append, List.takeWhile_append_dropWhile]
  have hinsert : (es.map toLeafEntry).insertIdx (partitionPoint (es.map toLeafEntry) key)
      { key, payload } = (withEntry es key payload).map toLeafEntry := by
    rw [partitionPoint_eq]
    conv_lhs => arg 1; rw [hsplit]
    rw [insertIdx_append (by simp)]
    simp [withEntry, toLeafEntry]
  simp only [LeafNode.insertEntry, LeafNode.ofEntries, hinsert]

/-- An absent key cuts the leaf in two. -/
theorem cut_leaf (hsorted : Sorted (ctx.plug (.ofLeaf l)).2.tokens)
    (hroutes : Routes key ctx.before ctx.after) (habsent : (toMap _ hsorted).get key = none)
    (payload : Bytes) :
    ∃ xs ys, l.entries = xs ++ ys ∧ withEntry l.entries key payload = xs ++ (key, payload) :: ys ∧
      (∀ e ∈ xs, e.1 < key) ∧ ∀ e ∈ ys, key < e.1 := by
  have hleaf : l.entries.Pairwise fun e e' => e.1 < e'.1 := (leafMap hsorted).sorted
  have hp (e : Bytes × Bytes) : decide (e.1 < key) = true ↔ e.1 < key := by simp
  refine ⟨_, _, List.takeWhile_append_dropWhile.symm, rfl, fun e he => ?_, fun e he => ?_⟩
  · rw [OrdMap.takeWhile_lt hleaf hp] at he
    simpa using (List.mem_filter.mp he).2
  · rw [OrdMap.dropWhile_lt hleaf hp] at he
    obtain ⟨he, hle⟩ := List.mem_filter.mp he
    refine lt_of_le_of_ne (by simpa using hle) fun heq => ?_
    rw [← get_leafMap hsorted hroutes] at habsent
    exact OrdMap.get_eq_none.mp habsent e.2 (heq ▸ he)

/-- One more entry in the open leaf keeps the order. -/
theorem sorted_withEntry (payload : Bytes) (hsorted : Sorted (ctx.plug (.ofLeaf l)).2.tokens)
    (hroutes : Routes key ctx.before ctx.after) (habsent : (toMap _ hsorted).get key = none)
    (no : PageNo) :
    Sorted (ctx.before ++ [.leaf ⟨no, withEntry l.entries key payload⟩] ++ ctx.after) := by
  obtain ⟨xs, ys, hcut, hwith, hxs, hys⟩ := cut_leaf hsorted hroutes habsent payload
  have hold : ((marks ctx.before ++ xs.map fun e => Mark.entry e.1) ++
      ((ys.map fun e => Mark.entry e.1) ++ marks ctx.after)).Pairwise (· < ·) := by
    have h : (marks (ctx.plug (.ofLeaf l)).2.tokens).Pairwise (· < ·) := hsorted
    simpa [Ctx.tokens_plug, hcut] using h
  have hnew := pairwise_insert (m := Mark.entry key) hold (fun x hx => ?_) fun x hx => ?_
  · simpa [Sorted, hwith] using hnew
  · cases List.mem_append.mp hx with
    | inl hx => exact hroutes.before_lt x hx
    | inr hx =>
        obtain ⟨e, he, rfl⟩ := List.mem_map.mp hx
        exact Mark.entry_lt_entry.mpr (hxs e he)
  · cases List.mem_append.mp hx with
    | inl hx =>
        obtain ⟨e, he, rfl⟩ := List.mem_map.mp hx
        exact Mark.entry_lt_entry.mpr (hys e he)
    | inr hx => exact hroutes.lt_after x hx

/-- The entries with one more in the open leaf are those of the map with one more. -/
theorem entries_withEntry (hsorted : Sorted (ctx.plug (.ofLeaf l)).2.tokens)
    (hroutes : Routes key ctx.before ctx.after) (habsent : (toMap _ hsorted).get key = none)
    {ts : List PageToken} (hts : Sorted ts)
    (hentries : SearchTree.entries ts = SearchTree.entries ctx.before ++
      withEntry l.entries key payload ++ SearchTree.entries ctx.after) :
    toMap ts hts = (toMap _ hsorted).insert key payload := by
  obtain ⟨xs, ys, hcut, hwith, -, -⟩ := cut_leaf hsorted hroutes habsent payload
  refine OrdMap.ext_mem fun e => ?_
  have hne (hmem : e ∈ toMap _ hsorted) : e.1 ≠ key := fun heq =>
    OrdMap.get_eq_none.mp habsent e.2 (heq ▸ hmem)
  have hold : e ∈ toMap _ hsorted ↔ e ∈ SearchTree.entries ctx.before ∨ e ∈ xs ∨ e ∈ ys ∨
      e ∈ SearchTree.entries ctx.after := by
    simp [mem_toMap, Ctx.tokens_plug, hcut]
  have hnew : e ∈ toMap ts hts ↔ e ∈ SearchTree.entries ctx.before ∨ e ∈ xs ∨
      e = (key, payload) ∨ e ∈ ys ∨ e ∈ SearchTree.entries ctx.after := by
    simp [mem_toMap, hentries, hwith]
  rw [OrdMap.mem_insert, and_iff_left_of_imp hne, hold, hnew]
  constructor
  · rintro (h | h | h | h) <;> simp [h]
  · rintro (h | h | h | h) <;> simp [h]

/-- A leaf with one entry has room for it. -/
theorem two_le_length (hfits : singleEntrySize key payload ≤ pageSize) {es : List (Bytes × Bytes)}
    {next : PageNo}
    (hbig : pageSize < (LeafNode.ofEntries (withEntry es key payload) next).encodedSize) :
    2 ≤ (withEntry es key payload).length := by
  by_contra hlt
  have hnil : es.takeWhile (fun e => e.1 < key) = [] ∧ es.dropWhile (fun e => e.1 < key) = [] := by
    simp only [withEntry, List.length_append, List.length_cons] at hlt
    exact ⟨List.eq_nil_of_length_eq_zero (by omega), List.eq_nil_of_length_eq_zero (by omega)⟩
  have hone : withEntry es key payload = [(key, payload)] := by
    rw [withEntry, hnil.1, hnil.2, List.nil_append]
  rw [hone] at hbig
  simp [LeafNode.encodedSize, LeafNode.ofEntries, toLeafEntry, LeafEntry.cellLen,
    singleEntrySize] at hbig hfits
  omega

/-- A leaf with more than one entry is cut before one of them. -/
theorem halves {es : List (Bytes × Bytes)} (hlen : 2 ≤ es.length) :
    ∃ xs a b ys, es.take (es.length / 2) = xs ++ [a] ∧ es.drop (es.length / 2) = b :: ys := by
  have htake : es.take (es.length / 2) ≠ [] := by
    intro heq
    have h := congrArg List.length heq
    simp only [List.length_take, List.length_nil] at h
    omega
  have hdrop : es.drop (es.length / 2) ≠ [] := by
    intro heq
    have h := congrArg List.length heq
    simp only [List.length_drop, List.length_nil] at h
    omega
  obtain ⟨b, ys, hb⟩ := List.exists_cons_of_ne_nil hdrop
  exact ⟨_, _, b, ys, (List.dropLast_append_getLast htake).symm, hb⟩

theorem run_splitLeaf {es : List (Bytes × Bytes)} (hlen : 2 ≤ es.length)
    (how : Owns c (treeDemand (ctx.plug (.ofLeaf l)) + F) st)
    (hroot : (ctx.plug (.ofLeaf l)).2.page = root)
    (hsorted : Sorted (ctx.before ++ [.leaf ⟨l.page, es⟩] ++ ctx.after)) :
    Run (splitLeaf root ctx.path l.page
        (.ofEntries es (firstPage (SearchTree.leaves ctx.after) 0)))
      (Ends fun root' st' => ∃ T', Represents c F T' root' st' ∧
        SearchTree.entries T'.2.tokens =
          SearchTree.entries ctx.before ++ es ++ SearchTree.entries ctx.after ∧
        ((∀ first, (es.drop (es.length / 2)).head? = some first →
          ¬splitsThin (trail ctx l.page) l.page first.1) → ctx.Proper → T'.2.Proper)) st := by
  obtain ⟨xs, a, b, ys, htake, hdrop⟩ := halves hlen
  have hes : es = xs ++ [a] ++ b :: ys := by
    rw [← htake, ← hdrop, List.take_append_drop]
  rw [treeDemand_plug_leaf, Multiset.cons_add] at how
  have hlength : (LeafNode.ofEntries es (firstPage (SearchTree.leaves ctx.after) 0)).entries.length
      = es.length := by simp [LeafNode.ofEntries]
  have hhead : ((LeafNode.ofEntries es (firstPage (SearchTree.leaves ctx.after) 0)).entries.drop
      (es.length / 2)).head? = some (toLeafEntry b) := by
    simp [LeafNode.ofEntries, ← List.map_drop, hdrop]
  unfold splitLeaf
  rw [hlength]
  refine .step (run_allocatePage how fun new st₁ h₁ => ?_)
  refine .step (run_unwrap hhead ?_)
  refine .step (run_encodeInto h₁.second fun st₂ h₂ => ?_)
  refine .step (run_encodeInto h₂.second fun st₃ h₃ => ?_)
  let L : PageLeaf := ⟨l.page, xs ++ [a]⟩
  let R : PageLeaf := ⟨new, b :: ys⟩
  refine Run.mono (run_insertIntoParent (c := c) (F := F) ctx (.ofLeaf L) (.ofLeaf R) b.1 ?_ ?_) ?_
  · rw [← hroot]
    exact ctx.page_plug_congr rfl
  · refine h₃.second.of_eq ?_
    simp only [LeafNode.ofEntries, ← List.map_take, ← List.map_drop, htake, hdrop]
    simp [aroundLeaf, L, R, leafAt, LeafNode.ofEntries]
  · rintro root' st' ⟨T', hstands, htokens, hproper⟩
    refine ⟨T', ⟨hstands, ?_⟩, ?_, fun hthin hctx => ?_⟩
    · have hmarks : (marks ctx.before ++ xs.map (fun e => Mark.entry e.1)) ++
          Mark.entry a.1 :: Mark.entry b.1 :: (ys.map (fun e => Mark.entry e.1) ++
            marks ctx.after) |>.Pairwise (· < ·) := by
        simpa [Sorted, hes] using hsorted
      have hsep := pairwise_separate hmarks
      simpa [Sorted, htokens, L, R] using hsep
    · simp [htokens, hes, L, R]
    · exact hproper (hthin b (by rw [hdrop]; rfl)) hctx trivial trivial

/-- A key is in the tree if it is in the leaf it leads to. -/
theorem present_iff (hsorted : Sorted T.2.tokens) (hleads : Leads key root T st ctx l) :
    (toMap _ hsorted).get key ≠ none ↔
      ((storedLeaf ctx l).entries.any fun e => e.key = key) = true := by
  obtain ⟨rfl, hroutes, -⟩ := hleads
  rw [ne_eq, OrdMap.get_eq_none]
  simp only [mem_toMap, mem_leaf_iff hroutes, not_forall, not_not, List.any_eq_true,
    decide_eq_true_eq]
  constructor
  · rintro ⟨v, hv⟩
    exact ⟨toLeafEntry (key, v), List.mem_map_of_mem hv, rfl⟩
  · rintro ⟨e, he, rfl⟩
    obtain ⟨x, hx, rfl⟩ := List.mem_map.mp he
    exact ⟨x.2, hx⟩

/-- What an insertion that succeeds leaves behind. -/
structure Inserted (c : PageNo) (F : Demand) (T : PageWhole) (root : PageNo) (st : Store)
    (h : Sorted T.2.tokens) (key payload : Bytes) (root' : PageNo) (st' : Store) (T' : PageWhole) :
    Prop where
  represents : Represents c F T' root' st'
  toMap_eq : toMap _ represents.sorted = (toMap _ h).insert key payload
  proper : ¬InsertSplitsThin st.node root key payload → T.2.Proper → T'.2.Proper

theorem run_insertLeaf (hT : Represents c F T root st) (hleads : Leads key root T st ctx l)
    (hfits : singleEntrySize key payload ≤ pageSize)
    (habsent : (toMap _ hT.sorted).get key = none) :
    Run (let node := (storedLeaf ctx l).insertEntry key payload
        if node.encodedSize ≤ pageSize then do
          encodeInto l.page (.leaf node)
          return root
        else splitLeaf root ctx.path l.page node)
      (Ends fun root' st' => ∃ T', Inserted c F T root st hT.sorted key payload root' st' T') st := by
  obtain ⟨rfl, hroutes, hdescent⟩ := hleads
  have hsorted := sorted_withEntry payload hT.sorted hroutes habsent l.page
  have hentries := @entries_withEntry _ _ key payload hT.sorted hroutes habsent
  have hnode : (storedLeaf ctx l).insertEntry key payload = .ofEntries
      (withEntry l.entries key payload) (firstPage (SearchTree.leaves ctx.after) 0) :=
    insertEntry_eq _ _
  rw [hnode]
  dsimp only
  split
  next =>
    have how := hT.owns
    rw [treeDemand_plug_leaf, Multiset.cons_add] at how
    refine .step (run_encodeInto how fun st' h' => ?_)
    let T' := ctx.plug (.ofLeaf ⟨l.page, withEntry l.entries key payload⟩)
    have hsorted' : Sorted T'.2.tokens := by
      rw [Ctx.tokens_plug]
      exact hsorted
    refine ⟨T', ⟨⟨⟨?_, ?_⟩, hsorted'⟩, hentries _ ?_, fun _ hproper => ?_⟩⟩
    · rw [← hT.page]
      exact ctx.page_plug_congr rfl
    · rw [treeDemand_plug_leaf, Multiset.cons_add]
      exact h'
    · simp [T', Ctx.tokens_plug]
    · exact Ctx.proper_plug (Ctx.proper_of_plug hproper).1 trivial
  next hbig =>
    have hlen := two_le_length hfits (Nat.lt_of_not_le hbig)
    refine Run.mono (run_splitLeaf hlen hT.owns hT.page hsorted) ?_
    rintro root' st' ⟨T', hT', hentries', hproper'⟩
    refine ⟨T', ⟨hT', hentries _ hentries', fun hthin hproper => ?_⟩⟩
    refine hproper' (fun first hfirst hsplits => hthin ⟨_, _, _, hdescent, ?_⟩)
      (Ctx.proper_of_plug hproper).1
    rw [hnode]
    refine ⟨Nat.lt_of_not_le hbig, toLeafEntry first, ?_, hsplits⟩
    simp only [LeafNode.ofEntries, List.length_map, ← List.map_drop, List.head?_map, hfirst,
      Option.map_some]

/--
An insertion refuses entries that no page has room for and keys that are present,
and otherwise adds the entry, unless the page numbers run out.
-/
theorem run_insert (hT : Represents c F T root st) {Q : Post Store BTreeError PageNo}
    (hlarge : pageSize < singleEntrySize key payload →
      Q.error (.rowTooLarge (singleEntrySize key payload) pageSize) st)
    (hdup : singleEntrySize key payload ≤ pageSize → (toMap _ hT.sorted).get key ≠ none →
      Q.error .duplicateKey st)
    (hok : singleEntrySize key payload ≤ pageSize → (toMap _ hT.sorted).get key = none →
      ∀ T' root' st', Inserted c F T root st hT.sorted key payload root' st' T' → Q.ok root' st')
    (hstop : ∀ st', st'.allocate = none → Q.stop .overflow st') :
    Run (insert root key payload) Q st := by
  unfold insert
  split
  next hbig => exact hlarge hbig
  next hbig =>
    have hfits : singleEntrySize key payload ≤ pageSize := by omega
    let P := fun (x : List PageNo × PageNo) st' =>
      st' = st ∧ ∃ ctx l, x = (ctx.path, l.page) ∧ Leads key root T st ctx l
    refine .seq (P := P) (run_descend hT key fun ctx l h => ⟨rfl, ctx, l, rfl, h⟩) ?_ hstop
    rintro _ _ ⟨rfl, ctx, l, rfl, hleads⟩
    have hmem := @leafAt_mem ctx l F
    rw [hleads.plug] at hmem
    refine .step (run_readLeaf hT.owns hmem ?_)
    have hget := present_iff hT.sorted hleads
    dsimp only [Post.withOk_ok]
    split
    next hany => exact hdup hfits (hget.mpr hany)
    next hany =>
      have habsent : (toMap _ hT.sorted).get key = none := by
        by_contra hne
        exact hany (hget.mp hne)
      exact Prog.wp_mono (run_insertLeaf hT hleads hfits habsent)
        (fun root' st' ⟨T', h'⟩ => hok hfits habsent T' root' st' h') (fun _ _ h => h.elim)
        fun _ st' h => h.1 ▸ hstop st' h.2

end Insert

end ChocoBase.BTree
