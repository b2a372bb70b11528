import ChocoBase.BTree.Insert
import ChocoBase.BTree.Rebalance

/-!
# Deleting

A deletion takes one entry out of its leaf and rebalances.  The tree then stands
for the old map without that entry.
-/

namespace ChocoBase.BTree

open ChocoBase.Foundation ChocoBase.Storage
open SearchTree hiding entries leaves
open Exec (Post)

/-- A tree with the same entries, now at `root'`. -/
structure Rearranged (c : PageNo) (F : Demand) (T : PageWhole) (proper : Prop) (root' : PageNo)
    (st' : Store) (T' : PageWhole) : Prop where
  represents : Represents c (leftOver T.2.page root' + F) T' root' st'
  entries : SearchTree.entries T'.2.tokens = SearchTree.entries T.2.tokens
  proper : proper → T'.2.Proper

theorem Represents.stay {c : PageNo} {F : Demand} {T T' : PageWhole} {root : PageNo} {st' : Store}
    (h : Represents c F T' root st') (hT : T.2.page = root) :
    Represents c (leftOver T.2.page root + F) T' root st' :=
  ⟨h.toStands.stay hT, h.sorted⟩

/-! ## Pairs of leaves -/

section Leaves

variable {c : PageNo} {F : Demand} {st : Store} {root : PageNo} {up : PageCtx 1} {p : PageNo}
  {fr : Frame Bytes (PageTree 0)} {s : Bytes} {la lb : PageLeaf}

/-- What stays when the two leaves of a pair exchange entries. -/
def besideLeaves (up : PageCtx 1) (p : PageNo) (fr : Frame Bytes (PageTree 0)) (pa : PageNo) :
    Demand :=
  beside up p fr + (chainOf (Ctx.under p fr up).before pa + chainOf (Ctx.under p fr up).after 0)

def nextOf (up : PageCtx 1) (p : PageNo) (fr : Frame Bytes (PageTree 0)) : PageNo :=
  firstPage (SearchTree.leaves (Ctx.under p fr up).after) 0

theorem leafPair (up : PageCtx 1) (p : PageNo) (fr : Frame Bytes (PageTree 0)) (la : PageLeaf)
    (s : Bytes) (lb : PageLeaf) (F : Demand) :
    treeDemand (pairAt up p fr (.ofLeaf la) s (.ofLeaf lb)) + F =
      branchAt (p, ((fr.map Tree.page).withRight s lb.page).fill la.page) ::ₘ
        leafAt (la.page, la.entries, lb.page) ::ₘ
        leafAt (lb.page, lb.entries, nextOf up p fr) ::ₘ (besideLeaves up p fr la.page + F) := by
  simp [treeDemand_pairAt, besideLeaves, nextOf]

/-- A branch over one leaf less. -/
theorem leafMerged (up : PageCtx 1) (p : PageNo) (fr : Frame Bytes (PageTree 0)) (l : PageLeaf)
    (F : Demand) :
    treeDemand ((Ctx.under p fr up).plug (.ofLeaf l)) + F =
      branchAt (p, (fr.map Tree.page).fill l.page) ::ₘ
        leafAt (l.page, l.entries, nextOf up p fr) ::ₘ (besideLeaves up p fr l.page + F) := by
  simp [treeDemand_under, besideLeaves, nextOf]

/-- The marks of a pair of leaves, with and without the separator between them. -/
theorem sorted_pair : Sorted (pairAt up p fr (.ofLeaf la) s (.ofLeaf lb)).2.tokens ↔
    (marks (Ctx.under p fr up).before ++ (la.entries.map fun e => Mark.entry e.1) ++ Mark.sep s ::
      ((lb.entries.map fun e => Mark.entry e.1) ++ marks (Ctx.under p fr up).after)).Pairwise
        (· < ·) := by
  rw [Sorted, tokens_pairAt]
  simp

theorem marks_merged (h : Sorted (pairAt up p fr (.ofLeaf la) s (.ofLeaf lb)).2.tokens) :
    (marks (Ctx.under p fr up).before ++ (la.entries.map fun e => Mark.entry e.1) ++
      ((lb.entries.map fun e => Mark.entry e.1) ++ marks (Ctx.under p fr up).after)).Pairwise
        (· < ·) :=
  (sorted_pair.mp h).sublist ((List.sublist_cons_self _ _).append_left _)

theorem entries_pair : SearchTree.entries (pairAt up p fr (.ofLeaf la) s (.ofLeaf lb)).2.tokens =
    SearchTree.entries (Ctx.under p fr up).before ++ (la.entries ++ lb.entries) ++
      SearchTree.entries (Ctx.under p fr up).after := by
  rw [tokens_pairAt]
  simp

/-- A pair of leaves that shares the same entries in another way. -/
theorem Rearranged.of_pair {la' lb' : PageLeaf} {s' : Bytes} {st' : Store} {proper : Prop}
    (hT : Represents c F (pairAt up p fr (.ofLeaf la) s (.ofLeaf lb)) root st)
    (howns : Owns c (treeDemand (pairAt up p fr (.ofLeaf la') s' (.ofLeaf lb')) + F) st')
    (hentries : la'.entries ++ lb'.entries = la.entries ++ lb.entries)
    (hsorted : Sorted (pairAt up p fr (.ofLeaf la') s' (.ofLeaf lb')).2.tokens)
    (hproper : proper → fr.All Tree.Proper ∧ up.Proper) :
    Rearranged c F (pairAt up p fr (.ofLeaf la) s (.ofLeaf lb)) proper root st'
      (pairAt up p fr (.ofLeaf la') s' (.ofLeaf lb')) where
  represents := ⟨Stands.stay ⟨page_pairAt.trans hT.page, howns⟩ hT.page, hsorted⟩
  entries := by rw [entries_pair, entries_pair, hentries]
  proper h := proper_pairAt (hproper h).2 (hproper h).1 trivial trivial

theorem run_takeFromRightLeaf (hrich : minEntries < lb.entries.length)
    (hT : Represents c F (pairAt up p fr (.ofLeaf la) s (.ofLeaf lb)) root st) :
    Run (borrowFromRightLeaf p la.page lb.page) (Ends fun _ st' => ∃ T',
      Rearranged c F (pairAt up p fr (.ofLeaf la) s (.ofLeaf lb))
        (fr.All Tree.Proper ∧ up.Proper) root st' T') st := by
  obtain ⟨pb, entries⟩ := lb
  match entries with
  | [] => cases hrich
  | [_] => simp [minEntries] at hrich
  | e :: e' :: eb =>
      have hnodup := pairAt_nodup hT.owns
      have how := hT.owns
      rw [leafPair] at how
      refine run_borrowFromRightLeaf how hnodup fun st' h' =>
        ⟨pairAt up p fr (.ofLeaf ⟨la.page, la.entries ++ [e]⟩) e'.1 (.ofLeaf ⟨pb, e' :: eb⟩),
          .of_pair hT ?_ (by simp) ?_ fun h => h⟩
      · rw [leafPair]
        exact h'
      · have hmarks := marks_merged hT.sorted
        simp only [List.map_cons, List.cons_append] at hmarks
        have hnew := pairwise_separate hmarks
        simpa [sorted_pair] using hnew

theorem run_takeFromLeftLeaf (hrich : minEntries < la.entries.length)
    (hT : Represents c F (pairAt up p fr (.ofLeaf la) s (.ofLeaf lb)) root st) :
    Run (borrowFromLeftLeaf p la.page lb.page) (Ends fun _ st' => ∃ T',
      Rearranged c F (pairAt up p fr (.ofLeaf la) s (.ofLeaf lb))
        (fr.All Tree.Proper ∧ up.Proper) root st' T') st := by
  obtain ⟨pa, entries⟩ := la
  rcases List.eq_nil_or_concat' entries with rfl | ⟨ea, e, rfl⟩
  · cases hrich
  · rcases List.eq_nil_or_concat' ea with rfl | ⟨ea, a, rfl⟩
    · simp [minEntries] at hrich
    · have hnodup := pairAt_nodup hT.owns
      have how := hT.owns
      rw [leafPair] at how
      refine run_borrowFromLeftLeaf how hnodup fun st' h' =>
        ⟨pairAt up p fr (.ofLeaf ⟨pa, ea ++ [a]⟩) e.1 (.ofLeaf ⟨lb.page, e :: lb.entries⟩),
          .of_pair hT ?_ (by simp) ?_ fun h => h⟩
      · rw [leafPair]
        exact h'
      · have hmarks := marks_merged hT.sorted
        have hold : ((marks (Ctx.under p fr up).before ++ ea.map fun e => Mark.entry e.1) ++
            Mark.entry a.1 :: Mark.entry e.1 :: ((lb.entries.map fun e => Mark.entry e.1) ++
              marks (Ctx.under p fr up).after)).Pairwise (· < ·) := by
          simpa using hmarks
        have hnew := pairwise_separate hold
        simpa [sorted_pair] using hnew

theorem run_mergeLeafPair
    (hT : Represents c F (pairAt up p fr (.ofLeaf la) s (.ofLeaf lb)) root st) :
    Run (mergeLeaves root up.path p la.page lb.page) (Ends fun root' st' => ∃ T',
      Rearranged c F (pairAt up p fr (.ofLeaf la) s (.ofLeaf lb))
        (fr.All Tree.Proper ∧ up.Proper) root' st' T') st := by
  have hnodup := pairAt_nodup hT.owns
  have how := hT.owns
  rw [leafPair] at how
  let l : PageLeaf := ⟨la.page, la.entries ++ lb.entries⟩
  refine run_mergeLeaves how hnodup fun st' h' => ?_
  have hstands : Stands c F (up.plug (.branch p (fr.fill (.ofLeaf l)))) root st' := by
    refine ⟨?_, ?_⟩
    · rw [← hT.page]
      exact up.page_plug_congr rfl
    · change Owns c (treeDemand ((Ctx.under p fr up).plug (.ofLeaf l)) + F) st'
      rw [leafMerged]
      exact h'
  have htokens : (up.plug (.branch p (fr.fill (.ofLeaf l)))).2.tokens =
      (Ctx.under p fr up).before ++ [.leaf l] ++ (Ctx.under p fr up).after :=
    (Ctx.under p fr up).tokens_plug (.ofLeaf l)
  refine Run.mono (run_rebalanceInternal up p _ hstands) ?_
  rintro root' st'' ⟨T', hstands', htokens', hproper⟩
  rw [htokens] at htokens'
  have hpage : (up.plug (.branch p (fr.fill (.ofLeaf l)))).2.page =
      (pairAt up p fr (.ofLeaf la) s (.ofLeaf lb)).2.page := up.page_plug_congr rfl
  refine ⟨T', ⟨hpage ▸ hstands', ?_⟩, ?_, ?_⟩
  · have hmarks := marks_merged hT.sorted
    simpa [Sorted, htokens', l] using hmarks
  · rw [htokens', entries_pair]
    simp [l]
  · rintro ⟨hfr, hup⟩
    exact hproper ⟨hup, (Frame.all_fill ..).mpr ⟨hfr, trivial⟩⟩

/-- The leaf has an entry to spare. -/
def richLeaf (x : PageTree 0) : Bool :=
  minEntries < (Leaf.entries x).length

theorem run_spareLeaf {l lx : PageLeaf} (hx : Beside fr (.ofLeaf lx))
    (how : Owns c (treeDemand ((Ctx.under p fr up).plug (.ofLeaf l)) + F) st) :
    Run (spareLeaf (some lx.page)) (Ends fun r st' =>
      st' = st ∧ r = if richLeaf (.ofLeaf lx) then some lx.page else none) st := by
  have hmem : ∃ next, leafAt (lx.page, lx.entries, next) ∈
      treeDemand ((Ctx.under p fr up).plug (.ofLeaf l)) + F := by
    cases hx with
    | right fr' s heq =>
        refine ⟨nextOf up p fr', ?_⟩
        rw [heq]
        change _ ∈ treeDemand (pairAt up p fr' (.ofLeaf l) s (.ofLeaf lx)) + F
        rw [leafPair]
        simp
    | left fr' s heq =>
        refine ⟨l.page, ?_⟩
        rw [heq, Ctx.plug, Frame.fill_withLeft]
        change _ ∈ treeDemand (pairAt up p fr' (.ofLeaf lx) s (.ofLeaf l)) + F
        rw [leafPair]
        simp
  obtain ⟨next, hmem⟩ := hmem
  refine .step (run_readLeaf how hmem ⟨rfl, ?_⟩)
  by_cases hlong : minEntries < lx.entries.length <;>
    simp [richLeaf, LeafNode.ofEntries, Tree.ofLeaf, hlong]

theorem proper_withRight {x : PageTree 0} (h : (Ctx.under p (fr.withRight s x) up).Proper) :
    fr.All Tree.Proper ∧ up.Proper :=
  ⟨((Frame.all_withRight ..).mp h.2.1).1, h.2.2⟩

theorem proper_withLeft {x : PageTree 0} (h : (Ctx.under p (fr.withLeft x s) up).Proper) :
    fr.All Tree.Proper ∧ up.Proper :=
  ⟨((Frame.all_withLeft ..).mp h.2.1).1, h.2.2⟩

theorem run_rebalanceLeaf {l : PageLeaf}
    (hT : Represents c F ((Ctx.under p fr up).plug (.ofLeaf l)) root st) :
    Run (rebalanceLeaf root (Ctx.under p fr up).path l.page) (Ends fun root' st' => ∃ T',
      Rearranged c F ((Ctx.under p fr up).plug (.ofLeaf l)) (Ctx.under p fr up).Proper
        root' st' T') st := by
  have how := hT.owns
  rw [leafMerged] at how
  unfold rebalanceLeaf
  refine .step (run_readLeaf how.second (Multiset.mem_cons_self _ _) ?_)
  rw [Exec.Post.withOk_ok]
  split
  next => exact ⟨_, hT.stay hT.page, rfl, fun hproper => Ctx.proper_plug hproper trivial⟩
  next hmin =>
    refine @run_atSiblings _ _ _ _ _ _ _ _ (.ofLeaf l) _ hT.owns richLeaf
      spareLeaf (borrowFromRightLeaf p l.page)
      (fun leftNo => borrowFromLeftLeaf p leftNo l.page)
      (fun rightNo => mergeLeaves root up.path p l.page rightNo)
      (fun leftNo => mergeLeaves root up.path p leftNo l.page)
      rfl (fun x hx => run_spareLeaf hx hT.owns) ?_ ?_ ?_ ?_ ?_
    · rintro fr' s b rfl hrich
      refine Run.mono (run_takeFromRightLeaf (of_decide_eq_true hrich) hT) ?_
      rintro _ st' ⟨T', hrepresents, hentries, hproper⟩
      exact ⟨T', hrepresents, hentries, fun h => hproper (proper_withRight h)⟩
    · rintro fr' a s rfl hrich
      rw [Ctx.plug, Frame.fill_withLeft] at hT ⊢
      refine Run.mono (run_takeFromLeftLeaf (of_decide_eq_true hrich) hT) ?_
      rintro _ st' ⟨T', hrepresents, hentries, hproper⟩
      exact ⟨T', hrepresents, hentries, fun h => hproper (proper_withLeft h)⟩
    · rintro fr' s b rfl
      refine Run.mono (run_mergeLeafPair hT) ?_
      rintro root' st' ⟨T', hrepresents, hentries, hproper⟩
      exact ⟨T', hrepresents, hentries, fun h => hproper (proper_withRight h)⟩
    · rintro fr' a s rfl
      rw [Ctx.plug, Frame.fill_withLeft] at hT ⊢
      refine Run.mono (run_mergeLeafPair hT) ?_
      rintro root' st' ⟨T', hrepresents, hentries, hproper⟩
      exact ⟨T', hrepresents, hentries, fun h => hproper (proper_withLeft h)⟩
    · rintro rfl
      exact ⟨_, hT.stay hT.page, rfl, fun hproper => absurd rfl (hproper.1 (.ofLeaf l))⟩

end Leaves

/-! ## Deleting -/

section Delete

variable {c : PageNo} {F : Demand} {T : PageWhole} {root : PageNo} {st : Store}
  {ctx : PageCtx 0} {l : PageLeaf} {key : Bytes}

/-- What a deletion of a key that is present leaves behind. -/
structure Deleted (c : PageNo) (F : Demand) (T : PageWhole) (h : Sorted T.2.tokens) (key : Bytes)
    (root' : PageNo) (st' : Store) (T' : PageWhole) : Prop where
  represents : Represents c (leftOver T.2.page root' + F) T' root' st'
  toMap_eq : toMap _ represents.sorted = (toMap _ h).erase key
  proper : T.2.Proper → T'.2.Proper

/-- The entry of a key that is present, in the open leaf. -/
theorem split_leaf (hsorted : Sorted (ctx.plug (.ofLeaf l)).2.tokens)
    (hroutes : Routes key ctx.before ctx.after) (hpresent : (toMap _ hsorted).get key ≠ none) :
    ∃ xs v ys, l.entries = xs ++ (key, v) :: ys ∧ (∀ e ∈ xs, e.1 ≠ key) ∧ ∀ e ∈ ys, e.1 ≠ key := by
  obtain ⟨v, hv⟩ := Option.ne_none_iff_exists'.mp hpresent
  rw [← get_leafMap hsorted hroutes, OrdMap.get_eq_some] at hv
  obtain ⟨xs, ys, hsplit⟩ := List.append_of_mem hv
  have hpairs := (leafMap hsorted).sorted
  rw [show (leafMap hsorted).entries = xs ++ (key, v) :: ys from hsplit] at hpairs
  obtain ⟨-, hys, hcross⟩ := List.pairwise_append.mp hpairs
  refine ⟨xs, v, ys, hsplit, fun e he => (hcross e he _ List.mem_cons_self).ne, fun e he => ?_⟩
  exact ((List.pairwise_cons.mp hys).1 e he).ne'

theorem run_delete (hT : Represents c F T root st) (key : Bytes)
    {Q : Bool × PageNo → Store → Prop}
    (habsent : (toMap _ hT.sorted).get key = none → Q (false, root) st)
    (hpresent : (toMap _ hT.sorted).get key ≠ none →
      ∀ T' root' st', Deleted c F T hT.sorted key root' st' T' → Q (true, root') st') :
    Run (delete root key) (Ends Q) st := by
  unfold delete
  refine .step (run_descend hT key fun ctx l hleads => ?_)
  have hget := present_iff hT.sorted hleads
  obtain ⟨rfl, hroutes, -⟩ := hleads
  refine .step (run_readLeaf hT.owns (leafAt_mem F) ?_)
  by_cases hmem : (toMap _ hT.sorted).get key = none
  · have hnone : (storedLeaf ctx l).entries.findIdx? (fun e => e.key = key) = none := by
      have hany := mt hget.mpr (not_not.mpr hmem)
      simpa [List.findIdx?_eq_none_iff] using hany
    beta_reduce
    rw [Post.withOk_ok, show LeafNode.ofEntries _ _ = storedLeaf ctx l from rfl, hnone]
    exact habsent hmem
  · obtain ⟨xs, v, ys, hsplit, hxs, hys⟩ := split_leaf hT.sorted hroutes hmem
    have hentries : (storedLeaf ctx l).entries =
        xs.map toLeafEntry ++ toLeafEntry (key, v) :: ys.map toLeafEntry := by
      simp [storedLeaf, LeafNode.ofEntries, hsplit]
    have hfind : (storedLeaf ctx l).entries.findIdx? (fun e => e.key = key) =
        some (xs.map toLeafEntry).length := by
      rw [hentries]
      refine findIdx?_append_cons (fun e he => ?_) (decide_eq_true rfl)
      obtain ⟨x, hx, rfl⟩ := List.mem_map.mp he
      exact decide_eq_false (hxs x hx)
    beta_reduce
    rw [Post.withOk_ok, show LeafNode.ofEntries _ _ = storedLeaf ctx l from rfl, hfind]
    let l' : PageLeaf := ⟨l.page, xs ++ ys⟩
    have hnode : Node.leaf { storedLeaf ctx l with
        entries := (storedLeaf ctx l).entries.eraseIdx (xs.map toLeafEntry).length } =
        Node.leaf (storedLeaf ctx l') := by
      rw [hentries, eraseIdx_append_cons rfl]
      simp [storedLeaf, LeafNode.ofEntries, l']
    have how := hT.owns
    rw [treeDemand_plug_leaf, Multiset.cons_add] at how
    refine .step (run_encodeInto how fun st' h' => ?_)
    have h' := h'.of_eq (congrArg (fun n => (l.page, some n) ::ₘ (aroundLeaf ctx l.page + F)) hnode)
    have hT' : Represents c F (ctx.plug (.ofLeaf l')) root st' := by
      refine ⟨⟨?_, ?_⟩, ?_⟩
      · rw [← hT.page]
        exact ctx.page_plug_congr rfl
      · rw [treeDemand_plug_leaf, Multiset.cons_add]
        exact h'
      · refine hT.sorted.sublist ?_
        simp only [Ctx.tokens_plug, Tree.tokens_ofLeaf, marks_append, marks_cons_leaf, hsplit, l',
          List.map_append, List.map_cons]
        refine ((List.Sublist.refl _).append ?_).append (.refl _)
        exact ((List.Sublist.refl _).append (List.sublist_cons_self _ _)).append (.refl _)
    have herase {ts : List PageToken} (hts : Sorted ts)
        (hentries : SearchTree.entries ts =
          SearchTree.entries (ctx.plug (.ofLeaf l')).2.tokens) :
        toMap ts hts = (toMap _ hT.sorted).erase key := by
      obtain ⟨hbefore, hafter⟩ := entries_lt_of_routes hroutes
      refine OrdMap.ext_mem fun e => ?_
      rw [OrdMap.mem_erase, mem_toMap, mem_toMap, hentries]
      simp only [Ctx.tokens_plug, Tree.tokens_ofLeaf, entries_append, entries_cons_leaf,
        entries_nil, List.append_nil, List.mem_append, hsplit, l', List.mem_cons]
      constructor
      · rintro ((he | he | he) | he)
        · exact ⟨.inl (.inl he), (hbefore e he).ne⟩
        · exact ⟨.inl (.inr (.inl he)), hxs e he⟩
        · exact ⟨.inl (.inr (.inr (.inr he))), hys e he⟩
        · exact ⟨.inr he, (hafter e he).ne'⟩
      · rintro ⟨(he | he | rfl | he) | he, hne⟩
        · exact .inl (.inl he)
        · exact .inl (.inr (.inl he))
        · exact absurd rfl hne
        · exact .inl (.inr (.inr he))
        · exact .inr he
    cases ctx with
    | top =>
        refine hpresent hmem _ root st' ⟨hT'.stay hT.page, herase hT'.sorted rfl, fun _ => trivial⟩
    | under p fr up =>
        refine .step (Run.mono (@run_rebalanceLeaf c F st' root up p fr l' hT') ?_)
        rintro root' st'' ⟨T', hrepresents, hentries', hproper⟩
        have hpage : ((Ctx.under p fr up).plug (.ofLeaf l')).2.page =
            ((Ctx.under p fr up).plug (.ofLeaf l)).2.page :=
          (Ctx.under p fr up).page_plug_congr rfl
        rw [hpage] at hrepresents
        refine hpresent hmem _ _ _ ⟨hrepresents, herase hrepresents.sorted hentries', fun h => ?_⟩
        exact hproper (Ctx.proper_of_plug h).1

end Delete

end ChocoBase.BTree
