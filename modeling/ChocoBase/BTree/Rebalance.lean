import ChocoBase.BTree.Lookup

/-!
# Rebalancing

Two neighbours of a branch exchange entries or become one node.  The leaves and
separators in the tree stay in order; merging internal nodes ends at the root,
which gives way to its only child.
-/

namespace ChocoBase.BTree

open ChocoBase.Foundation ChocoBase.Storage
open SearchTree hiding entries leaves
open Exec (Post)

section Pairs

variable {c : PageNo} {F : Demand} {st : Store} {h : Nat} {up : PageCtx (h + 1)} {p : PageNo}
  {fr : Frame Bytes (PageTree h)} {s : Bytes}

/-- A tree with a pair of neighbours `a` and `b` in the branch `p`. -/
def pairAt (up : PageCtx (h + 1)) (p : PageNo) (fr : Frame Bytes (PageTree h)) (a : PageTree h)
    (s : Bytes) (b : PageTree h) : PageWhole :=
  up.plug (.branch p ((fr.withRight s b).fill a))

theorem pairAt_nodup {a b : PageTree h}
    (how : Owns c (treeDemand (pairAt up p fr a s b) + F) st) :
    (pagesOf (((fr.map Tree.page).withRight s b.page).fill a.page)).Nodup := by
  rw [pairAt, treeDemand_plug, Multiset.cons_add] at how
  simpa using how.kids_nodup

/-- What a pair shares with the node it becomes: everything beside it. -/
def beside (up : PageCtx (h + 1)) (p : PageNo) (fr : Frame Bytes (PageTree h)) : Demand :=
  branches (fr.sum Tree.inner + up.inner p)

theorem tokens_pairAt (a b : PageTree h) :
    (pairAt up p fr a s b).2.tokens = (Ctx.under p fr up).before ++
      (a.tokens ++ .sep s :: b.tokens) ++ (Ctx.under p fr up).after := by
  simp [pairAt, Ctx.tokens_plug, Ctx.before, Ctx.after]

theorem treeDemand_pairAt (a b : PageTree h) :
    treeDemand (pairAt up p fr a s b) =
      branchAt (p, ((fr.map Tree.page).withRight s b.page).fill a.page) ::ₘ
        (branches (a.inner + b.inner) + (beside up p fr +
          chainOf ((Ctx.under p fr up).before ++ (a.tokens ++ .sep s :: b.tokens) ++
            (Ctx.under p fr up).after) 0)) := by
  rw [treeDemand, tokens_pairAt, pairAt, Ctx.inner_plug]
  simp only [Tree.inner_branch, Tree.page_branch, beside, Frame.fill_map, Frame.map_withRight,
    Frame.sum_fill, Frame.sum_withRight, branches_add, branches_cons, Multiset.add_cons,
    Multiset.cons_add]
  congr 1
  abel

theorem page_pairAt {a a' b b' : PageTree h} {s' : Bytes} :
    (pairAt up p fr a s b).2.page = (pairAt up p fr a' s' b').2.page :=
  up.page_plug_congr rfl

theorem proper_pairAt {a b : PageTree h} (hup : up.Proper) (hfr : fr.All Tree.Proper)
    (ha : a.Proper) (hb : b.Proper) : (pairAt up p fr a s b).2.Proper := by
  refine Ctx.proper_plug hup ⟨?_, ?_⟩
  · cases fr <;> simp [Tree.branch, Frame.withRight, Frame.fill]
  · exact (Frame.all_fill ..).mpr ⟨(Frame.all_withRight ..).mpr ⟨hfr, hb⟩, ha⟩

theorem treeDemand_under (t : PageTree h) :
    treeDemand ((Ctx.under p fr up).plug t) =
      branchAt (p, (fr.map Tree.page).fill t.page) ::ₘ (branches t.inner + (beside up p fr +
        chainOf ((Ctx.under p fr up).before ++ t.tokens ++ (Ctx.under p fr up).after) 0)) := by
  simp only [treeDemand, Ctx.tokens_plug, Ctx.inner_plug, Ctx.inner, beside, branches_add,
    branches_cons, Multiset.cons_add]
  congr 1
  abel

end Pairs

/-! ## Internal nodes -/

section Internal

variable {c : PageNo} {F : Demand} {st : Store} {h : Nat} {up : PageCtx (h + 1 + 1)} {p pa pb : PageNo}
  {fr : Frame Bytes (PageTree (h + 1))} {s s' : Bytes} {ka kb : Kids Bytes (PageTree h)}
  {x last : PageTree h} {front : List (PageTree h × Bytes)}

private theorem internalPair (up : PageCtx (h + 1 + 1)) (p : PageNo)
    (fr : Frame Bytes (PageTree (h + 1))) (pa : PageNo) (ka : Kids Bytes (PageTree h)) (s : Bytes)
    (pb : PageNo) (kb : Kids Bytes (PageTree h)) (F : Demand) :
    treeDemand (pairAt up p fr (.branch pa ka) s (.branch pb kb)) + F =
      branchAt (p, ((fr.map Tree.page).withRight s pb).fill pa) ::ₘ
        branchAt (pa, ka.map Tree.page) ::ₘ branchAt (pb, kb.map Tree.page) ::ₘ
        (branches (ka.sum Tree.inner + kb.sum Tree.inner) + (beside up p fr +
          chainOf ((Ctx.under p fr up).before ++ (ka.flat Tree.tokens .sep ++ .sep s ::
            kb.flat Tree.tokens .sep) ++ (Ctx.under p fr up).after) 0) + F) := by
  simp only [treeDemand_pairAt, Tree.page_branch, Tree.inner_branch, Tree.tokens_branch,
    branches_add, branches_cons, Multiset.cons_add, Multiset.add_cons]
  rw [Multiset.cons_swap (branchAt (pb, _))]

theorem run_borrowRight
    (how : Owns c (treeDemand (pairAt up p fr (.branch pa ka) s
      (.branch pb ⟨(x, s') :: front, last⟩)) + F) st) {Q : Unit → Store → Prop}
    (hok : ∀ st', Owns c (treeDemand (pairAt up p fr (.branch pa ⟨ka.front ++ [(ka.last, s)], x⟩)
      s' (.branch pb ⟨front, last⟩)) + F) st' → Q () st') :
    Run (borrowFromRightInternal p pa pb) (Ends Q) st := by
  have hnodup := pairAt_nodup how
  rw [internalPair] at how
  refine run_borrowFromRightInternal how hnodup fun st' h' => hok st' ?_
  rw [internalPair]
  refine h'.of_eq ?_
  simp [Kids.map, Kids.flat, Kids.sum, add_assoc]

theorem run_borrowLeft
    (how : Owns c (treeDemand (pairAt up p fr (.branch pa ⟨front ++ [(x, s')], last⟩) s
      (.branch pb kb)) + F) st) {Q : Unit → Store → Prop}
    (hok : ∀ st', Owns c (treeDemand (pairAt up p fr (.branch pa ⟨front, x⟩) s'
      (.branch pb ⟨(last, s) :: kb.front, kb.last⟩)) + F) st' → Q () st') :
    Run (borrowFromLeftInternal p pa pb) (Ends Q) st := by
  have hnodup := pairAt_nodup how
  have hka : Kids.map Tree.page ⟨front ++ [(x, s')], last⟩ =
      ⟨(front.map fun y => (y.1.page, y.2)) ++ [(x.page, s')], last.page⟩ := by simp [Kids.map]
  rw [internalPair, hka] at how
  refine run_borrowFromLeftInternal how hnodup fun st' h' => hok st' ?_
  rw [internalPair]
  refine h'.of_eq ?_
  simp [Kids.map, Kids.flat, Kids.sum, add_assoc]

theorem run_merge
    (how : Owns c (treeDemand (pairAt up p fr (.branch pa ka) s (.branch pb kb)) + F) st)
    {ascend : PageProg BTreeError PageNo} {Q : PageNo → Store → Prop}
    (hok : ∀ st', Owns c (treeDemand ((Ctx.under p fr up).plug
      (.branch pa ⟨ka.front ++ (ka.last, s) :: kb.front, kb.last⟩)) + F) st' →
        Run ascend (Ends Q) st') :
    Run (mergeInternal p pa pb ascend) (Ends Q) st := by
  have hnodup := pairAt_nodup how
  rw [internalPair] at how
  refine run_mergeInternal how hnodup fun st' h' => hok st' (h'.of_eq ?_)
  rw [treeDemand_under]
  simp [Kids.map, Kids.flat, Kids.sum, add_assoc]

end Internal

/-! ## Choosing a neighbour -/

/-- What both kinds of nodes do once their siblings are found. -/
def atSiblings (root : PageNo) (spare : Option PageNo → PageProg BTreeError (Option PageNo))
    (borrowRight borrowLeft : PageNo → PageProg BTreeError Unit)
    (mergeRight mergeLeft : PageNo → PageProg BTreeError PageNo) :
    Option PageNo × Option PageNo → PageProg BTreeError PageNo
  | (leftSib, rightSib) => do
    match ← spare rightSib with
    | some rightNo => do
        borrowRight rightNo
        return root
    | none =>
        match ← spare leftSib with
        | some leftNo => do
            borrowLeft leftNo
            return root
        | none =>
            match rightSib, leftSib with
            | some rightNo, _ => mergeRight rightNo
            | none, some leftNo => mergeLeft leftNo
            | none, none => return root

section Siblings

variable {c : PageNo} {F : Demand} {st : Store} {h : Nat} {up : PageCtx (h + 1)} {p root : PageNo}
  {fr : Frame Bytes (PageTree h)}

theorem Ctx.under_nodup {t : PageTree h}
    (how : Owns c (treeDemand ((Ctx.under p fr up).plug t) + F) st) :
    (pagesOf ((fr.map Tree.page).fill t.page)).Nodup := by
  rw [Ctx.plug, treeDemand_plug, Multiset.cons_add] at how
  simpa using how.kids_nodup

theorem leftSibling_map {α β : Type} (f : α → β) (fr : Frame Bytes α) :
    leftSibling (fr.map f) = (leftSibling fr).map f := by
  cases fr <;> simp [leftSibling, Frame.map, Frame.left, List.getLast?_map, Function.comp_def]

theorem rightSibling_map {α β : Type} (f : α → β) (fr : Frame Bytes α) :
    rightSibling (fr.map f) = (rightSibling fr).map f := by
  cases fr with
  | outer left => rfl
  | inner left s right => cases hfront : right.front <;> simp [rightSibling, Frame.map, Kids.map, hfront]

/-- `x` is a neighbour of the missing child. -/
inductive Beside (fr : Frame Bytes (PageTree h)) (x : PageTree h) : Prop where
  | right (fr' : Frame Bytes (PageTree h)) (s : Bytes) (heq : fr = fr'.withRight s x)
  | left (fr' : Frame Bytes (PageTree h)) (s : Bytes) (heq : fr = fr'.withLeft x s)

/-- The left sibling is asked once the right one has nothing to spare. -/
private theorem run_atLeft {Q : PageNo → Store → Prop} (rich : PageTree h → Bool)
    {spare : Option PageNo → PageProg BTreeError (Option PageNo)}
    {borrowLeft : PageNo → PageProg BTreeError Unit} {merge : PageProg BTreeError PageNo}
    (hnone : spare none = Prog.pure none)
    (hspare : ∀ x, Beside fr x → Run (spare (some x.page))
      (Ends fun r st' => st' = st ∧ r = if rich x then some x.page else none) st)
    (hborrow : ∀ fr' a s, fr = Frame.withLeft a s fr' → rich a = true →
      Run (borrowLeft a.page) (Ends fun _ st' => Q root st') st)
    (hmerge : Run merge (Ends Q) st) :
    Run (do
      match ← spare ((leftSibling fr).map Tree.page) with
      | some leftNo => do
          borrowLeft leftNo
          return root
      | none => merge) (Ends Q) st := by
  cases fr.left_cases with
  | inl hleft =>
      obtain ⟨fr', a, s, hfr⟩ := hleft
      have hsibling : (leftSibling fr).map Tree.page = some a.page := by simp [hfr]
      rw [hsibling]
      refine .bind (hspare a (.left fr' s hfr)) ?_
      rintro _ _ ⟨rfl, rfl⟩
      by_cases hrich : rich a = true
      · rw [if_pos hrich]
        exact .bind (hborrow fr' a s hfr hrich) fun _ _ hQ => hQ
      · rw [if_neg hrich]
        exact hmerge
  | inr hleft =>
      have hsibling : (leftSibling fr).map Tree.page = none := by simp [leftSibling, hleft]
      rw [hsibling, hnone]
      exact hmerge

/--
A node that has too little borrows from a neighbour that is `rich`, and otherwise
becomes one with a neighbour.
-/
theorem run_atSiblings {t : PageTree h} {Q : PageNo → Store → Prop}
    (how : Owns c (treeDemand ((Ctx.under p fr up).plug t) + F) st) (rich : PageTree h → Bool)
    {spare : Option PageNo → PageProg BTreeError (Option PageNo)}
    {borrowRight borrowLeft : PageNo → PageProg BTreeError Unit}
    {mergeRight mergeLeft : PageNo → PageProg BTreeError PageNo}
    (hnone : spare none = Prog.pure none)
    (hspare : ∀ x, Beside fr x → Run (spare (some x.page))
      (Ends fun r st' => st' = st ∧ r = if rich x then some x.page else none) st)
    (hborrowRight : ∀ fr' s b, fr = Frame.withRight s b fr' → rich b = true →
      Run (borrowRight b.page) (Ends fun _ st' => Q root st') st)
    (hborrowLeft : ∀ fr' a s, fr = Frame.withLeft a s fr' → rich a = true →
      Run (borrowLeft a.page) (Ends fun _ st' => Q root st') st)
    (hmergeRight : ∀ fr' s b, fr = Frame.withRight s b fr' → Run (mergeRight b.page) (Ends Q) st)
    (hmergeLeft : ∀ fr' a s, fr = Frame.withLeft a s fr' → Run (mergeLeft a.page) (Ends Q) st)
    (halone : fr = .outer [] → Q root st) :
    Run (do
      let siblings ← findSiblings p t.page
      atSiblings root spare borrowRight borrowLeft mergeRight mergeLeft siblings) (Ends Q) st := by
  have hnodup := Ctx.under_nodup how
  rw [treeDemand_under, Multiset.cons_add] at how
  refine .step (run_findSiblings how (Multiset.mem_cons_self _ _) hnodup ?_)
  rw [leftSibling_map, rightSibling_map]
  cases fr.right_cases with
  | inl hright =>
      obtain ⟨fr', s, b, hfr⟩ := hright
      have hsibling : (rightSibling fr).map Tree.page = some b.page := by simp [hfr]
      rw [hsibling]
      refine .bind (hspare b (.right fr' s hfr)) ?_
      rintro _ _ ⟨rfl, rfl⟩
      by_cases hrich : rich b = true
      · rw [if_pos hrich]
        exact .bind (hborrowRight fr' s b hfr hrich) fun _ _ hQ => hQ
      · rw [if_neg hrich]
        exact run_atLeft rich hnone hspare hborrowLeft (hmergeRight fr' s b hfr)
  | inr hright =>
      obtain ⟨left, hfr⟩ := hright
      have hsibling : (rightSibling fr).map Tree.page = none := by simp [hfr, rightSibling]
      rw [hsibling]
      dsimp only [atSiblings]
      rw [hnone]
      refine run_atLeft rich hnone hspare hborrowLeft ?_
      cases fr.left_cases with
      | inl hleft =>
          obtain ⟨fr', a, s, hfr⟩ := hleft
          have hsibling : (leftSibling fr).map Tree.page = some a.page := by simp [hfr]
          rw [hsibling]
          exact hmergeLeft fr' a s hfr
      | inr hleft =>
          have hsibling : (leftSibling fr).map Tree.page = none := by simp [leftSibling, hleft]
          rw [hsibling]
          refine halone ?_
          rw [hfr] at hleft ⊢
          exact congrArg _ hleft

end Siblings

/-! ## Rebalancing internal nodes -/

section RebalanceInternal

variable {c : PageNo} {F : Demand} {st : Store} {root : PageNo}

theorem page_plug_mem {h : Nat} {ctx : PageCtx h} {t : PageTree h} :
    (ctx.plug t).2.page = t.page ∨ (ctx.plug t).2.page ∈ (ctx.inner t.page).map Prod.fst := by
  induction ctx with
  | top => exact .inl rfl
  | under p fr up ih =>
      refine .inr ?_
      rw [Ctx.plug, Ctx.inner, Multiset.map_cons, Multiset.mem_cons, Multiset.map_add,
        Multiset.mem_add]
      cases @ih (.branch p (fr.fill t)) with
      | inl heq => exact .inl heq
      | inr hmem => exact .inr (.inr hmem)

theorem page_plug_under {h : Nat} {up : PageCtx (h + 1)} {p : PageNo}
    {fr : Frame Bytes (PageTree h)} {t : PageTree h} :
    ((Ctx.under p fr up).plug t).2.page ∈ ((Ctx.under p fr up).inner t.page).map Prod.fst := by
  rw [Ctx.plug, Ctx.inner, Multiset.map_cons, Multiset.map_add]
  cases @page_plug_mem _ up (.branch p (fr.fill t)) with
  | inl heq =>
      rw [heq]
      exact Multiset.mem_cons_self _ _
  | inr hmem => exact Multiset.mem_cons_of_mem (Multiset.mem_add.mpr (.inr hmem))

/-- Only the whole tree has its root on the root's page. -/
theorem page_ne_root {h : Nat} {up : PageCtx (h + 1 + 1)} {p no : PageNo}
    {fr : Frame Bytes (PageTree (h + 1))} {kids : Kids Bytes (PageTree h)}
    (how : Owns c (treeDemand ((Ctx.under p fr up).plug (.branch no kids)) + F) st) :
    no ≠ ((Ctx.under p fr up).plug (.branch no kids)).2.page := by
  have hnodup := how.nodup
  rw [treeDemand_plug, Multiset.cons_add, Multiset.map_cons, Multiset.nodup_cons] at hnodup
  intro heq
  refine hnodup.1 ?_
  have hmem := @page_plug_under _ up p fr (.branch no kids)
  rw [← heq, Tree.page_branch] at hmem
  rw [Multiset.map_add, Multiset.mem_add, around, Multiset.map_add, branches_pages,
    Multiset.map_add]
  exact .inl (Multiset.mem_add.mpr (.inl (Multiset.mem_add.mpr (.inl hmem))))

/-- The page of an old root that gave way to another one; it stays in use. -/
def leftOver (root root' : PageNo) : Demand := if root' = root then 0 else {(root, none)}

@[simp] theorem leftOver_self (root : PageNo) : leftOver root root = 0 := if_pos rfl

/-- A tree with the same leaves and separators, now at `root'`. -/
structure Reshaped (c : PageNo) (F : Demand) (T : PageWhole) (proper : Prop) (root' : PageNo)
    (st' : Store) (T' : PageWhole) : Prop where
  stands : Stands c (leftOver T.2.page root' + F) T' root' st'
  tokens : T'.2.tokens = T.2.tokens
  proper : proper → T'.2.Proper

theorem Stands.stay {T T' : PageWhole} {st' : Store} (h : Stands c F T' root st')
    (hT : T.2.page = root) : Stands c (leftOver T.2.page root + F) T' root st' := by
  rw [hT, leftOver_self, zero_add]
  exact h

/-- An empty root gives way to its only child. -/
theorem run_rebalanceRoot {h : Nat} {no : PageNo} {kids : Kids Bytes (PageTree h)}
    (hT : Stands c F ⟨h + 1, .branch no kids⟩ root st) (path : List PageNo) :
    Run (rebalanceInternal root path no) (Ends fun root' st' =>
      ∃ T', Reshaped c F ⟨h + 1, .branch no kids⟩ (kids.All Tree.Proper) root' st' T') st := by
  obtain rfl : no = root := hT.page
  have how := hT.owns
  have hplug := treeDemand_plug .top no kids
  rw [Ctx.plug] at hplug
  rw [hplug, Multiset.cons_add] at how
  unfold rebalanceInternal
  refine .step (run_readInternal how (Multiset.mem_cons_self _ _) ?_)
  rw [Exec.Post.withOk_ok, if_pos rfl]
  by_cases hempty : kids.front = []
  · have hentries : (InternalNode.ofKids (kids.map Tree.page)).entries.isEmpty = true := by
      simp [InternalNode.ofKids, Kids.map, hempty]
    rw [if_pos hentries]
    have haround : around .top no kids = treeDemand ⟨h, kids.last⟩ := by
      simp [around, treeDemand, Kids.sum, Kids.flat, hempty, Ctx.inner, Ctx.before, Ctx.after]
    rw [haround] at how
    have hne : kids.last.page ≠ no := by
      intro heq
      have hmem : kids.last.page ∈ treePages kids.last :=
        Multiset.singleton_le.mp (page_le_treePages kids.last)
      refine how.not_mem ?_
      rw [Multiset.map_add, treeDemand_pages, Multiset.mem_add]
      exact .inl (heq ▸ hmem)
    refine ⟨⟨h, kids.last⟩, ⟨rfl, how.forget.of_eq ?_⟩, ?_, fun hall => hall.2⟩
    · change _ = treeDemand ⟨h, kids.last⟩ + (leftOver no kids.last.page + F)
      rw [leftOver, if_neg hne, ← Multiset.singleton_add]
      abel
    · simp [Kids.flat, hempty]
  · have hentries : ¬(InternalNode.ofKids (kids.map Tree.page)).entries.isEmpty = true := by
      simpa [InternalNode.ofKids, Kids.map] using hempty
    rw [if_neg hentries]
    exact ⟨_, hT.stay rfl, rfl, fun hall => ⟨hempty, hall⟩⟩

/-- The internal node has an entry to spare. -/
def richInternal {h : Nat} (x : PageTree (h + 1)) : Bool :=
  minEntries < (Branch.kids x).front.length

section Exchange

variable {h : Nat} {up : PageCtx (h + 1 + 1)} {p no : PageNo} {fr : Frame Bytes (PageTree (h + 1))}
  {kids : Kids Bytes (PageTree h)} {s : Bytes} {x : PageTree (h + 1)}

theorem run_spareInternal (hx : Beside fr x)
    (how : Owns c (treeDemand ((Ctx.under p fr up).plug (.branch no kids)) + F) st) :
    Run (spareInternal (some x.page)) (Ends fun r st' =>
      st' = st ∧ r = if richInternal x then some x.page else none) st := by
  obtain ⟨px, kx, rfl⟩ := x.exists_branch
  have hinner : (px, kx.map Tree.page) ∈ fr.sum Tree.inner := by
    cases hx with
    | right fr' s heq => simp [heq]
    | left fr' s heq => simp [heq]
  have hmem : branchAt (px, kx.map Tree.page) ∈
      treeDemand ((Ctx.under p fr up).plug (.branch no kids)) + F := by
    rw [treeDemand_under, beside, branches_add]
    have hbranch : branchAt (px, kx.map Tree.page) ∈ branches (fr.sum Tree.inner) :=
      Multiset.mem_map_of_mem _ hinner
    simp [hbranch]
  refine .step (run_readInternal how hmem ⟨rfl, ?_⟩)
  simp [richInternal, InternalNode.ofKids, Kids.map]
  rfl

theorem run_takeFromRight (hrich : richInternal x = true)
    (hT : Stands c F (pairAt up p fr (.branch no kids) s x) root st) :
    Run (borrowFromRightInternal p no x.page) (Ends fun _ st' => ∃ T',
      Reshaped c F (pairAt up p fr (.branch no kids) s x)
        ((Ctx.under p (fr.withRight s x) up).Proper ∧ kids.All Tree.Proper) root st' T') st := by
  obtain ⟨px, ⟨front, last⟩, rfl⟩ := x.exists_branch
  have hlong : 2 < front.length := of_decide_eq_true hrich
  match front with
  | (y, s') :: front =>
      refine run_borrowRight hT.owns fun st' h' => ⟨_, Stands.stay ⟨?_, h'⟩ hT.page, ?_, ?_⟩
      · rw [← hT.page]
        exact page_pairAt
      · rw [tokens_pairAt, tokens_pairAt]
        simp [Kids.flat]
      · rintro ⟨⟨-, hfr, hup⟩, hkids⟩
        obtain ⟨hfr, -, hall⟩ := (Frame.all_withRight ..).mp hfr
        simp only [Kids.All, Tree.branch, List.forall_mem_cons] at hall hkids
        refine proper_pairAt hup hfr ((Tree.proper_branch ..).mpr ⟨by simp, ?_, hall.1.1⟩)
          ((Tree.proper_branch ..).mpr ⟨?_, hall.1.2, hall.2⟩)
        · simp only [List.forall_mem_append, List.forall_mem_singleton]
          exact hkids
        · rintro rfl
          simp at hlong

theorem run_takeFromLeft (hrich : richInternal x = true)
    (hT : Stands c F (pairAt up p fr x s (.branch no kids)) root st) :
    Run (borrowFromLeftInternal p x.page no) (Ends fun _ st' => ∃ T',
      Reshaped c F (pairAt up p fr x s (.branch no kids))
        ((Ctx.under p (fr.withLeft x s) up).Proper ∧ kids.All Tree.Proper) root st' T') st := by
  obtain ⟨px, ⟨front, last⟩, rfl⟩ := x.exists_branch
  have hlong : 2 < front.length := of_decide_eq_true hrich
  rcases List.eq_nil_or_concat' front with rfl | ⟨front, ⟨y, s'⟩, rfl⟩
  · simp at hlong
  · refine run_borrowLeft hT.owns fun st' h' => ⟨_, Stands.stay ⟨?_, h'⟩ hT.page, ?_, ?_⟩
    · rw [← hT.page]
      exact page_pairAt
    · rw [tokens_pairAt, tokens_pairAt]
      simp [Kids.flat]
    · rintro ⟨⟨-, hfr, hup⟩, hkids⟩
      obtain ⟨hfr, -, hall⟩ := (Frame.all_withLeft ..).mp hfr
      simp only [Kids.All, Tree.branch, List.forall_mem_append, List.forall_mem_singleton]
        at hall hkids
      refine proper_pairAt hup hfr ((Tree.proper_branch ..).mpr ⟨?_, hall.1.1, hall.1.2⟩)
        ((Tree.proper_branch ..).mpr ⟨by simp, ?_, hkids.2⟩)
      · rintro rfl
        simp at hlong
      · simp only [List.forall_mem_cons]
        exact ⟨hall.2, hkids.1⟩

/-- Two nodes become one, and the branch above may now have too little. -/
theorem run_mergeInto {pa pb : PageNo} {ka kb : Kids Bytes (PageTree h)}
    {ascend : PageProg BTreeError PageNo}
    (hT : Stands c F (pairAt up p fr (.branch pa ka) s (.branch pb kb)) root st)
    (hascend : ∀ (kids : Kids Bytes (PageTree (h + 1))) st',
      Stands c F (up.plug (.branch p kids)) root st' → Run ascend (Ends fun root' st'' =>
        ∃ T', Reshaped c F (up.plug (.branch p kids)) (up.Proper ∧ kids.All Tree.Proper)
          root' st'' T') st') :
    Run (mergeInternal p pa pb ascend) (Ends fun root' st' => ∃ T',
      Reshaped c F (pairAt up p fr (.branch pa ka) s (.branch pb kb))
        ((fr.All Tree.Proper ∧ up.Proper) ∧ ka.All Tree.Proper ∧ kb.All Tree.Proper) root' st' T')
      st := by
  refine run_merge hT.owns fun st' h' => ?_
  refine Run.mono (hascend _ st' ⟨?_, h'⟩) ?_
  · rw [← hT.page]
    exact up.page_plug_congr rfl
  · rintro root' st'' ⟨T', hstands, htokens, hproper⟩
    have hpage : (up.plug (.branch p (fr.fill
        (.branch pa ⟨ka.front ++ (ka.last, s) :: kb.front, kb.last⟩)))).2.page =
        (pairAt up p fr (.branch pa ka) s (.branch pb kb)).2.page := up.page_plug_congr rfl
    refine ⟨T', hpage ▸ hstands, ?_, ?_⟩
    · rw [htokens, tokens_pairAt, Ctx.tokens_plug, Tree.tokens_branch, Frame.flat_fill]
      simp [Ctx.before, Ctx.after, Kids.flat]
    · rintro ⟨⟨hfr, hup⟩, hka, hkb⟩
      refine hproper ⟨hup, (Frame.all_fill ..).mpr ⟨hfr, (Tree.proper_branch ..).mpr ⟨by simp, ?_⟩⟩⟩
      refine ⟨?_, hkb.2⟩
      simp only [List.forall_mem_append, List.forall_mem_cons]
      exact ⟨hka.1, hka.2, hkb.1⟩

end Exchange

theorem run_rebalanceInternal {h : Nat} (ctx : PageCtx (h + 1)) (no : PageNo)
    (kids : Kids Bytes (PageTree h))
    (hT : Stands c F (ctx.plug (.branch no kids)) root st) :
    Run (rebalanceInternal root ctx.path no) (Ends fun root' st' =>
      ∃ T', Reshaped c F (ctx.plug (.branch no kids)) (ctx.Proper ∧ kids.All Tree.Proper)
        root' st' T') st := by
  induction hpath : ctx.path generalizing h no kids st with
  | nil =>
      cases ctx with
      | under p fr up => cases hpath
      | top =>
          refine Run.mono (run_rebalanceRoot hT []) ?_
          rintro root' st' ⟨T', hstands, htokens, hproper⟩
          exact ⟨T', hstands, htokens, fun hall => hproper hall.2⟩
  | cons parentNo path ih =>
      cases ctx with
      | top => cases hpath
      | under p fr up =>
          obtain ⟨rfl, rfl⟩ := List.cons.inj hpath
          have hne : no ≠ root := fun heq => page_ne_root hT.owns (heq.trans hT.page.symm)
          have how := hT.owns
          rw [treeDemand_plug, Multiset.cons_add] at how
          unfold rebalanceInternal
          refine .step (run_readInternal how (Multiset.mem_cons_self _ _) ?_)
          rw [Exec.Post.withOk_ok, if_neg hne]
          by_cases hmin : minEntries ≤ (InternalNode.ofKids (kids.map Tree.page)).entries.length
          · rw [if_pos hmin]
            refine ⟨_, hT.stay hT.page, rfl, fun hall => Ctx.proper_plug hall.1 ⟨?_, hall.2⟩⟩
            rintro hnil
            have hnil : kids.front = [] := hnil
            simp [InternalNode.ofKids, Kids.map, hnil, minEntries] at hmin
          · rw [if_neg hmin]
            refine @run_atSiblings _ _ _ _ _ _ _ _ (.branch no kids) _ hT.owns richInternal
              spareInternal (borrowFromRightInternal p no)
              (fun leftNo => borrowFromLeftInternal p leftNo no)
              (fun rightNo => mergeInternal p no rightNo (rebalanceInternal root up.path p))
              (fun leftNo => mergeInternal p leftNo no (rebalanceInternal root up.path p))
              rfl (fun x hx => run_spareInternal hx hT.owns) ?_ ?_ ?_ ?_ ?_
            · rintro fr' s b rfl hrich
              exact run_takeFromRight hrich hT
            · rintro fr' a s rfl hrich
              rw [Ctx.plug, Frame.fill_withLeft] at hT ⊢
              exact run_takeFromLeft hrich hT
            · rintro fr' s b rfl
              obtain ⟨pb, kb, rfl⟩ := b.exists_branch
              refine Run.mono (run_mergeInto hT fun kids' st' h' => ih up p kids' h' rfl) ?_
              rintro root' st' ⟨T', hstands, htokens, hproper⟩
              refine ⟨T', hstands, htokens, ?_⟩
              rintro ⟨⟨-, hfr, hup⟩, hkids⟩
              obtain ⟨hfr, hb⟩ := (Frame.all_withRight ..).mp hfr
              exact hproper ⟨⟨hfr, hup⟩, hkids, hb.2⟩
            · rintro fr' a s rfl
              obtain ⟨pa, ka, rfl⟩ := a.exists_branch
              rw [Ctx.plug, Frame.fill_withLeft] at hT ⊢
              refine Run.mono (run_mergeInto hT fun kids' st' h' => ih up p kids' h' rfl) ?_
              rintro root' st' ⟨T', hstands, htokens, hproper⟩
              refine ⟨T', hstands, htokens, ?_⟩
              rintro ⟨⟨-, hfr, hup⟩, hkids⟩
              obtain ⟨hfr, ha⟩ := (Frame.all_withLeft ..).mp hfr
              exact hproper ⟨⟨hfr, hup⟩, ha.2, hkids⟩
            · rintro rfl
              refine ⟨_, hT.stay hT.page, rfl, fun hall => absurd rfl (hall.1.1 (.branch no kids))⟩

end RebalanceInternal

end ChocoBase.BTree
