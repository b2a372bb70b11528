import ChocoBase.BTree.Lookup

/-!
# Splitting nodes

Inserting a separator into the branches above a node that was split: the leaves
and separators stay in order, whatever splits on the way up.  The branches stay
proper unless a branch splits that held at most one separator.
-/

namespace ChocoBase.BTree

open ChocoBase.Foundation ChocoBase.Storage
open SearchTree hiding entries leaves

/--
Whether inserting the separator right of `child` splits a node that holds at most
one separator: on the way up, nearest nodes first.
-/
def splitsThin : List (PageNo × InternalNode) → PageNo → Bytes → Prop
  | [], _, _ => False
  | (no, node) :: up, child, separator =>
      match node.insertChild child separator child with
      | none => False
      | some grown => pageSize < grown.encodedSize ∧
          (node.entries.length ≤ 1 ∨
            match (grown.entries.drop (grown.entries.length / 2)).head? with
            | none => False
            | some promote => splitsThin up no promote.key)

section Independence

variable {kids kids' : PageKids}

private theorem ofKids_keys (kids : PageKids) :
    (InternalNode.ofKids kids).entries.map InternalEntry.key = kids.front.map Prod.snd := by
  simp [InternalNode.ofKids, toEntry, Function.comp_def]

private theorem encodedSize_congr (h : kids.front.map Prod.snd = kids'.front.map Prod.snd) :
    (InternalNode.ofKids kids).encodedSize = (InternalNode.ofKids kids').encodedSize := by
  have hcell : InternalEntry.cellLen = (fun key => 2 + key.length + 4) ∘ InternalEntry.key := rfl
  have hsize (node : InternalNode) : node.encodedSize = nodeHeaderSize +
      (node.entries.map InternalEntry.key).length * 2 +
        ((node.entries.map InternalEntry.key).map fun key => 2 + key.length + 4).sum := by
    rw [InternalNode.encodedSize, hcell, List.map_map, List.length_map]
  rw [hsize, hsize, ofKids_keys, ofKids_keys, h]

private theorem promoted_congr (h : kids.front.map Prod.snd = kids'.front.map Prod.snd)
    {l : List (PageNo × Bytes)} {x : PageNo} {s : Bytes} {r : List (PageNo × Bytes)}
    (hfront : kids.front = l ++ (x, s) :: r) (hl : l.length = kids.front.length / 2) :
    ∃ promote, ((InternalNode.ofKids kids').entries.drop
      ((InternalNode.ofKids kids').entries.length / 2)).head? = some promote ∧
        promote.key = s := by
  have hlen : kids'.front.length = kids.front.length := by
    simpa using (congrArg List.length h).symm
  have hkey : (kids'.front.map Prod.snd)[kids.front.length / 2]? = some s := by
    rw [← h, hfront, ← hfront, ← hl, hfront]
    simp
  obtain ⟨y, hy, rfl⟩ := Option.map_eq_some_iff.mp (List.getElem?_map .. ▸ hkey)
  refine ⟨toEntry y, ?_, rfl⟩
  rw [List.head?_drop]
  simp [InternalNode.ofKids, hlen, hy]

private theorem withRight_keys (fr : PageFrame) (s : Bytes) (a b b' : PageNo) :
    ((fr.withRight s b).fill a).front.map Prod.snd =
      ((fr.withRight s b').fill a).front.map Prod.snd := by
  cases fr <;> simp [Frame.withRight, Frame.fill]

/-- A split that leaves no branch without separators. -/
private theorem halves_of_not_thin {fr : PageFrame} {a b p : PageNo} {s : Bytes}
    {up : List (PageNo × InternalNode)} (hne : ∀ x ∈ fr.left, x.1 ≠ a)
    (hthin : ¬splitsThin ((p, .ofKids (fr.fill a)) :: up) a s)
    (hbig : pageSize < (InternalNode.ofKids ((fr.withRight s b).fill a)).encodedSize)
    {l r : List (PageNo × Bytes)} {x : PageNo} {s' : Bytes}
    (hfront : ((fr.withRight s b).fill a).front = l ++ (x, s') :: r)
    (hmid : l.length = ((fr.withRight s b).fill a).front.length / 2) :
    l ≠ [] ∧ r ≠ [] ∧ ¬splitsThin up p s' := by
  have hkeys := withRight_keys fr s a b a
  obtain ⟨promote, hpromote, hkey⟩ := promoted_congr hkeys hfront hmid
  rw [encodedSize_congr hkeys] at hbig
  simp only [splitsThin, insertChild_eq hne, hpromote, hkey, hbig, true_and, not_or] at hthin
  have hgrown : ((fr.withRight s b).fill a).front.length =
      (InternalNode.ofKids (fr.fill a)).entries.length + 1 := by
    cases fr <;> simp [InternalNode.ofKids, Frame.withRight, Frame.fill, Nat.add_assoc]
  have hlen := congrArg List.length hfront
  rw [List.length_append, List.length_cons] at hlen
  refine ⟨List.ne_nil_of_length_pos ?_, List.ne_nil_of_length_pos ?_, hthin.2⟩ <;> omega

end Independence

/-- Splitting the children of a branch at a separator keeps what is listed in them. -/
private theorem flat_split {h : Nat} {kids : Kids Bytes (PageTree h)}
    {l r : List (PageTree h × Bytes)} {x : PageTree h} {s : Bytes} (p new : PageNo)
    (hfront : kids.front = l ++ (x, s) :: r) :
    (Tree.branch p ⟨l, x⟩).tokens ++ .sep s :: (Tree.branch new ⟨r, kids.last⟩).tokens =
      kids.flat Tree.tokens .sep := by
  simp [Kids.flat, hfront]

theorem run_insertIntoParent {c : PageNo} {F : Demand} {h : Nat} (ctx : PageCtx h)
    (L R : PageTree h) (s : Bytes) {root : PageNo} {st : Store}
    (hroot : (ctx.plug L).2.page = root)
    (how : Owns c (branches (ctx.inner L.page + L.inner + R.inner) +
      chainOf (ctx.before ++ (L.tokens ++ .sep s :: R.tokens) ++ ctx.after) 0 + F) st) :
    Run (insertIntoParent root ctx.path L.page s R.page)
      (Ends fun root' st' => ∃ T, Stands c F T root' st' ∧
        T.2.tokens = ctx.before ++ (L.tokens ++ .sep s :: R.tokens) ++ ctx.after ∧
        (¬splitsThin (trail ctx L.page) L.page s → ctx.Proper → L.Proper → R.Proper →
          T.2.Proper)) st := by
  induction ctx generalizing s st with
  | @top h =>
      refine .step (run_allocatePage how fun new st₁ h₁ => ?_)
      refine .step (run_encodeInto h₁ fun st₂ h₂ => ?_)
      let kids : Kids Bytes (PageTree h) := ⟨[(L, s)], R⟩
      refine ⟨⟨_, .branch new kids⟩, ⟨rfl, h₂.of_eq ?_⟩, ?_, fun _ _ hL hR => ?_⟩
      · simp [treeDemand, Ctx.inner, Ctx.before, Ctx.after, kids, Kids.sum, Kids.flat, Kids.map,
          branchAt, InternalNode.ofKids, toEntry]
      · simp [Ctx.before, Ctx.after, kids, Kids.flat]
      · exact ⟨by simp [kids, Tree.branch], by simp [kids, Kids.All, Tree.branch, hL, hR]⟩
  | @under h p fr up ih =>
      let kids := (fr.withRight s R).fill L
      have htokens : up.before ++ kids.flat Tree.tokens .sep ++ up.after =
          (Ctx.under p fr up).before ++ (L.tokens ++ .sep s :: R.tokens) ++
            (Ctx.under p fr up).after := by
        simp [kids, Ctx.before, Ctx.after]
      have hopen : Owns c (branchAt (p, (fr.map Tree.page).fill L.page) ::ₘ
          (around up p kids + F)) st := by
        refine how.of_eq ?_
        rw [around, htokens]
        simp only [Ctx.inner, kids, Frame.sum_fill, Frame.sum_withRight, branches_add,
          branches_cons, Multiset.cons_add]
        ac_rfl
      have hkids : kids.map Tree.page =
          ((fr.map Tree.page).withRight s R.page).fill L.page := by simp [kids]
      have hne := left_ne_of_pair (hkids ▸ hopen.kids_nodup)
      refine .step (run_readInternal hopen (Multiset.mem_cons_self _ _) ?_)
      refine .step (run_unwrap (insertChild_eq hne) ?_)
      have hproper (hctx : (Ctx.under p fr up).Proper) (hL : L.Proper) (hR : R.Proper) :
          kids.front ≠ [] ∧ kids.All Tree.Proper ∧ up.Proper :=
        ⟨by cases fr <;> simp [kids, Frame.withRight, Frame.fill],
          by simp [kids, hctx.2.1, hL, hR], hctx.2.2⟩
      dsimp only [Exec.Post.withOk_ok]
      split
      next hfits =>
        refine .step (run_encodeInto hopen fun st₁ h₁ => ?_)
        refine ⟨up.plug (.branch p kids), ⟨?_, h₁.of_eq ?_⟩, ?_, fun _ hctx hL hR => ?_⟩
        · rw [← hroot, Ctx.plug]
          exact up.page_plug_congr rfl
        · rw [treeDemand_plug, hkids, Multiset.cons_add]
          rfl
        · rw [Ctx.tokens_plug, Tree.tokens_branch, htokens]
        · obtain ⟨hfront, hall, hup⟩ := hproper hctx hL hR
          exact Ctx.proper_plug hup ⟨hfront, hall⟩
      next hfits =>
        rw [← hkids]
        refine run_splitInternal hopen (by cases fr <;> simp [kids, Kids.map, Frame.withRight,
          Frame.fill]) fun l x s' r new st₁ hfront hmid h₁ => ?_
        obtain ⟨l₀, rest, hfront₀, rfl, hrest⟩ := List.map_eq_append_iff.mp hfront
        obtain ⟨⟨x₀, s₀⟩, r₀, rfl, hx, rfl⟩ := List.map_eq_cons_iff.mp hrest
        obtain ⟨rfl, rfl⟩ := Prod.mk.inj hx
        have hflat := flat_split p new hfront₀
        refine Run.mono (ih (.branch p ⟨l₀, x₀⟩) (.branch new ⟨r₀, kids.last⟩) s₀ ?_ ?_) ?_
        · rw [← hroot, Ctx.plug]
          exact up.page_plug_congr rfl
        · refine h₁.of_eq ?_
          rw [hflat, around]
          simp only [Tree.page_branch, Tree.inner_branch, Kids.sum, hfront₀, Kids.frontSum_append,
            Kids.frontSum_cons, branches_add, branches_cons, Kids.map, Multiset.cons_add,
            Multiset.add_cons]
          rw [Multiset.cons_swap]
          congr 2
          ac_rfl
        · rintro root' st₂ ⟨T, hstands, hT, hproperT⟩
          refine ⟨T, hstands, by rw [hT, hflat, htokens], fun hthin hctx hL hR => ?_⟩
          obtain ⟨-, hall, hup⟩ := hproper hctx hL hR
          rw [hkids] at hfront hmid
          obtain ⟨hl, hr, hthin⟩ := halves_of_not_thin hne hthin (Nat.lt_of_not_le hfits)
            hfront hmid
          obtain ⟨hall, hlast⟩ := hall
          rw [hfront₀] at hall
          simp only [List.forall_mem_append, List.forall_mem_cons] at hall
          exact hproperT hthin hup
            ((Tree.proper_branch ..).mpr ⟨by simpa using hl, hall.1, hall.2.1⟩)
            ((Tree.proper_branch ..).mpr ⟨by simpa using hr, hall.2.2, hlast⟩)

end ChocoBase.BTree
