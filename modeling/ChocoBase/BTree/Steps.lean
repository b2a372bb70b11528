import ChocoBase.BTree.Shape

/-!
# What the tree operations do to their pages

One rule for each step of the code that changes a node and its neighbours, in
terms of the children and separators of the branches concerned.
-/

namespace ChocoBase.BTree

open ChocoBase.Foundation ChocoBase.Storage
open SearchTree hiding entries leaves
open Exec (Post)

section Steps

variable {c : PageNo} {D : Demand} {st : Store} {fr : PageFrame} {p a b : PageNo} {s : Bytes}

namespace Owns

theorem second {x y : PageNo × Option Node} (h : Owns c (x ::ₘ y ::ₘ D) st) :
    Owns c (y ::ₘ x ::ₘ D) st := Multiset.cons_swap x y D ▸ h

theorem third {x y z : PageNo × Option Node} (h : Owns c (x ::ₘ y ::ₘ z ::ₘ D) st) :
    Owns c (z ::ₘ x ::ₘ y ::ₘ D) st := by
  rw [Multiset.cons_swap z, Multiset.cons_swap z]
  exact h

end Owns

theorem run_findSiblings (how : Owns c D st) (hmem : branchAt (p, fr.fill a) ∈ D)
    (hnodup : (pagesOf (fr.fill a)).Nodup)
    {Q : Option PageNo × Option PageNo → Store → Prop}
    (hok : Q (leftSibling fr, rightSibling fr) st) : Run (findSiblings p a) (Ends Q) st := by
  obtain ⟨idx, hidx, hleft, hright⟩ := siblings_eq hnodup
  refine .step (run_readInternal how hmem (.step (run_unwrap hidx ?_)))
  change Q (_, _) st
  rw [hleft, hright]
  exact hok

theorem run_updateSeparator (how : Owns c (branchAt (p, (fr.withRight s b).fill a) ::ₘ D) st)
    (hnodup : (pagesOf ((fr.withRight s b).fill a)).Nodup) (s' : Bytes)
    {Q : Unit → Store → Prop}
    (hok : ∀ st', Owns c (branchAt (p, (fr.withRight s' b).fill a) ::ₘ D) st' → Q () st') :
    Run (updateSeparator p a s') (Ends Q) st := by
  refine .step (run_readInternal how (Multiset.mem_cons_self _ _) ?_)
  refine .step (run_unwrap (position_eq hnodup).1 ?_)
  refine run_encodeInto how fun st' h => hok st' ?_
  rwa [setKey_eq] at h

/-! ## Internal nodes -/

section Internal

variable {ka kb : PageKids} {x last : PageNo} {s' : Bytes} {front : List (PageNo × Bytes)}

theorem run_borrowFromRightInternal
    (how : Owns c (branchAt (p, (fr.withRight s b).fill a) ::ₘ branchAt (a, ka) ::ₘ
      branchAt (b, ⟨(x, s') :: front, last⟩) ::ₘ D) st)
    (hnodup : (pagesOf ((fr.withRight s b).fill a)).Nodup) {Q : Unit → Store → Prop}
    (hok : ∀ st', Owns c (branchAt (p, (fr.withRight s' b).fill a) ::ₘ
      branchAt (a, ⟨ka.front ++ [(ka.last, s)], x⟩) ::ₘ
      branchAt (b, ⟨front, last⟩) ::ₘ D) st' → Q () st') :
    Run (borrowFromRightInternal p a b) (Ends Q) st := by
  refine .step (run_readInternal how.second (Multiset.mem_cons_self _ _) ?_)
  refine .step (run_readInternal how.third (Multiset.mem_cons_self _ _) ?_)
  refine .step (run_readInternal how (Multiset.mem_cons_self _ _) ?_)
  refine .step (run_unwrap (position_eq hnodup).1 ?_)
  refine .step (run_unwrap (position_eq hnodup).2 ?_)
  refine .step (@run_unwrap _ _ _ _ (toEntry (x, s')) rfl _ ?_)
  refine .step (run_encodeInto how.second fun st₁ h₁ => ?_)
  refine .step (run_encodeInto h₁.third fun st₂ h₂ => ?_)
  refine run_encodeInto h₂.third fun st₃ h₃ => hok st₃ ?_
  rw [setKey_eq] at h₃
  simpa [branchAt, InternalNode.ofKids, toEntry] using h₃.third.second

theorem run_borrowFromLeftInternal
    (how : Owns c (branchAt (p, (fr.withRight s b).fill a) ::ₘ
      branchAt (a, ⟨front ++ [(x, s')], last⟩) ::ₘ branchAt (b, kb) ::ₘ D) st)
    (hnodup : (pagesOf ((fr.withRight s b).fill a)).Nodup) {Q : Unit → Store → Prop}
    (hok : ∀ st', Owns c (branchAt (p, (fr.withRight s' b).fill a) ::ₘ
      branchAt (a, ⟨front, x⟩) ::ₘ
      branchAt (b, ⟨(last, s) :: kb.front, kb.last⟩) ::ₘ D) st' → Q () st') :
    Run (borrowFromLeftInternal p a b) (Ends Q) st := by
  refine .step (run_readInternal how.second (Multiset.mem_cons_self _ _) ?_)
  refine .step (run_readInternal how.third (Multiset.mem_cons_self _ _) ?_)
  refine .step (run_readInternal how (Multiset.mem_cons_self _ _) ?_)
  refine .step (run_unwrap (position_eq hnodup).1 ?_)
  refine .step (run_unwrap (position_eq hnodup).2 ?_)
  refine .step (@run_unwrap _ _ _ _ (toEntry (x, s')) (by simp [InternalNode.ofKids]) _ ?_)
  refine .step (run_encodeInto how.second fun st₁ h₁ => ?_)
  refine .step (run_encodeInto h₁.third fun st₂ h₂ => ?_)
  refine run_encodeInto h₂.third fun st₃ h₃ => hok st₃ ?_
  rw [setKey_eq] at h₃
  simpa [branchAt, InternalNode.ofKids, toEntry] using h₃.third.second

theorem run_mergeInternal
    (how : Owns c (branchAt (p, (fr.withRight s b).fill a) ::ₘ branchAt (a, ka) ::ₘ
      branchAt (b, kb) ::ₘ D) st)
    (hnodup : (pagesOf ((fr.withRight s b).fill a)).Nodup)
    {ascend : PageProg BTreeError PageNo} {Q : PageNo → Store → Prop}
    (hok : ∀ st', Owns c (branchAt (p, fr.fill a) ::ₘ
      branchAt (a, ⟨ka.front ++ (ka.last, s) :: kb.front, kb.last⟩) ::ₘ D) st' →
        Run ascend (Ends Q) st') :
    Run (mergeInternal p a b ascend) (Ends Q) st := by
  refine .step (run_readInternal how.second (Multiset.mem_cons_self _ _) ?_)
  refine .step (run_readInternal how.third (Multiset.mem_cons_self _ _) ?_)
  refine .step (run_readInternal how (Multiset.mem_cons_self _ _) ?_)
  refine .step (run_unwrap (position_eq hnodup).1 ?_)
  refine .step (run_unwrap (position_eq hnodup).2 ?_)
  refine .step (run_encodeInto how.second fun st₁ h₁ => ?_)
  refine .step (run_freePage h₁.third fun st₂ h₂ => ?_)
  refine .step (run_unwrap (mergeChildren_eq hnodup) ?_)
  refine .step (run_encodeInto h₂.second fun st₃ h₃ => hok st₃ ?_)
  simpa [branchAt, InternalNode.ofKids, toEntry] using h₃

/-- The separators `s'` splits, on both sides of it. -/
theorem run_splitInternal
    (how : Owns c (branchAt (p, ka) ::ₘ D) st) (hkb : kb.front ≠ [])
    {ascend : PageNo → Bytes → PageNo → PageProg BTreeError PageNo} {Q : PageNo → Store → Prop}
    (hok : ∀ l x s' r new st', kb.front = l ++ (x, s') :: r → l.length = kb.front.length / 2 →
      Owns c (branchAt (p, ⟨l, x⟩) ::ₘ branchAt (new, ⟨r, kb.last⟩) ::ₘ D) st' →
        Run (ascend p s' new) (Ends Q) st') :
    Run (splitInternal p (.ofKids kb) ascend) (Ends Q) st := by
  have hlt : kb.front.length / 2 < kb.front.length :=
    Nat.div_lt_self (List.length_pos_iff.mpr hkb) (by omega)
  rcases hx : kb.front[kb.front.length / 2] with ⟨x, s'⟩
  have hdrop : kb.front.drop (kb.front.length / 2) =
      (x, s') :: kb.front.drop (kb.front.length / 2 + 1) := by
    rw [List.drop_eq_getElem_cons hlt, hx]
  have hentries : (InternalNode.ofKids kb).entries.drop
      ((InternalNode.ofKids kb).entries.length / 2) =
        toEntry (x, s') :: (kb.front.drop (kb.front.length / 2 + 1)).map toEntry := by
    simp only [InternalNode.ofKids, List.length_map, ← List.map_drop, hdrop, List.map_cons]
  refine .step (run_unwrap (by rw [hentries]; rfl) ?_)
  refine .step (run_allocatePage how fun new st₁ h₁ => ?_)
  refine .step (run_encodeInto h₁.second fun st₂ h₂ => ?_)
  refine .step (run_encodeInto h₂.second fun st₃ h₃ => ?_)
  refine hok (kb.front.take (kb.front.length / 2)) x s'
    (kb.front.drop (kb.front.length / 2 + 1)) new st₃ ?_ ?_ ?_
  · rw [← hdrop, List.take_append_drop]
  · simp
    omega
  · rw [hentries] at h₃
    simpa [branchAt, InternalNode.ofKids, toEntry, List.map_take] using h₃.second

end Internal

/-! ## Leaves -/

section Leaves

variable {ea eb : List (Bytes × Bytes)} {e e' : Bytes × Bytes} {next : PageNo}

theorem run_borrowFromRightLeaf
    (how : Owns c (branchAt (p, (fr.withRight s b).fill a) ::ₘ leafAt (a, ea, b) ::ₘ
      leafAt (b, e :: e' :: eb, next) ::ₘ D) st)
    (hnodup : (pagesOf ((fr.withRight s b).fill a)).Nodup) {Q : Unit → Store → Prop}
    (hok : ∀ st', Owns c (branchAt (p, (fr.withRight e'.1 b).fill a) ::ₘ
      leafAt (a, ea ++ [e], b) ::ₘ leafAt (b, e' :: eb, next) ::ₘ D) st' → Q () st') :
    Run (borrowFromRightLeaf p a b) (Ends Q) st := by
  refine .step (run_readLeaf how.second (Multiset.mem_cons_self _ _) ?_)
  refine .step (run_readLeaf how.third (Multiset.mem_cons_self _ _) ?_)
  refine .step (@run_unwrap _ _ _ _ (toLeafEntry e) rfl _ ?_)
  refine .step (@run_unwrap _ _ _ _ (toLeafEntry e') rfl _ ?_)
  refine .step (run_encodeInto how.second fun st₁ h₁ => ?_)
  refine .step (run_encodeInto h₁.third fun st₂ h₂ => ?_)
  refine run_updateSeparator h₂.third hnodup _ fun st₃ h₃ => hok st₃ ?_
  simpa [leafAt, LeafNode.ofEntries, toLeafEntry] using h₃.third.second

theorem run_borrowFromLeftLeaf
    (how : Owns c (branchAt (p, (fr.withRight s b).fill a) ::ₘ leafAt (a, ea ++ [e], b) ::ₘ
      leafAt (b, eb, next) ::ₘ D) st)
    (hnodup : (pagesOf ((fr.withRight s b).fill a)).Nodup) {Q : Unit → Store → Prop}
    (hok : ∀ st', Owns c (branchAt (p, (fr.withRight e.1 b).fill a) ::ₘ
      leafAt (a, ea, b) ::ₘ leafAt (b, e :: eb, next) ::ₘ D) st' → Q () st') :
    Run (borrowFromLeftLeaf p a b) (Ends Q) st := by
  refine .step (run_readLeaf how.second (Multiset.mem_cons_self _ _) ?_)
  refine .step (run_readLeaf how.third (Multiset.mem_cons_self _ _) ?_)
  refine .step (@run_unwrap _ _ _ _ (toLeafEntry e) (by simp [LeafNode.ofEntries]) _ ?_)
  refine .step (run_encodeInto how.second fun st₁ h₁ => ?_)
  refine .step (run_encodeInto h₁.third fun st₂ h₂ => ?_)
  refine run_updateSeparator h₂.third hnodup _ fun st₃ h₃ => hok st₃ ?_
  simpa [leafAt, LeafNode.ofEntries, toLeafEntry] using h₃.third.second

theorem run_mergeLeaves
    (how : Owns c (branchAt (p, (fr.withRight s b).fill a) ::ₘ leafAt (a, ea, b) ::ₘ
      leafAt (b, eb, next) ::ₘ D) st)
    (hnodup : (pagesOf ((fr.withRight s b).fill a)).Nodup) {root : PageNo} {path : List PageNo}
    {Q : PageNo → Store → Prop}
    (hok : ∀ st', Owns c (branchAt (p, fr.fill a) ::ₘ leafAt (a, ea ++ eb, next) ::ₘ D) st' →
      Run (rebalanceInternal root path p) (Ends Q) st') :
    Run (mergeLeaves root path p a b) (Ends Q) st := by
  refine .step (run_readLeaf how.second (Multiset.mem_cons_self _ _) ?_)
  refine .step (run_readLeaf how.third (Multiset.mem_cons_self _ _) ?_)
  refine .step (run_encodeInto how.second fun st₁ h₁ => ?_)
  refine .step (run_freePage h₁.third fun st₂ h₂ => ?_)
  refine .step (run_readInternal h₂.second (Multiset.mem_cons_self _ _) ?_)
  refine .step (run_unwrap (position_eq hnodup).1 ?_)
  refine .step (run_unwrap (mergeChildren_eq hnodup) ?_)
  refine .step (run_encodeInto h₂.second fun st₃ h₃ => hok st₃ ?_)
  simpa [branchAt, leafAt, LeafNode.ofEntries] using h₃

end Leaves

end Steps

end ChocoBase.BTree
