import ChocoBase.BTree.Tree
import ChocoBase.Foundation.SearchTree
import Mathlib.Tactic.Abel

/-!
# Trees in the store

How a search tree lies in a store: its branches and leaves as nodes on their
pages, and what the node operations of the code do to the children of a branch.
-/

namespace ChocoBase.BTree

open ChocoBase.Foundation ChocoBase.Storage
open SearchTree hiding entries leaves

abbrev PageKids : Type := Kids Bytes PageNo
abbrev PageFrame : Type := Frame Bytes PageNo
abbrev PageLeaf : Type := SearchTree.Leaf PageNo Bytes Bytes
abbrev PageTree (h : Nat) : Type := SearchTree.Tree PageNo Bytes Bytes h
abbrev PageWhole : Type := SearchTree.Whole PageNo Bytes Bytes
abbrev PageCtx (h : Nat) : Type := SearchTree.Ctx PageNo Bytes Bytes h
abbrev PageToken : Type := SearchTree.Token PageNo Bytes Bytes

/-! ## Lists at a known position -/

section Lists

variable {α : Type} {xs ys : List α} {y : α} {n : Nat}

theorem modify_append_cons (f : α → α) (hn : xs.length = n) :
    (xs ++ y :: ys).modify n f = xs ++ f y :: ys := by
  subst hn
  induction xs with
  | nil => rfl
  | cons x xs ih => simp [ih]

theorem insertIdx_append (hn : xs.length = n) : (xs ++ ys).insertIdx n y = xs ++ y :: ys := by
  subst hn
  induction xs with
  | nil => rfl
  | cons x xs ih => simp [ih]

theorem eraseIdx_append_cons (hn : xs.length = n) : (xs ++ y :: ys).eraseIdx n = xs ++ ys := by
  subst hn
  induction xs with
  | nil => rfl
  | cons x xs ih => simp [ih]

theorem findIdx?_append_cons {p : α → Bool} (hxs : ∀ x ∈ xs, p x = false) (hy : p y = true) :
    (xs ++ y :: ys).findIdx? p = some xs.length := by
  induction xs with
  | nil => simp [List.findIdx?_cons, hy]
  | cons x xs ih =>
      rw [List.cons_append, List.findIdx?_cons, hxs x (by simp),
        ih fun x hx => hxs x (List.mem_cons_of_mem _ hx)]
      simp

end Lists

/-! ## Nodes -/

def toEntry (x : PageNo × Bytes) : InternalEntry where
  key := x.2
  leftChild := x.1

def InternalNode.ofKids (kids : PageKids) : InternalNode where
  entries := kids.front.map toEntry
  rightmostChild := kids.last

def toLeafEntry (x : Bytes × Bytes) : LeafEntry where
  key := x.1
  payload := x.2

def LeafNode.ofEntries (entries : List (Bytes × Bytes)) (nextLeaf : PageNo) : LeafNode where
  entries := entries.map toLeafEntry
  nextLeaf := nextLeaf

/-- The pages of the children, from left to right. -/
def pagesOf (kids : PageKids) : List PageNo := kids.front.map Prod.fst ++ [kids.last]

section Positions

variable {fr : PageFrame} {a b : PageNo} {s : Bytes}

private theorem left_ne (hnodup : (pagesOf (fr.fill a)).Nodup) :
    ∀ x ∈ fr.left, x.1 ≠ a := by
  intro x hx heq
  cases fr <;> simp only [pagesOf, Frame.fill, Frame.left, List.map_append, List.map_cons,
    List.append_assoc, List.nodup_append] at hnodup hx
  · exact hnodup.2.2 _ (List.mem_map_of_mem hx) a (by simp) heq
  · exact hnodup.2.2 _ (List.mem_map_of_mem hx) a (by simp) heq

private theorem left_entries_ne (h : ∀ x ∈ fr.left, x.1 ≠ a) :
    ∀ e ∈ fr.left.map toEntry, decide (e.leftChild = a) = false := by
  intro e he
  obtain ⟨x, hx, rfl⟩ := List.mem_map.mp he
  exact decide_eq_false (h x hx)

/-- The entries around the separator of a pair of neighbours. -/
private theorem entries_split (fr : PageFrame) (a : PageNo) (s : Bytes) (b : PageNo) :
    ∃ rest, (InternalNode.ofKids ((fr.withRight s b).fill a)).entries =
      fr.left.map toEntry ++ toEntry (a, s) :: rest := by
  cases fr with
  | inner left sep right =>
      exact ⟨toEntry (b, sep) :: right.front.map toEntry, by
        simp [InternalNode.ofKids, Frame.withRight, Frame.fill, Frame.left]⟩
  | outer left =>
      exact ⟨[], by simp [InternalNode.ofKids, Frame.withRight, Frame.fill, Frame.left]⟩

theorem left_ne_of_pair (hnodup : (pagesOf ((fr.withRight s b).fill a)).Nodup) :
    ∀ x ∈ fr.left, x.1 ≠ a := by
  have h := left_ne hnodup
  cases fr <;> exact h

/-- The separator right of a child stands where the child does. -/
theorem position_eq (hnodup : (pagesOf ((fr.withRight s b).fill a)).Nodup) :
    (InternalNode.ofKids ((fr.withRight s b).fill a)).position a = some fr.left.length ∧
      (InternalNode.ofKids ((fr.withRight s b).fill a)).entries[fr.left.length]? =
        some (toEntry (a, s)) := by
  obtain ⟨rest, hentries⟩ := entries_split fr a s b
  rw [InternalNode.position, hentries,
    findIdx?_append_cons (left_entries_ne (left_ne_of_pair hnodup)) (decide_eq_true (by rfl))]
  exact ⟨by simp, by simp⟩

theorem insertChild_eq (hne : ∀ x ∈ fr.left, x.1 ≠ a) :
    (InternalNode.ofKids (fr.fill a)).insertChild a s b =
      some (InternalNode.ofKids ((fr.withRight s b).fill a)) := by
  have hleft := left_entries_ne hne
  cases fr with
  | inner left sep right =>
      have hpos : (InternalNode.ofKids ((Frame.inner left sep right).fill a)).position a =
          some (left.map toEntry).length := by
        simp only [InternalNode.position, InternalNode.ofKids, Frame.fill, List.map_append,
          List.map_cons]
        exact findIdx?_append_cons hleft (decide_eq_true (by rfl))
      simp only [InternalNode.insertChild, hpos]
      simp only [InternalNode.ofKids, Frame.fill, Frame.withRight, List.map_append,
        List.map_cons, modify_append_cons, insertIdx_append]
      rfl
  | outer left =>
      have hpos : (InternalNode.ofKids ((Frame.outer left).fill a)).position a = none := by
        simp only [InternalNode.position, InternalNode.ofKids, Frame.fill,
          List.findIdx?_eq_none_iff]
        exact hleft
      simp only [InternalNode.insertChild, hpos]
      simp [InternalNode.ofKids, Frame.fill, Frame.withRight, toEntry]

theorem setKey_eq (s' : Bytes) :
    (InternalNode.ofKids ((fr.withRight s b).fill a)).setKey fr.left.length s' =
      InternalNode.ofKids ((fr.withRight s' b).fill a) := by
  have hlen (left : List (PageNo × Bytes)) : (left.map toEntry).length = left.length := by simp
  cases fr <;> simp only [InternalNode.setKey, InternalNode.ofKids, Frame.fill, Frame.withRight,
    List.map_append, List.map_cons, Frame.left, modify_append_cons _ (hlen _)] <;> rfl

theorem mergeChildren_eq (hnodup : (pagesOf ((fr.withRight s b).fill a)).Nodup) :
    (InternalNode.ofKids ((fr.withRight s b).fill a)).mergeChildren fr.left.length a b =
      some (InternalNode.ofKids (fr.fill a)) := by
  have hlen (left : List (PageNo × Bytes)) : (left.map toEntry).length = left.length := by simp
  cases fr with
  | inner left sep right =>
      have hlast : right.last ≠ b := by
        rintro rfl
        simp [pagesOf, Frame.fill, Frame.withRight, List.nodup_append] at hnodup
      have hne : ∀ x ∈ (Frame.inner left sep right).left, x.1 ≠ b := by
        have h := hnodup
        rw [← Frame.fill_withLeft] at h
        exact fun x hx => left_ne h x (List.mem_append_left _ hx)
      have hpos : (left.map toEntry ++ toEntry (b, sep) :: right.front.map toEntry).findIdx?
          (fun e => e.leftChild = b) = some (left.map toEntry).length :=
        findIdx?_append_cons (left_entries_ne hne) (decide_eq_true (by rfl))
      simp only [InternalNode.mergeChildren, InternalNode.ofKids, Frame.fill, Frame.withRight,
        List.map_append, List.map_cons, Frame.left, eraseIdx_append_cons (hlen _),
        if_neg hlast, InternalNode.position, hpos, Option.map_some, modify_append_cons]
      rfl
  | outer left =>
      simp only [InternalNode.mergeChildren, InternalNode.ofKids, Frame.fill, Frame.withRight,
        List.map_append, List.map_cons, List.map_nil, Frame.left,
        eraseIdx_append_cons (hlen _), if_pos, List.append_nil]

end Positions

/-! ## Siblings -/

section Siblings

variable {α : Type}

/-- The neighbours of the missing child. -/
def leftSibling (fr : Frame Bytes α) : Option α := fr.left.getLast?.map Prod.fst

def rightSibling : Frame Bytes α → Option α
  | .inner _ _ right => some ((right.front.head?.map Prod.fst).getD right.last)
  | .outer _ => none

@[simp] theorem leftSibling_withLeft (fr : Frame Bytes α) (a : α) (s : Bytes) :
    leftSibling (fr.withLeft a s) = some a := by
  cases fr <;> simp [leftSibling, Frame.withLeft, Frame.left]

@[simp] theorem rightSibling_withRight (fr : Frame Bytes α) (s : Bytes) (b : α) :
    rightSibling (fr.withRight s b) = some b := by
  cases fr <;> simp [rightSibling, Frame.withRight]

theorem siblings_eq {fr : PageFrame} {a : PageNo} (hnodup : (pagesOf (fr.fill a)).Nodup) :
    let children := (InternalNode.ofKids (fr.fill a)).children
    ∃ idx, children.findIdx? (fun c => c = a) = some idx ∧
      (if 0 < idx then children[idx - 1]? else none) = leftSibling fr ∧
      (if idx + 1 < children.length then children[idx + 1]? else none) = rightSibling fr := by
  intro children
  have hchildren : children = pagesOf (fr.fill a) := by
    simp [children, InternalNode.children, InternalNode.ofKids, pagesOf, toEntry,
      Function.comp_def]
  have hne := left_ne hnodup
  have hleft : ∀ c ∈ fr.left.map Prod.fst, decide (c = a) = false := by
    intro c hc
    obtain ⟨x, hx, rfl⟩ := List.mem_map.mp hc
    exact decide_eq_false (hne x hx)
  have hprev (rest : List PageNo) :
      (if 0 < (fr.left.map Prod.fst).length then
        (fr.left.map Prod.fst ++ rest)[(fr.left.map Prod.fst).length - 1]? else none) =
      leftSibling fr := by
    split
    next hpos =>
      rw [List.getElem?_append_left (by omega), ← List.getLast?_eq_getElem?, List.getLast?_map]
      rfl
    next hpos =>
      have hnil : fr.left = [] := by simpa using hpos
      simp [leftSibling, hnil]
  refine ⟨(fr.left.map Prod.fst).length, ?_⟩
  cases fr with
  | inner left sep right =>
      have hsplit : children = left.map Prod.fst ++ a :: (right.front.map Prod.fst ++ [right.last]) := by
        rw [hchildren]
        simp [pagesOf, Frame.fill]
      rw [hsplit]
      refine ⟨findIdx?_append_cons hleft (by simp), hprev _, ?_⟩
      rw [if_pos (by simp [Frame.left]), List.getElem?_append_right (by simp [Frame.left])]
      cases hfront : right.front with
      | nil => simp [rightSibling, Frame.left, hfront]
      | cons x front => simp [rightSibling, Frame.left, hfront]
  | outer left =>
      have hsplit : children = left.map Prod.fst ++ [a] := by
        rw [hchildren]
        simp [pagesOf, Frame.fill]
      rw [hsplit]
      refine ⟨findIdx?_append_cons hleft (by simp), hprev _, ?_⟩
      simp [rightSibling, Frame.left]

end Siblings

/-! ## What a tree owns -/

def branchAt (x : PageNo × PageKids) : PageNo × Option Node :=
  (x.1, some (.internal (.ofKids x.2)))

def leafAt (x : PageNo × List (Bytes × Bytes) × PageNo) : PageNo × Option Node :=
  (x.1, some (.leaf (.ofEntries x.2.1 x.2.2)))

def branches (inner : Multiset (PageNo × PageKids)) : Demand := inner.map branchAt

/-- The leaves in a list of tokens, the last one linked to `stop`. -/
def chainOf (ts : List PageToken) (stop : PageNo) : Demand :=
  Multiset.ofList ((chain (SearchTree.leaves ts) stop).map leafAt)

def treeDemand (T : PageWhole) : Demand := branches T.2.inner + chainOf T.2.tokens 0

@[simp] theorem branches_zero : branches 0 = 0 := rfl

@[simp] theorem branches_add (x y : Multiset (PageNo × PageKids)) :
    branches (x + y) = branches x + branches y :=
  Multiset.map_add ..

@[simp] theorem branches_cons (x : PageNo × PageKids) (y : Multiset (PageNo × PageKids)) :
    branches (x ::ₘ y) = branchAt x ::ₘ branches y :=
  Multiset.map_cons ..

@[simp] theorem chainOf_append (ts us : List PageToken) (stop : PageNo) :
    chainOf (ts ++ us) stop =
      chainOf ts (firstPage (SearchTree.leaves us) stop) + chainOf us stop := by
  simp [chainOf]

@[simp] theorem chainOf_sep (s : Bytes) (ts : List PageToken) (stop : PageNo) :
    chainOf (.sep s :: ts) stop = chainOf ts stop := rfl

@[simp] theorem chainOf_leaf (l : PageLeaf) (ts : List PageToken) (stop : PageNo) :
    chainOf (.leaf l :: ts) stop =
      leafAt (l.page, l.entries, firstPage (SearchTree.leaves ts) stop) ::ₘ chainOf ts stop := rfl

@[simp] theorem chainOf_nil (stop : PageNo) : chainOf [] stop = 0 := rfl

/-- A tree with an open branch: everything but the branch itself. -/
def around {h : Nat} (up : PageCtx (h + 1)) (p : PageNo) (kids : Kids Bytes (PageTree h)) :
    Demand :=
  branches (up.inner p + kids.sum Tree.inner) +
    chainOf (up.before ++ kids.flat Tree.tokens .sep ++ up.after) 0

theorem treeDemand_plug {h : Nat} (up : PageCtx (h + 1)) (p : PageNo)
    (kids : Kids Bytes (PageTree h)) :
    treeDemand (up.plug (.branch p kids)) = branchAt (p, kids.map Tree.page) ::ₘ around up p kids := by
  simp only [treeDemand, around, Ctx.inner_plug, Ctx.tokens_plug, Tree.inner_branch,
    Tree.tokens_branch, Tree.page_branch, branches_add, branches_cons, Multiset.add_cons,
    Multiset.cons_add]

/-! ## Children lie on different pages -/

/-- The pages of a tree. -/
def treePages {h : Nat} (t : PageTree h) : Multiset PageNo :=
  t.inner.map Prod.fst + Multiset.ofList ((SearchTree.leaves t.tokens).map Leaf.page)

theorem page_le_treePages {h : Nat} (t : PageTree h) : {t.page} ≤ treePages t := by
  cases h with
  | zero =>
      obtain ⟨l, hl⟩ := t.exists_ofLeaf
      rw [hl]
      simp [treePages]
  | succ h =>
      obtain ⟨no, kids, ht⟩ := t.exists_branch
      rw [ht]
      simp [treePages]

private theorem frontSum_treePages {h : Nat} (front : List (PageTree h × Bytes)) :
    Kids.frontSum treePages front = (Kids.frontSum Tree.inner front).map Prod.fst +
      Multiset.ofList
        ((SearchTree.leaves (Kids.frontFlat Tree.tokens .sep front)).map Leaf.page) := by
  induction front with
  | nil => rfl
  | cons x front ih =>
      simp only [Kids.frontSum_cons, ih, treePages, Kids.frontFlat_cons, leaves_append,
        leaves_cons_sep, List.map_append, Multiset.map_add, ← Multiset.coe_add]
      ac_rfl

theorem sum_treePages {h : Nat} (kids : Kids Bytes (PageTree h)) :
    kids.sum treePages = (kids.sum Tree.inner).map Prod.fst +
      Multiset.ofList
        ((SearchTree.leaves (kids.flat Tree.tokens .sep)).map Leaf.page) := by
  simp only [Kids.sum, Kids.flat, frontSum_treePages, treePages, leaves_append,
    List.map_append, Multiset.map_add, ← Multiset.coe_add]
  ac_rfl

theorem pagesOf_le {h : Nat} (kids : Kids Bytes (PageTree h)) :
    Multiset.ofList (pagesOf (kids.map Tree.page)) ≤ kids.sum treePages := by
  have hfront (front : List (PageTree h × Bytes)) :
      Multiset.ofList (front.map fun x => x.1.page) ≤ Kids.frontSum treePages front := by
    induction front with
    | nil => exact le_rfl
    | cons x front ih =>
        rw [List.map_cons, ← Multiset.cons_coe, ← Multiset.singleton_add, Kids.frontSum_cons]
        exact add_le_add (page_le_treePages x.1) ih
  simp only [pagesOf, Kids.map, List.map_map, Function.comp_def, ← Multiset.coe_add, Kids.sum]
  exact add_le_add (hfront kids.front) (page_le_treePages kids.last)

@[simp] theorem branches_pages (inner : Multiset (PageNo × PageKids)) :
    (branches inner).map Prod.fst = inner.map Prod.fst := by
  simp [branches, branchAt, Function.comp_def]

@[simp] theorem chainOf_pages (ts : List PageToken) (stop : PageNo) :
    (chainOf ts stop).map Prod.fst =
      Multiset.ofList ((SearchTree.leaves ts).map Leaf.page) := by
  unfold chainOf
  generalize SearchTree.leaves ts = ls
  induction ls with
  | nil => rfl
  | cons l ls ih =>
      simp only [chain_cons, List.map_cons, ← Multiset.cons_coe, Multiset.map_cons, ih]
      rfl

theorem Owns.kids_nodup {c : PageNo} {st : Store} {h : Nat} {up : PageCtx (h + 1)} {p : PageNo}
    {kids : Kids Bytes (PageTree h)} {x : PageNo × Option Node} {F : Demand}
    (how : Owns c (x ::ₘ (around up p kids + F)) st) :
    (pagesOf (kids.map Tree.page)).Nodup := by
  have hle : kids.sum treePages ≤ (around up p kids + F).map Prod.fst := by
    rw [sum_treePages]
    refine Multiset.le_iff_exists_add.mpr ⟨(up.inner p).map Prod.fst +
      Multiset.ofList ((SearchTree.leaves up.before).map Leaf.page) +
      Multiset.ofList ((SearchTree.leaves up.after).map Leaf.page) + F.map Prod.fst, ?_⟩
    simp only [around, Multiset.map_add, branches_add, branches_pages, chainOf_pages,
      leaves_append, List.map_append, ← Multiset.coe_add]
    abel
  exact Multiset.coe_nodup.mp
    (Multiset.nodup_of_le ((pagesOf_le kids).trans hle) how.nodup_tail)

end ChocoBase.BTree
