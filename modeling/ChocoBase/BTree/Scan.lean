import ChocoBase.BTree.Lookup

/-!
# Scanning

A cursor stands before an entry of a leaf.  What it still has to yield is the rest
of that leaf and the leaves chained to it; a call of `next` takes the first entry
of that.
-/

namespace ChocoBase.BTree

open ChocoBase.Foundation ChocoBase.Storage
open SearchTree hiding entries leaves
open Exec (Post)

section Scan

variable {c : PageNo} {D F : Demand} {T : PageWhole} {root : PageNo} {st : Store}

/-- The leaves `ls` are chained from `next` on. -/
structure Chained (D : Demand) (next : PageNo) (ls : List PageLeaf) : Prop where
  next_eq : next = firstPage ls 0
  mem : ∀ x ∈ chain ls 0, leafAt x ∈ D

/-- The cursor has the entries `todo` still to yield, those of `ls` from later leaves. -/
inductive Yields (D : Demand) : Cursor → List PageLeaf → List (Bytes × Bytes) → Prop where
  | done {cursor : Cursor} (hfinished : cursor.finished = true) : Yields D cursor [] []
  | within {es : List (Bytes × Bytes)} {index : Nat} {next : PageNo} {ls : List PageLeaf}
      (hchained : Chained D next ls) :
      Yields D ⟨index, es.map toLeafEntry, next, false⟩ ls
        (es.drop index ++ ls.flatMap Leaf.entries)

theorem run_nextLoop (how : Owns c D st) {cursor : Cursor} {ls : List PageLeaf}
    {todo : List (Bytes × Bytes)} (hyields : Yields D cursor ls todo) {fuel : Nat}
    (hfuel : ls.length < fuel) {Q : Post Store BTreeError (Option (Bytes × Bytes) × Cursor)}
    (hok : ∀ cursor' ls', ls'.length ≤ ls.length → Yields D cursor' ls' todo.tail →
      Q.ok (todo.head?, cursor') st) :
    Run (cursor.nextLoop fuel) Q st := by
  induction ls generalizing cursor todo fuel with
  | nil =>
      obtain ⟨fuel, rfl⟩ : ∃ n, fuel = n + 1 := ⟨fuel - 1, by omega⟩
      cases hyields with
      | done hfinished =>
          rw [Cursor.nextLoop, if_pos hfinished]
          exact hok cursor [] le_rfl (.done hfinished)
      | @within es index next _ hchained =>
          obtain rfl : next = 0 := hchained.next_eq
          rw [Cursor.nextLoop, if_neg (by simp)]
          cases hentry : es[index]? with
          | none =>
              have hdrop : es.drop index = [] :=
                List.drop_eq_nil_of_le (List.getElem?_eq_none_iff.mp hentry)
              simp only [List.getElem?_map, hentry, Option.map_none, if_pos]
              rw [hdrop] at hok
              exact hok _ [] le_rfl (.done rfl)
          | some e =>
              have hdrop : es.drop index = e :: es.drop (index + 1) := by
                obtain ⟨hlt, rfl⟩ := List.getElem?_eq_some_iff.mp hentry
                exact List.drop_eq_getElem_cons hlt
              simp only [List.getElem?_map, hentry, Option.map_some]
              rw [hdrop] at hok
              exact hok _ [] le_rfl (.within hchained)
  | cons l ls ih =>
      obtain ⟨fuel, rfl⟩ : ∃ n, fuel = n + 1 := ⟨fuel - 1, by omega⟩
      cases hyields with
      | @within es index next _ hchained =>
          obtain rfl : next = l.page := hchained.next_eq
          rw [Cursor.nextLoop, if_neg (by simp)]
          cases hentry : es[index]? with
          | none =>
              have hdrop : es.drop index = [] :=
                List.drop_eq_nil_of_le (List.getElem?_eq_none_iff.mp hentry)
              have hmem := hchained.mem _ (List.mem_cons_self ..)
              have hrest : Chained D (firstPage ls 0) ls :=
                ⟨rfl, fun x hx => hchained.mem x (List.mem_cons_of_mem _ hx)⟩
              simp only [List.getElem?_map, hentry, Option.map_none]
              rw [if_neg (how.ne_zero hmem)]
              refine .step (run_readLeaf how hmem ?_)
              rw [hdrop] at hok
              exact ih (@Yields.within D _ 0 _ _ hrest) (by simpa using hfuel) fun cursor' ls' hlen h =>
                hok cursor' ls' (Nat.le_succ_of_le hlen) h
          | some e =>
              have hdrop : es.drop index = e :: es.drop (index + 1) := by
                obtain ⟨hlt, rfl⟩ := List.getElem?_eq_some_iff.mp hentry
                exact List.drop_eq_getElem_cons hlt
              simp only [List.getElem?_map, hentry, Option.map_some]
              rw [hdrop] at hok
              exact hok _ (l :: ls) le_rfl (.within hchained)

/-- The answers of `count` calls to a cursor that has `todo` to yield. -/
def firstAnswers (count : Nat) (todo : List (Bytes × Bytes)) : List (Option (Bytes × Bytes)) :=
  (List.range count).map fun i => todo[i]?

theorem run_nexts (how : Owns c D st) (count : Nat) {cursor : Cursor} {ls : List PageLeaf}
    {todo : List (Bytes × Bytes)} (hyields : Yields D cursor ls todo)
    (hlen : ls.length ≤ maxPages) {Q : Post Store BTreeError (List (Option (Bytes × Bytes)))}
    (hok : Q.ok (firstAnswers count todo) st) : Run (cursor.nexts count) Q st := by
  induction count generalizing cursor ls todo Q with
  | zero => exact hok
  | succ count ih =>
      refine .step (run_nextLoop how hyields (Nat.lt_succ_of_le hlen) fun cursor' ls' hle h => ?_)
      refine .step (ih h (hle.trans hlen) ?_)
      have hanswers : firstAnswers (count + 1) todo =
          todo.head? :: firstAnswers count todo.tail := by
        simp only [firstAnswers, List.range_succ_eq_map, List.map_cons, List.map_map]
        cases todo <;> simp [Function.comp_def]
      rw [hanswers] at hok
      exact hok

/-! ## Opening a cursor -/

/-- The cursor at an entry of a leaf has the later leaves ahead of it. -/
theorem yields_of_plug {ctx : PageCtx 0} {l : PageLeaf}
    (how : Owns c (treeDemand (ctx.plug (.ofLeaf l)) + F) st) (index : Nat) :
    let ls := SearchTree.leaves ctx.after
    Yields (treeDemand (ctx.plug (.ofLeaf l)) + F)
        (Cursor.fromLeaf (.ofEntries l.entries (firstPage ls 0)) index) ls
        (l.entries.drop index ++ SearchTree.entries ctx.after) ∧
      ls.length ≤ maxPages := by
  intro ls
  constructor
  · refine .within ⟨rfl, fun x hx => ?_⟩
    have hmem : leafAt x ∈ chainOf ctx.after 0 := by
      rw [chainOf, Multiset.mem_coe]
      exact List.mem_map_of_mem hx
    simp [treeDemand, Ctx.tokens_plug, hmem]
  · have hcard : ls.length ≤ (treePages (ctx.plug (.ofLeaf l)).2).card := by
      simp only [treePages, Multiset.card_add, Multiset.coe_card, Ctx.tokens_plug, leaves_append,
        List.length_map, List.length_append, ls]
      omega
    exact hcard.trans how.card_le

theorem partitionPoint_eq (es : List (Bytes × Bytes)) (key : Bytes) :
    partitionPoint (es.map toLeafEntry) key = (es.takeWhile fun e => e.1 < key).length := by
  rw [partitionPoint, List.takeWhile_map, List.length_map]
  rfl

theorem run_leftmostLoop {h : Nat} (t : PageTree h) (ctx : PageCtx h) {fuel : Nat}
    (hfuel : h < fuel) (how : Owns c (treeDemand (ctx.plug t) + F) st)
    (hbefore : ctx.before = []) {Q : Post Store BTreeError PageNo}
    (hok : ∀ (ctx' : PageCtx 0) (l : PageLeaf), ctx'.plug (.ofLeaf l) = ctx.plug t →
      ctx'.before = [] → Q.ok l.page st) :
    Run (leftmostLoop fuel t.page) Q st := by
  induction h generalizing fuel with
  | zero =>
      obtain ⟨l, ht⟩ := t.exists_ofLeaf
      obtain ⟨fuel, rfl⟩ : ∃ n, fuel = n + 1 := ⟨fuel - 1, by omega⟩
      rw [ht] at how hok ⊢
      refine .step (run_getPage how (leafAt_mem F) fun page hpage => ?_)
      simp only [Post.withOk_ok, if_pos (Node.decode_eq_leaf.mp hpage).1]
      exact hok ctx l rfl hbefore
  | succ h ih =>
      obtain ⟨p, ⟨front, last⟩, ht⟩ := t.exists_branch
      obtain ⟨fuel, rfl⟩ : ∃ n, fuel = n + 1 := ⟨fuel - 1, by omega⟩
      rw [ht] at how hok ⊢
      refine .step (run_getPage how (branchAt_mem F) fun page hpage => ?_)
      obtain ⟨htype, hdecode⟩ := Node.decode_eq_internal.mp hpage
      have hleaf : page.pageType ≠ pageTypeLeaf := by
        rw [htype]
        decide
      simp only [Post.withOk_ok, if_neg hleaf, if_pos htype]
      refine .step (run_unwrap hdecode ?_)
      cases front with
      | nil =>
          exact ih last (.under p (.outer []) ctx) (by omega) how (by simp [Ctx.before, hbefore,
            Frame.leftFlat, Frame.left]) hok
      | cons x front =>
          exact ih x.1 (.under p (.inner [] x.2 ⟨front, last⟩) ctx) (by omega) how
            (by simp [Ctx.before, hbefore, Frame.leftFlat, Frame.left]) hok

/-- What a cursor over the tree `T` still has to yield. -/
def Ahead (T : PageWhole) (F : Demand) (cursor : Cursor) (todo : List (Bytes × Bytes)) : Prop :=
  ∃ ls, Yields (treeDemand T + F) cursor ls todo ∧ ls.length ≤ maxPages

theorem run_cursorStart (hT : Represents c F T root st) {Q : Post Store BTreeError Cursor}
    (hok : ∀ cursor, Ahead T F cursor (toMap _ hT.sorted).entries → Q.ok cursor st) :
    Run (cursorStart root) Q st := by
  refine .step (hT.page ▸ run_leftmostLoop T.2 .top hT.owns.height_lt hT.owns rfl
    fun ctx l hplug hbefore => ?_)
  have hplug : ctx.plug (.ofLeaf l) = T := hplug
  subst hplug
  refine .step (run_readLeaf hT.owns (leafAt_mem F) (hok _ ⟨_, ?_, (yields_of_plug hT.owns 0).2⟩))
  have hentries : (toMap _ hT.sorted).entries =
      l.entries.drop 0 ++ SearchTree.entries ctx.after := by
    simp [toMap, Ctx.tokens_plug, hbefore]
  exact hentries ▸ (yields_of_plug hT.owns 0).1

theorem run_cursorSeek (hT : Represents c F T root st) (key : Bytes)
    {Q : Post Store BTreeError Cursor}
    (hok : ∀ cursor, Ahead T F cursor ((toMap _ hT.sorted).from key) → Q.ok cursor st) :
    Run (cursorSeek root key) Q st := by
  refine .step (run_descend hT key fun ctx l hleads => ?_)
  obtain ⟨rfl, hroutes, -⟩ := hleads
  obtain ⟨hyields, hlen⟩ := yields_of_plug hT.owns
    (partitionPoint (l.entries.map toLeafEntry) key)
  refine .step (run_readLeaf hT.owns (leafAt_mem F) (hok _ ⟨_, ?_, hlen⟩))
  obtain ⟨hbefore, hafter⟩ := entries_lt_of_routes hroutes
  have hfrom : (toMap _ hT.sorted).from key =
      l.entries.drop (partitionPoint (l.entries.map toLeafEntry) key) ++
        SearchTree.entries ctx.after := by
    have hentries : (toMap _ hT.sorted).entries =
        SearchTree.entries ctx.before ++ l.entries ++ SearchTree.entries ctx.after := by
      simp [toMap, Ctx.tokens_plug]
    have hdrop := @OrdMap.drop_takeWhile_lt _ _ _ l.entries key (leafMap hT.sorted).sorted
      (fun e => e.1 < key) (by simp)
    rw [OrdMap.from, hentries, OrdMap.filter_ge_append hbefore hafter, partitionPoint_eq, hdrop]
  exact hfrom ▸ hyields

/-- A scan from the start yields every entry, in order. -/
theorem run_scanStart (hT : Represents c F T root st) (count : Nat)
    {Q : Post Store BTreeError (List (Option (Bytes × Bytes)))}
    (hok : Q.ok (firstAnswers count (toMap _ hT.sorted).entries) st) :
    Run (cursorStart root >>= fun cursor => cursor.nexts count) Q st :=
  .step (run_cursorStart hT fun _ ⟨_, hyields, hlen⟩ => run_nexts hT.owns count hyields hlen hok)

/-- A scan from a key yields the entries from that key on, in order. -/
theorem run_scanSeek (hT : Represents c F T root st) (key : Bytes) (count : Nat)
    {Q : Post Store BTreeError (List (Option (Bytes × Bytes)))}
    (hok : Q.ok (firstAnswers count ((toMap _ hT.sorted).from key)) st) :
    Run (cursorSeek root key >>= fun cursor => cursor.nexts count) Q st :=
  .step (run_cursorSeek hT key fun _ ⟨_, hyields, hlen⟩ =>
    run_nexts hT.owns count hyields hlen hok)

end Scan

end ChocoBase.BTree
