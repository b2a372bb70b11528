import ChocoBase.BTree.Forest
import ChocoBase.Engine.Requests
import Mathlib.Algebra.Order.BigOperators.Group.List

/-!
# Trees as a whole

Freeing a tree gives back all its pages.  A cursor that is drained yields all
entries from where it stands, and reading leaves the pages as they are.
-/

namespace ChocoBase.Engine

open ChocoBase.Foundation ChocoBase.Storage ChocoBase.BTree
open SearchTree hiding entries leaves
open Exec (Post)

section Free

variable {c : PageNo} {F : Demand} {st : Store}

private theorem run_freeEach {h : Nat} {free : PageNo → PageProg BTreeError Unit}
    (hfree : ∀ (t : PageTree h) (stop : PageNo) (F : Demand) (st : Store),
      Owns c (branches t.inner + chainOf t.tokens stop + F) st →
        Run (free t.page) (Ends fun _ st' => Owns c F st') st)
    (front : List (PageTree h × Bytes)) (last : PageTree h) (stop : PageNo)
    (how : Owns c (branches ((⟨front, last⟩ : Kids Bytes (PageTree h)).sum Tree.inner) +
      chainOf ((⟨front, last⟩ : Kids Bytes (PageTree h)).flat Tree.tokens .sep) stop + F) st) :
    Run (freeEach free (front.map (fun x => x.1.page) ++ [last.page]))
      (Ends fun _ st' => Owns c F st') st := by
  induction front generalizing st with
  | nil =>
      refine .bind (hfree last stop F st ?_) fun _ st' h' => h'
      simpa [Kids.sum, Kids.flat] using how
  | cons x front ih =>
      obtain ⟨t, s⟩ := x
      simp only [Kids.sum, Kids.flat, Kids.frontSum_cons, Kids.frontFlat_cons] at how ih
      let rest := Kids.frontFlat Tree.tokens .sep front ++ last.tokens
      let others : Demand :=
        branches (Kids.frontSum Tree.inner front + last.inner) + chainOf rest stop + F
      refine Run.bind (P := fun _ st' => Owns c others st')
        (hfree t (firstPage (SearchTree.leaves rest) stop) others st (how.of_eq ?_))
        fun _ st' h' => ih h'
      simp only [others, rest, branches_add, List.append_assoc, List.cons_append, chainOf_append,
        chainOf_sep, leaves_cons_sep]
      abel

/-- Freeing a tree gives all its pages back. -/
theorem run_walkAndFree {h : Nat} (t : PageTree h) (stop : PageNo) {fuel : Nat} (hfuel : h < fuel)
    (how : Owns c (branches t.inner + chainOf t.tokens stop + F) st) :
    Run (walkAndFree fuel t.page) (Ends fun _ st' => Owns c F st') st := by
  induction h generalizing fuel stop F st with
  | zero =>
      obtain ⟨l, ht⟩ := t.exists_ofLeaf
      obtain ⟨fuel, rfl⟩ : ∃ n, fuel = n + 1 := ⟨fuel - 1, by omega⟩
      rw [ht] at how ⊢
      have how : Owns c (leafAt (l.page, l.entries, stop) ::ₘ F) st := how.of_eq (by simp)
      refine .step (run_getPage how (Multiset.mem_cons_self _ _) fun page hpage => ?_)
      have hleaf := (Node.decode_eq_leaf.mp hpage).1
      simp only [Post.withOk_ok, hleaf]
      rw [if_neg (by decide), if_neg (by simp)]
      exact run_freePage how fun st' h' => h'
  | succ h ih =>
      obtain ⟨no, ⟨front, last⟩, ht⟩ := t.exists_branch
      obtain ⟨fuel, rfl⟩ : ∃ n, fuel = n + 1 := ⟨fuel - 1, by omega⟩
      rw [ht] at how ⊢
      rw [Tree.inner_branch, Tree.tokens_branch, branches_cons, Multiset.cons_add,
        Multiset.cons_add] at how
      refine .step (run_getPage how (Multiset.mem_cons_self _ _) fun page hpage => ?_)
      obtain ⟨htype, hdecode⟩ := Node.decode_eq_internal.mp hpage
      simp only [Post.withOk_ok]
      rw [if_pos htype]
      refine .step (run_unwrap hdecode ?_)
      have hchildren : (InternalNode.ofKids ((⟨front, last⟩ : Kids Bytes (PageTree h)).map
          Tree.page)).children = front.map (fun x => x.1.page) ++ [last.page] := by
        simp [InternalNode.children, InternalNode.ofKids, Kids.map, toEntry, Function.comp_def]
      rw [Post.withOk_ok, hchildren]
      let rest : Demand := branchAt (no, (⟨front, last⟩ : Kids Bytes (PageTree h)).map Tree.page) ::ₘ F
      refine Run.bind (P := fun _ st' => Owns c rest st')
        (run_freeEach (fun t stop F st how => ih t stop (by omega) how) front last stop
          (how.of_eq ?_)) fun _ st' h' => run_freePage h' fun st'' h'' => h''
      simp only [rest, ← Multiset.singleton_add]
      abel

theorem Plants.run_walkAndFree {f : Roots} {tidy : Bool} {root : PageNo}
    {m : OrdMap Bytes Bytes} (h : Plants c f tidy st) (hroot : f root = some m) :
    Run (walkAndFree maxPages root) (Ends fun _ st' => Plants c (f.fell root) tidy st') st := by
  obtain ⟨F, T, ⟨hT, -⟩, hstocks⟩ := h.uproot hroot
  rw [← hT.page]
  exact Run.mono (Engine.run_walkAndFree T.2 0 hT.owns.height_lt hT.owns)
    fun _ st' h' => ⟨F, h', hT.page ▸ hstocks⟩

end Free

/-! ## Reading -/

section Read

variable {base : List Page} {start : Os} {active : Bool} {p : Pager} {st : Store} {ε α : Type}

/-- A program that only reads leaves the pages, and what is not dirty, as they are. -/
theorem read_onPager {x : PageProg ε α} (h : Holds base start active p st) (hreading : Reading x)
    {P : α → Prop} (hx : Run x ⟨fun a _ => P a, fun _ _ => False, fun _ _ => False⟩ st) :
    ∃ a p', x.run PageRequest.onPager p = (.ok a, p') ∧ P a ∧ Holds base start active p' st ∧
      p'.dirty ⊆ p.dirty := by
  induction x generalizing p with
  | pure a => exact ⟨a, p, rfl, hx, h, Finset.Subset.refl _⟩
  | throw reason => exact hx.elim
  | halt why => exact hx.elim
  | call op next ih =>
      obtain ⟨hop, hnext⟩ := hreading
      cases op with
      | getPage no =>
          have hx := hx trivial
          cases hpage : st.page no with
          | none =>
              have hresult : PageRequest.onStore (.getPage no) st = (.stop .misuse, st) := by
                simp [PageRequest.onStore, hpage]
              rw [hresult] at hx
              exact hx.elim
          | some page =>
              have hresult : PageRequest.onStore (.getPage no) st = (.ok page, st) := by
                simp [PageRequest.onStore, hpage]
              rw [hresult] at hx
              obtain ⟨houtcome, hholds⟩ := onPager_simulates (.getPage no) p st h (by simp [hresult])
              rw [hresult] at houtcome hholds
              have hrun : PageRequest.onPager (.getPage no) p =
                  (.ok page, (PageRequest.onPager (.getPage no) p).2) := Prod.ext houtcome rfl
              have hdirty := (Exec.wp_ok (Pager.wp_getPage h.models.coherent
                (h.models.pages no page hpage).1) hrun).1.dirty
              obtain ⟨a, p', hrest, hP, hholds', hdirty'⟩ := ih _ hholds (hnext _) hx
              refine ⟨a, p', ?_, hP, hholds', hdirty'.trans hdirty⟩
              unfold Prog.run
              rw [hrun]
              exact hrest
      | encodeInto no node => exact hop.elim
      | allocatePage => exact hop.elim
      | freePage no => exact hop.elim
      | catalogRoot => exact hop.elim
      | setCatalogRoot root => exact hop.elim

variable {c root : PageNo} {F : Demand} {T : PageWhole}

/-- A leaf has fewer than `2 ^ 16` entries, and there are at most `2 ^ 32` leaves. -/
theorem entries_lt_maxEntries (how : Owns c (treeDemand T + F) st) :
    (SearchTree.entries T.2.tokens).length < maxEntries := by
  have hleaf : ∀ l ∈ SearchTree.leaves T.2.tokens, l.entries.length ≤ 2 ^ 16 - 1 := by
    intro l hl
    obtain ⟨next, hmem⟩ : ∃ next, (l.page, l.entries, next) ∈
        chain (SearchTree.leaves T.2.tokens) (0 : PageNo) := by
      generalize SearchTree.leaves T.2.tokens = ls at hl
      induction ls with
      | nil => cases hl
      | cons l' ls ih =>
          cases List.mem_cons.mp hl with
          | inl heq => exact ⟨_, by rw [heq, chain_cons]; exact List.mem_cons_self⟩
          | inr hl =>
              obtain ⟨next, hmem⟩ := ih hl
              exact ⟨next, by rw [chain_cons]; exact List.mem_cons_of_mem _ hmem⟩
    have hdemand : leafAt (l.page, l.entries, next) ∈ treeDemand T + F := by
      refine Multiset.mem_add.mpr (.inl (Multiset.mem_add.mpr (.inr ?_)))
      exact Multiset.mem_coe.mpr (List.mem_map_of_mem hmem)
    obtain ⟨page, -, hdecode⟩ := Option.bind_eq_some_iff.mp (how.node _ _ hdemand)
    obtain ⟨⟨entries, link⟩, hcells, heq⟩ :=
      Option.map_eq_some_iff.mp (Node.decode_eq_leaf.mp hdecode).2
    have hlen := decodeNode_length_lt _ hcells
    have hsame : entries = l.entries.map toLeafEntry := congrArg LeafNode.entries heq
    rw [hsame, List.length_map] at hlen
    omega
  have hleaves : (SearchTree.leaves T.2.tokens).length ≤ maxPages := by
    refine le_trans ?_ how.card_le
    simp [treePages]
  have hsum := List.length_flatMap (l := SearchTree.leaves T.2.tokens) (f := Leaf.entries)
  have hle := List.sum_le_card_nsmul ((SearchTree.leaves T.2.tokens).map fun l => l.entries.length)
    (2 ^ 16 - 1) (by simpa using hleaf)
  rw [SearchTree.entries, hsum]
  rw [List.length_map, nsmul_eq_mul, Nat.cast_id] at hle
  unfold maxPages at hleaves
  unfold maxEntries
  omega

theorem drain_eq (h : Holds base start active p st) (how : Owns c (treeDemand T + F) st)
    {cursor : Cursor} {todo : List (Bytes × Bytes)} (hahead : Ahead T F cursor todo) {fuel : Nat}
    (hfuel : todo.length < fuel) :
    ∃ p', drain fuel cursor p = (.ok ⟨todo, .ok ()⟩, p') ∧ Holds base start active p' st ∧
      p'.dirty ⊆ p.dirty := by
  induction fuel generalizing cursor todo p with
  | zero => omega
  | succ fuel ih =>
      obtain ⟨ls, hyields, hlen⟩ := hahead
      have hnext : Run cursor.next ⟨fun x _ => x.1 = todo.head? ∧ Ahead T F x.2 todo.tail,
          fun _ _ => False, fun _ _ => False⟩ st :=
        run_nextLoop how hyields (Nat.lt_succ_of_le hlen) fun cursor' ls' hle h =>
          ⟨rfl, ls', h, hle.trans hlen⟩
      obtain ⟨⟨entry, cursor'⟩, p₁, hrun, ⟨rfl, hahead'⟩, hholds, hdirty⟩ :=
        read_onPager h (show Reading cursor.next from reading_nextLoop _ _) hnext
      cases todo with
      | nil =>
          refine ⟨p₁, ?_, hholds, hdirty⟩
          simp [drain, Exec.bind_apply, Exec.capture, hrun]
      | cons e todo =>
          obtain ⟨p₂, hrest, hholds', hdirty'⟩ := ih hholds hahead' (by simpa using hfuel)
          refine ⟨p₂, ?_, hholds', hdirty'.trans hdirty⟩
          rw [drain]
          simp only [Exec.bind_apply, Exec.capture, hrun, List.head?_cons, hrest]
          rfl

/-- Opening a cursor and draining it yields what lies ahead of it. -/
theorem scanWith_eq (h : Holds base start active p st) (hT : Represents c F T root st)
    {open' : PageProg BTreeError Cursor} (hreading : Reading open') {todo : List (Bytes × Bytes)}
    (hsub : todo.length ≤ (SearchTree.entries T.2.tokens).length)
    (hopen : Run open' ⟨fun cursor _ => Ahead T F cursor todo, fun _ _ => False,
      fun _ _ => False⟩ st) :
    ∃ p', scanWith open' p = (.ok ⟨todo, .ok ()⟩, p') ∧ Holds base start active p' st ∧
      p'.dirty ⊆ p.dirty := by
  obtain ⟨cursor, p₁, hrun, hahead, hholds, hdirty⟩ := read_onPager h hreading hopen
  obtain ⟨p₂, hdrain, hholds', hdirty'⟩ :=
    drain_eq hholds hT.owns hahead (hsub.trans_lt (entries_lt_maxEntries hT.owns))
  refine ⟨p₂, ?_, hholds', hdirty'.trans hdirty⟩
  simp [scanWith, Exec.bind_apply, Exec.capture, hrun, hdrain]

end Read

end ChocoBase.Engine
