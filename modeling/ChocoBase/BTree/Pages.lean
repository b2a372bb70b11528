import ChocoBase.BTree.Node
import ChocoBase.Storage.Store
import ChocoBase.Foundation.Prog
import Mathlib.Data.Multiset.AddSub

/-!
# Nodes in the pager

The tree code reaches its pages through a few pager calls.  `PageRequest` lists
them; the pager answers them, and so does the store of pages the pager stands for.

`Owns` describes the part of a store that a structure lives in: a collection of
pages, no page twice, each holding a node.
-/

namespace ChocoBase.BTree

open ChocoBase.Foundation ChocoBase.Storage
open Exec (Post)

inductive PageRequest where
  | getPage (no : PageNo)
  /-- `node.encode(pager.get_page_mut(no)?)` -/
  | encodeInto (no : PageNo) (node : Node)
  | allocatePage
  | freePage (no : PageNo)
  | catalogRoot
  | setCatalogRoot (root : PageNo)

namespace PageRequest

def Res : PageRequest → Type
  | .getPage _ => Page
  | .encodeInto _ _ => Unit
  | .allocatePage => PageNo
  | .freePage _ => Unit
  | .catalogRoot => PageNo
  | .setCatalogRoot _ => Unit

end PageRequest

def pageRequests : Interface where
  Op := PageRequest
  Res := PageRequest.Res
  Err := StorageError

abbrev PageProg (ε α : Type) : Type := Prog pageRequests ε α

namespace PageRequest

def onPager : Handler pageRequests Pager
  | .getPage no => Pager.getPage no
  | .encodeInto no node => Pager.getPageMut no fun _ => node.encode
  | .allocatePage => Pager.allocatePage
  | .freePage no => Pager.freePage no
  | .catalogRoot => Pager.catalogRoot
  | .setCatalogRoot root => Pager.setCatalogRoot root

/-- The answers of a store; requests about pages not in use have no meaning. -/
def onStore : Handler pageRequests Store
  | .getPage no => fun st =>
      match st.page no with
      | some page => (.ok page, st)
      | none => (.stop .misuse, st)
  | .encodeInto no node => fun st =>
      match st.page no, node.encode with
      | some _, some page => (.ok (), { st with page := Function.update st.page no (some page) })
      | _, _ => (.stop .misuse, st)
  | .allocatePage => fun st =>
      match st.allocate with
      | some (no, st') => (.ok no, st')
      | none => (.stop .overflow, st)
  | .freePage no => fun st =>
      match st.page no with
      | some _ => (.ok (), { st with
          page := Function.update st.page no none
          free := no :: st.free })
      | none => (.stop .misuse, st)
  | .catalogRoot => fun st => (.ok st.catalogRoot, st)
  | .setCatalogRoot root => fun st => (.ok (), { st with catalogRoot := root })

/-- A node that is written has room on a page. -/
def Fits : PageRequest → Prop
  | .encodeInto _ node => node.encodedSize ≤ pageSize
  | _ => True

end PageRequest

/-! ## The pager answers as the store does -/

section Simulation

variable {base : List Page} {start : Os} {active : Bool}

/-- A pager in a known transaction state that holds the pages of a store. -/
structure Holds (base : List Page) (start : Os) (active : Bool) (p : Pager) (st : Store) :
    Prop where
  models : Models p st
  guarded : p.Guarded base start active

private theorem answers {ε α β : Type} {x : Exec Pager ε α} {f : α → β} {value : α} {p : Pager}
    {st : Store} (hf : Function.Injective f)
    (h : Exec.wp (x >>= fun a => pure (f a))
      ⟨fun r p' => r = f value ∧ Models p' st ∧ p'.Guarded base start active,
        fun _ _ => False, fun _ _ => False⟩ p) :
    (x p).1 = .ok value ∧ Holds base start active (x p).2 st := by
  rw [Exec.wp_bind] at h
  obtain ⟨a, p', heq, ha, hmodels, hguarded⟩ := Exec.exists_of_wp h
  obtain rfl := hf ha
  rw [heq]
  exact ⟨rfl, hmodels, hguarded⟩

private theorem done_injective : Function.Injective fun _ : Unit => Response.done :=
  fun _ _ _ => rfl

/-- Allocation fails alike: there is no free page and no further page number. -/
theorem wp_allocatePage_full {p : Pager} {st : Store} (h : Holds base start active p st)
    (hst : st.allocate = none) :
    Exec.wp Pager.allocatePage
      ⟨fun _ _ => False, fun _ _ => False,
        fun why p' => why = .overflow ∧ Holds base start active p' st⟩ p := by
  have hfree : st.free = [] := by
    unfold Store.allocate at hst
    cases hfree : st.free with
    | nil => rfl
    | cons no rest => simp [hfree] at hst
  have hchain := h.models.chain
  rw [hfree] at hchain
  refine Exec.wp_mono (Pager.wp_allocatePage h.guarded) ?_ ?_ ?_
  · rintro no p' ⟨hkeeps, hno, hallocated, hzeroed, hcontent⟩
    obtain ⟨st', hst', -⟩ := h.models.allocated (hkeeps.settled h.models.settled)
      hkeeps.guarded.coherent hno hallocated hzeroed hcontent
    simp [hst] at hst'
  · exact fun _ p' h' => (h'.2 h.models.settled).1 hchain
  · rintro why p' ⟨hkeeps, hwhy, -, -, hheader, hcontent⟩
    exact ⟨hwhy, h.models.of_same (hkeeps.settled h.models.settled) hkeeps.guarded.coherent
      hheader hcontent, hkeeps.guarded⟩

theorem onPager_simulates :
    Prog.Simulates (Holds base start active) PageRequest.onPager PageRequest.onStore := by
  intro op p st h hdefined
  have perform (op : PagerOp) {response : Response} {st' : Store} :=
    @wp_perform_models base start active p st h.models h.guarded op response st'
  cases op with
  | getPage no =>
      cases hpage : st.page no with
      | none => simp [PageRequest.onStore, hpage] at hdefined
      | some page =>
          have hresult : PageRequest.onStore (.getPage no) st = (.ok page, st) := by
            simp [PageRequest.onStore, hpage]
          rw [hresult]
          exact answers (fun _ _ => Response.page.inj)
            (perform (.getPage no) (by simp [Store.perform, hpage]))
  | encodeInto no node =>
      cases hpage : st.page no with
      | none => simp [PageRequest.onStore, hpage] at hdefined
      | some page =>
          cases hencode : node.encode with
          | none => simp [PageRequest.onStore, hpage, hencode] at hdefined
          | some image =>
              have hresult : PageRequest.onStore (.encodeInto no node) st =
                  (.ok (), { st with page := Function.update st.page no (some image) }) := by
                simp [PageRequest.onStore, hpage, hencode]
              rw [hresult]
              exact answers done_injective
                (perform (.getPageMut no fun _ => node.encode)
                  (by simp [Store.perform, hpage, hencode]))
  | allocatePage =>
      cases hst : st.allocate with
      | none =>
          have hresult : PageRequest.onStore .allocatePage st = (.stop .overflow, st) := by
            simp [PageRequest.onStore, hst]
          rw [hresult]
          have hfull := wp_allocatePage_full h hst
          change (Pager.allocatePage p).1 = _ ∧ Holds base start active (Pager.allocatePage p).2 _
          unfold Exec.wp at hfull
          rcases hresult : Pager.allocatePage p with ⟨_ | _ | why, p'⟩ <;>
            simp only [hresult] at hfull
          exact ⟨congrArg _ hfull.1, hfull.2⟩
      | some result =>
          obtain ⟨no, st'⟩ := result
          have hresult : PageRequest.onStore .allocatePage st = (.ok no, st') := by
            simp [PageRequest.onStore, hst]
          rw [hresult]
          exact answers (fun _ _ => Response.allocated.inj)
            (perform .allocatePage (by simp [Store.perform, hst]))
  | freePage no =>
      cases hpage : st.page no with
      | none => simp [PageRequest.onStore, hpage] at hdefined
      | some page =>
          have hresult : PageRequest.onStore (.freePage no) st = (.ok (), { st with
              page := Function.update st.page no none
              free := no :: st.free }) := by
            simp [PageRequest.onStore, hpage]
          rw [hresult]
          exact answers done_injective
            (perform (.freePage no) (by simp [Store.perform, hpage]))
  | catalogRoot => exact ⟨congrArg _ h.models.catalogRoot, h⟩
  | setCatalogRoot root =>
      exact answers done_injective (perform (.setCatalogRoot root) rfl)

end Simulation

/-! ## Pages that hold nodes -/

end ChocoBase.BTree

namespace ChocoBase.Storage

/-- The node a page in use holds. -/
def Store.node (st : Store) (no : PageNo) : Option BTree.Node :=
  (st.page no).bind BTree.Node.decode

end ChocoBase.Storage

namespace ChocoBase.BTree

open ChocoBase.Foundation ChocoBase.Storage
open Exec (Post)

/-- A page in use, and the node it holds if that is known. -/
abbrev Demand : Type := Multiset (PageNo × Option Node)

/-- The pages of `demand` are those in use, all different, and hold the given nodes. -/
structure Owns (catalogRoot : PageNo) (demand : Demand) (st : Store) : Prop where
  wf : st.Wf
  catalogRoot : st.catalogRoot = catalogRoot
  nodup : (demand.map Prod.fst).Nodup
  used : ∀ x ∈ demand, st.page x.1 ≠ none
  node : ∀ no node, (no, some node) ∈ demand → st.node no = some node
  all : ∀ no, st.page no ≠ none → no ∈ demand.map Prod.fst

namespace Owns

variable {c : PageNo} {D : Demand} {st st' : Store} {no : PageNo} {n : Option Node} {node : Node}

theorem ne_zero (h : Owns c D st) (hmem : (no, n) ∈ D) : no ≠ 0 := fun heq =>
  h.used _ hmem (heq ▸ h.wf.zero.1)

theorem of_eq {D' : Demand} (h : Owns c D st) (heq : D = D') : Owns c D' st := heq ▸ h

theorem ne_of_mem (h : Owns c ((no, n) ::ₘ D) st) {no' : PageNo} {n' : Option Node}
    (hmem : (no', n') ∈ D) : no' ≠ no := by
  have hnodup := h.nodup
  rw [Multiset.map_cons, Multiset.nodup_cons] at hnodup
  exact fun heq => hnodup.1 (heq ▸ Multiset.mem_map.mpr ⟨_, hmem, rfl⟩)

theorem not_mem (h : Owns c ((no, n) ::ₘ D) st) : no ∉ D.map Prod.fst := by
  have hnodup := h.nodup
  rw [Multiset.map_cons, Multiset.nodup_cons] at hnodup
  exact hnodup.1

/-- Keep a page without a claim about the node it holds. -/
theorem forget (h : Owns c ((no, n) ::ₘ D) st) : Owns c ((no, none) ::ₘ D) st where
  wf := h.wf
  catalogRoot := h.catalogRoot
  nodup := by simpa using h.nodup
  used x hx := by
    cases Multiset.mem_cons.mp hx with
    | inl heq => exact heq ▸ h.used (no, n) (Multiset.mem_cons_self _ _)
    | inr hx => exact h.used x (Multiset.mem_cons_of_mem hx)
  node no' node' hx := by
    cases Multiset.mem_cons.mp hx with
    | inl heq => simp at heq
    | inr hx => exact h.node no' node' (Multiset.mem_cons_of_mem hx)
  all := by simpa using h.all

theorem nodup_tail (h : Owns c ((no, n) ::ₘ D) st) : (D.map Prod.fst).Nodup := by
  have hnodup := h.nodup
  rw [Multiset.map_cons, Multiset.nodup_cons] at hnodup
  exact hnodup.2

/-- Writing one page leaves the others as they are. -/
theorem put (h : Owns c ((no, n) ::ₘ D) st) {page : Page} (hpage : Node.decode page = some node) :
    Owns c ((no, some node) ::ₘ D) { st with page := Function.update st.page no (some page) } where
  wf := h.wf.write (h.used _ (Multiset.mem_cons_self _ _)) page
  catalogRoot := h.catalogRoot
  nodup := by simpa using h.nodup
  used x hx := by
    by_cases heq : x.1 = no
    · simp [heq]
    · simp only [Function.update_of_ne heq]
      cases Multiset.mem_cons.mp hx with
      | inl hx => exact absurd (congrArg Prod.fst hx) heq
      | inr hx => exact h.used x (Multiset.mem_cons_of_mem hx)
  node no' node' hx := by
    cases Multiset.mem_cons.mp hx with
    | inl heq =>
        obtain ⟨rfl, ⟨⟩⟩ := Prod.mk.inj heq
        simp [Store.node, hpage]
    | inr hx =>
        simp only [Store.node, Function.update_of_ne (h.ne_of_mem hx)]
        exact h.node no' node' (Multiset.mem_cons_of_mem hx)
  all no' hused := by
    rw [Multiset.map_cons, Multiset.mem_cons]
    by_cases heq : no' = no
    · exact .inl heq
    · simp only [Function.update_of_ne heq] at hused
      simpa [heq] using h.all no' hused

theorem release (h : Owns c ((no, n) ::ₘ D) st) :
    Owns c D { st with page := Function.update st.page no none, free := no :: st.free } where
  wf := h.wf.release (h.used _ (Multiset.mem_cons_self _ _))
  catalogRoot := h.catalogRoot
  nodup := h.nodup_tail
  used x hx := by
    simp only [Function.update_of_ne (h.ne_of_mem hx)]
    exact h.used x (Multiset.mem_cons_of_mem hx)
  node no' node' hx := by
    simp only [Store.node, Function.update_of_ne (h.ne_of_mem hx)]
    exact h.node no' node' (Multiset.mem_cons_of_mem hx)
  all no' hused := by
    by_cases heq : no' = no
    · simp [heq] at hused
    · simp only [Function.update_of_ne heq] at hused
      simpa [heq] using h.all no' hused

theorem withCatalogRoot (h : Owns c D st) (root : PageNo) :
    Owns root D { st with catalogRoot := root } where
  wf := { h.wf with }
  catalogRoot := rfl
  nodup := h.nodup
  used := h.used
  node := h.node
  all := h.all

/-- A page that was just handed out joins the others. -/
theorem grant (h : Owns c D st) (hst : st.Grants no st') : Owns c ((no, none) ::ₘ D) st' where
  wf := hst.wf
  catalogRoot := hst.catalogRoot.trans h.catalogRoot
  nodup := by
    rw [Multiset.map_cons, Multiset.nodup_cons]
    refine ⟨fun hmem => ?_, h.nodup⟩
    obtain ⟨x, hx, rfl⟩ := Multiset.mem_map.mp hmem
    exact h.used x hx hst.unused
  used x hx := by
    rw [hst.page]
    by_cases heq : x.1 = no
    · simp [heq]
    · rw [Function.update_of_ne heq]
      cases Multiset.mem_cons.mp hx with
      | inl hx => exact absurd (congrArg Prod.fst hx) heq
      | inr hx => exact h.used x hx
  node no' node' hx := by
    cases Multiset.mem_cons.mp hx with
    | inl heq => simp at heq
    | inr hx =>
        have hne : no' ≠ no := fun heq => h.used _ hx (heq ▸ hst.unused)
        simp only [Store.node, hst.page, Function.update_of_ne hne]
        exact h.node no' node' hx
  all no' hused := by
    rw [Multiset.map_cons, Multiset.mem_cons]
    by_cases heq : no' = no
    · exact .inl heq
    · rw [hst.page, Function.update_of_ne heq] at hused
      exact .inr (h.all no' hused)

end Owns

/-! ## Rules for the requests -/

/-- The ending of code that neither fails nor stops, unless the page numbers run out. -/
def Ends {ε α : Type} (ok : α → Store → Prop) : Post Store ε α where
  ok := ok
  error _ _ := False
  stop why st := why = .overflow ∧ st.allocate = none

abbrev Run {ε α : Type} (x : PageProg ε α) (Q : Post Store ε α) (st : Store) : Prop :=
  x.wp PageRequest.onStore PageRequest.Fits Q st

def getPage (no : PageNo) : PageProg BTreeError Page :=
  @Prog.request pageRequests BTreeError .storage (PageRequest.getPage no)

def encodeInto (no : PageNo) (node : Node) : PageProg BTreeError Unit :=
  @Prog.request pageRequests BTreeError .storage (PageRequest.encodeInto no node)

def allocatePage : PageProg BTreeError PageNo :=
  @Prog.request pageRequests BTreeError .storage PageRequest.allocatePage

def freePage (no : PageNo) : PageProg BTreeError Unit :=
  @Prog.request pageRequests BTreeError .storage (PageRequest.freePage no)

/-- `LeafNode::decode(self.pager.get_page(no)?)` -/
def readLeaf (no : PageNo) : PageProg BTreeError LeafNode := do
  let page ← getPage no
  Prog.unwrap (LeafNode.decode page)

/-- `InternalNode::decode(self.pager.get_page(no)?)` -/
def readInternal (no : PageNo) : PageProg BTreeError InternalNode := do
  let page ← getPage no
  Prog.unwrap (InternalNode.decode page)

section Rules

variable {c : PageNo} {D : Demand} {st : Store} {no : PageNo} {n : Option Node} {node : Node}
  {ε α β : Type}

theorem Run.step {x : PageProg ε α} {f : α → PageProg ε β}
    {Q : Post Store ε β} (h : Run x (Q.withOk fun value st' => Run (f value) Q st') st) :
    Run (x >>= f) Q st :=
  (Prog.wp_bind x f Q st).mpr h

theorem Run.bind {x : PageProg ε α} {f : α → PageProg ε β}
    {P : α → Store → Prop} {Q : β → Store → Prop} (h : Run x (Ends P) st)
    (hok : ∀ value st', P value st' → Run (f value) (Ends Q) st') : Run (x >>= f) (Ends Q) st :=
  Prog.wp_seq h hok (fun _ _ h => h) (fun _ _ h => h)

/-- Sequencing into code that may end in other ways. -/
theorem Run.seq {x : PageProg ε α} {f : α → PageProg ε β}
    {P : α → Store → Prop} {Q : Post Store ε β} (h : Run x (Ends P) st)
    (hok : ∀ value st', P value st' → Run (f value) Q st')
    (hstop : ∀ st', st'.allocate = none → Q.stop .overflow st') : Run (x >>= f) Q st :=
  Prog.wp_seq h hok (fun _ _ h => h.elim) fun _ st' h => h.1 ▸ hstop st' h.2

theorem Run.mono {x : PageProg ε α} {P Q : α → Store → Prop} (h : Run x (Ends P) st)
    (hok : ∀ value st', P value st' → Q value st') : Run x (Ends Q) st :=
  Prog.wp_mono h hok (fun _ _ h => h) (fun _ _ h => h)

theorem run_unwrap {o : Option α} {value : α} (h : o = some value) {Q : Post Store ε α}
    (hok : Q.ok value st) : Run (Prog.unwrap o) Q st := by
  rw [h]
  exact hok

theorem run_getPageAs (convert : StorageError → ε) (h : Owns c D st)
    (hmem : (no, some node) ∈ D) {Q : Post Store ε Page}
    (hok : ∀ page, Node.decode page = some node → Q.ok page st) :
    Run (@Prog.request pageRequests ε convert (.getPage no)) Q st := by
  obtain ⟨page, hpage, hdecode⟩ := Option.bind_eq_some_iff.mp (h.node _ _ hmem)
  intro _
  simp only [PageRequest.onStore, hpage]
  exact hok page hdecode

theorem run_getPage (h : Owns c D st) (hmem : (no, some node) ∈ D)
    {Q : Post Store BTreeError Page}
    (hok : ∀ page, Node.decode page = some node → Q.ok page st) : Run (getPage no) Q st :=
  run_getPageAs _ h hmem hok

theorem run_readLeaf {node : LeafNode} (h : Owns c D st) (hmem : (no, some (.leaf node)) ∈ D)
    {Q : Post Store BTreeError LeafNode} (hok : Q.ok node st) : Run (readLeaf no) Q st := by
  refine .step (run_getPage h hmem fun page hpage => ?_)
  exact run_unwrap (Node.decode_eq_leaf.mp hpage).2 hok

theorem run_readInternal {node : InternalNode} (h : Owns c D st)
    (hmem : (no, some (.internal node)) ∈ D) {Q : Post Store BTreeError InternalNode}
    (hok : Q.ok node st) : Run (readInternal no) Q st := by
  refine .step (run_getPage h hmem fun page hpage => ?_)
  exact run_unwrap (Node.decode_eq_internal.mp hpage).2 hok

theorem run_encodeInto (h : Owns c ((no, n) ::ₘ D) st) {Q : Post Store BTreeError Unit}
    (hok : ∀ st', Owns c ((no, some node) ::ₘ D) st' → Q.ok () st') :
    Run (encodeInto no node) Q st := by
  intro (hfit : node.encodedSize ≤ pageSize)
  obtain ⟨image, hencode, hdecode⟩ := Node.decode_encode hfit
  obtain ⟨page, hpage⟩ :=
    Option.ne_none_iff_exists'.mp (h.used _ (Multiset.mem_cons_self _ _))
  simp only [PageRequest.onStore, hpage, hencode]
  exact hok _ (h.put hdecode)

theorem run_freePage (h : Owns c ((no, n) ::ₘ D) st) {Q : Post Store BTreeError Unit}
    (hok : ∀ st', Owns c D st' → Q.ok () st') : Run (freePage no) Q st := by
  intro _
  obtain ⟨page, hpage⟩ :=
    Option.ne_none_iff_exists'.mp (h.used _ (Multiset.mem_cons_self _ _))
  simp only [PageRequest.onStore, hpage]
  exact hok _ h.release

theorem run_allocatePage (h : Owns c D st) {Q : PageNo → Store → Prop}
    (hok : ∀ no st', Owns c ((no, none) ::ₘ D) st' → Q no st') :
    Run allocatePage (Ends Q) st := by
  intro _
  cases hst : st.allocate with
  | none =>
      simp only [PageRequest.onStore, hst]
      exact ⟨rfl, hst⟩
  | some result =>
      simp only [PageRequest.onStore, hst]
      exact hok _ _ (h.grant (h.wf.allocate hst))

end Rules

end ChocoBase.BTree
