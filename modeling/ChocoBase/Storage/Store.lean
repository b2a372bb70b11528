import ChocoBase.Storage.Session

/-!
# The pager as a store of pages

A `Store` is what the pager is for: it maps the pages in use to their bytes and
keeps the freed pages on a stack.  It has no cache, no files and no page images
of free pages.  `Models` relates a pager to the store it stands for, and every
operation that the store defines gives the same answer on both.
-/

namespace ChocoBase.Storage

open ChocoBase.Foundation
open Exec (Post)

structure Store where
  page : PageNo → Option Page
  free : List PageNo
  count : UInt32
  catalogRoot : PageNo

namespace Store

/-- The store of a new database file: page 0 belongs to the header. -/
def empty : Store where
  page _ := none
  free := []
  count := 1
  catalogRoot := 0

/-- Hand out the page freed last, or a new one. -/
def allocate (st : Store) : Option (PageNo × Store) :=
  match st.free with
  | no :: rest =>
      some (no, { st with page := Function.update st.page no (some Page.zeroed), free := rest })
  | [] =>
      if st.count.toNat + 1 < 2 ^ 32 then
        some (st.count, { st with
          page := Function.update st.page st.count (some Page.zeroed)
          count := st.count + 1 })
      else none

/-- An operation on pages in use; others have no meaning. -/
def perform (st : Store) : PagerOp → Option (Response × Store)
  | .getPage no => do
      let page ← st.page no
      some (.page page, st)
  | .getPageMut no write => do
      let page ← st.page no
      let page' ← write page
      some (.done, { st with page := Function.update st.page no (some page') })
  | .allocatePage => do
      let (no, st') ← st.allocate
      some (.allocated no, st')
  | .freePage no => do
      let _ ← st.page no
      some (.done, { st with page := Function.update st.page no none, free := no :: st.free })
  | .setCatalogRoot root => some (.done, { st with catalogRoot := root })
  | .evict => some (.done, st)
  | .flush => some (.done, st)

/-- Free pages and pages beyond the count are not in use, and page 0 never is. -/
structure Wf (st : Store) : Prop where
  zero : st.page 0 = none ∧ 0 ∉ st.free
  count_pos : st.count ≠ 0
  free_nodup : st.free.Nodup
  free_unused : ∀ no ∈ st.free, st.page no = none
  bound : ∀ no, st.page no ≠ none ∨ no ∈ st.free → no < st.count

theorem Wf.write {st : Store} (h : st.Wf) {no : PageNo} (hno : st.page no ≠ none) (page : Page) :
    Wf { st with page := Function.update st.page no (some page) } where
  zero := by
    refine ⟨?_, h.zero.2⟩
    have hne : 0 ≠ no := fun heq => hno (heq ▸ h.zero.1)
    exact (Function.update_of_ne hne ..).trans h.zero.1
  count_pos := h.count_pos
  free_nodup := h.free_nodup
  free_unused no' hmem := by
    have hne : no' ≠ no := fun heq => hno (heq ▸ h.free_unused no' hmem)
    exact (Function.update_of_ne hne ..).trans (h.free_unused no' hmem)
  bound no' hno' := by
    by_cases heq : no' = no
    · exact heq ▸ h.bound no (.inl hno)
    · simp only [Function.update_of_ne heq] at hno'
      exact h.bound no' hno'

theorem Wf.release {st : Store} (h : st.Wf) {no : PageNo} (hno : st.page no ≠ none) :
    Wf { st with page := Function.update st.page no none, free := no :: st.free } where
  zero := by
    have hne : 0 ≠ no := fun heq => hno (heq ▸ h.zero.1)
    simp only [Function.update_of_ne hne, List.mem_cons, not_or]
    exact ⟨h.zero.1, hne, h.zero.2⟩
  count_pos := h.count_pos
  free_nodup := List.nodup_cons.mpr ⟨fun hmem => hno (h.free_unused no hmem), h.free_nodup⟩
  free_unused no' hmem := by
    by_cases heq : no' = no
    · simp [heq]
    · simp only [Function.update_of_ne heq]
      exact h.free_unused no' ((List.mem_cons.mp hmem).resolve_left heq)
  bound no' hno' := by
    by_cases heq : no' = no
    · exact heq ▸ h.bound no (.inl hno)
    · simp only [Function.update_of_ne heq, List.mem_cons, heq, false_or] at hno'
      exact h.bound no' hno'

/-- The page handed out was not in use before. -/
structure Grants (st : Store) (no : PageNo) (st' : Store) : Prop where
  wf : st'.Wf
  unused : st.page no = none
  page : st'.page = Function.update st.page no (some Page.zeroed)
  catalogRoot : st'.catalogRoot = st.catalogRoot

theorem Wf.allocate {st st' : Store} {no : PageNo} (h : st.Wf)
    (hst : st.allocate = some (no, st')) : st.Grants no st' := by
  unfold Store.allocate at hst
  cases hfree : st.free with
  | nil =>
      simp only [hfree] at hst
      split at hst
      next hlt =>
        obtain ⟨rfl, rfl⟩ := Prod.mk.inj (Option.some.inj hst)
        have hsucc := Pager.toNat_add_one hlt
        have hunused : st.page st.count = none := by
          by_contra hne
          exact (UInt32.lt_irrefl _) (h.bound _ (.inl hne))
        refine ⟨⟨⟨?_, by simp⟩, ?_, List.nodup_nil, by simp, fun no hno => ?_⟩, hunused,
          rfl, rfl⟩
        · exact (Function.update_of_ne (Ne.symm h.count_pos) ..).trans h.zero.1
        · intro heq
          have heq : st.count + 1 = 0 := heq
          rw [heq] at hsucc
          simp at hsucc
        · rw [UInt32.lt_iff_toNat_lt, hsucc]
          by_cases heq : no = st.count
          · rw [heq]
            omega
          · simp only [Function.update_of_ne heq] at hno
            have := UInt32.lt_iff_toNat_lt.mp (h.bound no (hno.imp_right (by simp)))
            omega
      next => simp at hst
  | cons no₁ rest =>
      simp only [hfree] at hst
      obtain ⟨rfl, rfl⟩ := Prod.mk.inj (Option.some.inj hst)
      have hmem : no₁ ∈ st.free := by simp [hfree]
      have hnodup : no₁ ∉ rest ∧ rest.Nodup := List.nodup_cons.mp (hfree ▸ h.free_nodup)
      have hrest {no' : PageNo} (hmem' : no' ∈ rest) : no' ≠ no₁ := fun heq =>
        hnodup.1 (heq ▸ hmem')
      refine ⟨⟨⟨?_, ?_⟩, h.count_pos, hnodup.2, fun no' hmem' => ?_, fun no' hno' => ?_⟩,
        h.free_unused _ hmem, rfl, rfl⟩
      · have hne : 0 ≠ no₁ := fun heq => h.zero.2 (by rw [heq]; exact hmem)
        exact (Function.update_of_ne hne ..).trans h.zero.1
      · exact fun hzero => h.zero.2 (by simp [hfree, hzero])
      · simp only [Function.update_of_ne (hrest hmem')]
        exact h.free_unused no' (by rw [hfree]; exact List.mem_cons_of_mem _ hmem')
      · by_cases heq : no' = no₁
        · exact heq ▸ h.bound no₁ (.inr hmem)
        · simp only [Function.update_of_ne heq] at hno'
          refine h.bound no' (hno'.imp_right fun hmem' => ?_)
          rw [hfree]
          exact List.mem_cons_of_mem _ hmem'

end Store

/-- The freed pages are linked through their first bytes. -/
def FreeChain (content : PageNo → Option Page) : PageNo → List PageNo → Prop
  | head, [] => head = 0
  | head, no :: rest => head = no ∧ no ≠ 0 ∧
      ∃ page next, content no = some page ∧ page.readU32 0 = some next ∧
        FreeChain content next rest

theorem FreeChain.congr {content content' : PageNo → Option Page} {head : PageNo}
    {free : List PageNo} (h : FreeChain content head free)
    (hsame : ∀ no ∈ free, no ≠ 0 → content' no = content no) : FreeChain content' head free := by
  induction free generalizing head with
  | nil => exact h
  | cons no rest ih =>
      obtain ⟨hhead, hne, page, next, hpage, hnext, hrest⟩ := h
      refine ⟨hhead, hne, page, next, ?_, hnext, ih hrest fun no' hmem => hsame no' (by simp [hmem])⟩
      rw [hsame no (by simp) hne, hpage]

theorem FreeChain.content_isSome {content : PageNo → Option Page} {head : PageNo}
    {free : List PageNo} (h : FreeChain content head free) {no : PageNo} (hmem : no ∈ free) :
    no ≠ 0 ∧ (content no).isSome := by
  induction free generalizing head with
  | nil => simp at hmem
  | cons no' rest ih =>
      obtain ⟨-, hne, page, next, hpage, -, hrest⟩ := h
      rcases List.mem_cons.mp hmem with rfl | hmem
      · exact ⟨hne, by simp [hpage]⟩
      · exact ih hrest hmem

/-- The pager holds the pages of the store. -/
structure Models (p : Pager) (st : Store) : Prop where
  settled : p.Settled
  coherent : p.Coherent
  count : p.header.pageCount = st.count
  catalogRoot : p.header.catalogRoot = st.catalogRoot
  pages : ∀ no page, st.page no = some page → no ≠ 0 ∧ p.content no = some page
  chain : FreeChain p.content p.header.freelistHead st.free
  free_nodup : st.free.Nodup
  free_unused : ∀ no ∈ st.free, st.page no = none

namespace Models

variable {p p' : Pager} {st : Store}

/-- The next page of the file is not in use. -/
theorem count_unused (h : Models p st) : st.page st.count = none ∧ st.count ∉ st.free := by
  have hcount : ¬(p.content st.count).isSome := by
    rw [h.settled.content_isSome_iff h.coherent, h.count]
    omega
  constructor
  · by_contra hne
    obtain ⟨page, hpage⟩ := Option.ne_none_iff_exists'.mp hne
    exact hcount (by simp [(h.pages _ _ hpage).2])
  · exact fun hmem => hcount (h.chain.content_isSome hmem).2

theorem wf (h : Models p st) : st.Wf where
  zero := by
    refine ⟨?_, fun hmem => (h.chain.content_isSome hmem).1 rfl⟩
    by_contra hne
    obtain ⟨page, hpage⟩ := Option.ne_none_iff_exists'.mp hne
    exact (h.pages 0 page hpage).1 rfl
  count_pos heq := by
    have hpos := h.coherent.file_pos
    rw [h.settled.length, h.count, heq] at hpos
    simp at hpos
  free_nodup := h.free_nodup
  free_unused := h.free_unused
  bound no hno := by
    have hsome : (p.content no).isSome := by
      cases hno with
      | inl hne =>
          obtain ⟨page, hpage⟩ := Option.ne_none_iff_exists'.mp hne
          simp [(h.pages no page hpage).2]
      | inr hmem => exact (h.chain.content_isSome hmem).2
    rw [UInt32.lt_iff_toNat_lt, ← h.count]
    exact (h.settled.content_isSome_iff h.coherent no).mp hsome

/-- A change of the pager that no page and no link sees. -/
theorem of_same (h : Models p st) (hsettled : p'.Settled) (hcoherent : p'.Coherent)
    (hheader : p'.header = p.header) (hcontent : p'.content = p.content) : Models p' st where
  settled := hsettled
  coherent := hcoherent
  count := by rw [hheader, h.count]
  catalogRoot := by rw [hheader, h.catalogRoot]
  pages no page hpage := by rw [hcontent]; exact h.pages no page hpage
  chain := by rw [hcontent, hheader]; exact h.chain
  free_nodup := h.free_nodup
  free_unused := h.free_unused

/-- New bytes for a page that is not free. -/
theorem write (h : Models p st) (hsettled : p'.Settled) (hcoherent : p'.Coherent)
    (hheader : p'.header = p.header) {no : PageNo} {page : Page} (hno : no ≠ 0)
    (hfree : no ∉ st.free) (hcontent : p'.content = Function.update p.content no (some page)) :
    Models p' { st with page := Function.update st.page no (some page) } where
  settled := hsettled
  coherent := hcoherent
  count := by rw [hheader, h.count]
  catalogRoot := by rw [hheader, h.catalogRoot]
  pages no' page' hpage := by
    rw [hcontent]
    by_cases heq : no' = no
    · subst heq
      simp only [Function.update_self] at hpage ⊢
      exact ⟨hno, hpage⟩
    · simp only [Function.update_of_ne heq] at hpage ⊢
      exact h.pages no' page' hpage
  chain := by
    rw [hheader, hcontent]
    refine h.chain.congr fun no' hmem _ => ?_
    rw [Function.update_of_ne (show no' ≠ no from fun heq => hfree (heq ▸ hmem))]
  free_nodup := h.free_nodup
  free_unused no' hmem := by
    simp only [Function.update_of_ne (show no' ≠ no from fun heq => hfree (heq ▸ hmem))]
    exact h.free_unused no' hmem

theorem not_mem_free (h : Models p st) {no : PageNo} {page : Page} (hpage : st.page no = some page) :
    no ∉ st.free := fun hmem => by simp [h.free_unused no hmem] at hpage

/-- The page handed out is the one the store hands out. -/
theorem allocated (h : Models p st) (hsettled : p'.Settled) (hcoherent : p'.Coherent)
    {no : PageNo} (hno : no ≠ 0) (hallocated : p.Allocated no p'.header)
    (hzeroed : p'.content no = some Page.zeroed)
    (hcontent : ∀ no' ≠ 0, no' ≠ no → (p.content no').isSome → p'.content no' = p.content no') :
    ∃ st', st.allocate = some (no, st') ∧ Models p' st' := by
  have hunused (hpage : st.page no = none) (no' : PageNo) (page : Page)
      (hpage' : Function.update st.page no (some Page.zeroed) no' = some page) :
      no' ≠ 0 ∧ p'.content no' = some page := by
    by_cases heq : no' = no
    · subst heq
      rw [Function.update_self] at hpage'
      exact ⟨hno, hzeroed.trans hpage'⟩
    · rw [Function.update_of_ne heq] at hpage'
      obtain ⟨hne, hold⟩ := h.pages no' page hpage'
      exact ⟨hne, by rw [hcontent no' hne heq (by simp [hold]), hold]⟩
  have hchain := h.chain
  generalize hheader : p'.header = header at hallocated
  cases hallocated with
  | @reused page next hhead heq hpage hnext =>
      rcases hfree : st.free with _ | ⟨no₁, rest⟩
      · rw [hfree] at hchain
        exact absurd hchain hhead
      · rw [hfree] at hchain
        obtain ⟨heq₁, -, page₁, next₁, hpage₁, hnext₁, hrest⟩ := hchain
        obtain rfl : no = no₁ := heq.trans heq₁
        obtain rfl : page = page₁ := Option.some.inj (hpage.symm.trans hpage₁)
        obtain rfl : next = next₁ := Option.some.inj (hnext.symm.trans hnext₁)
        have hnodup : no ∉ rest ∧ rest.Nodup := List.nodup_cons.mp (hfree ▸ h.free_nodup)
        refine ⟨_, by rw [Store.allocate, hfree], ?_⟩
        exact {
          settled := hsettled
          coherent := hcoherent
          count := by rw [hheader, ← h.count]
          catalogRoot := by rw [hheader, ← h.catalogRoot]
          pages := hunused (h.free_unused no (by simp [hfree]))
          chain := by
            rw [hheader]
            refine hrest.congr fun no' hmem hne => ?_
            exact hcontent no' hne (fun heq => hnodup.1 (heq ▸ hmem))
              (hrest.content_isSome hmem).2
          free_nodup := hnodup.2
          free_unused := fun no' hmem => by
            have hmem : no' ∈ rest := hmem
            simp only [Function.update_of_ne (show no' ≠ no from fun heq =>
              hnodup.1 (heq ▸ hmem))]
            exact h.free_unused no' (by simp [hfree, hmem]) }
  | grown hhead heq hlt =>
      rcases hfree : st.free with _ | ⟨no₁, rest⟩
      · obtain rfl : no = st.count := heq.trans h.count
        refine ⟨_, by simp only [Store.allocate, hfree]; rw [if_pos hlt], ?_⟩
        exact {
          settled := hsettled
          coherent := hcoherent
          count := by rw [hheader]
          catalogRoot := by rw [hheader, ← h.catalogRoot]
          pages := hunused h.count_unused.1
          chain := by
            rw [hheader, hhead]
            rfl
          free_nodup := List.nodup_nil
          free_unused := fun no' hmem => by simp at hmem }
      · rw [hfree] at hchain
        exact absurd (hchain.1.symm.trans hhead) hchain.2.1

/-- A page that was given back heads the freelist. -/
theorem freed (h : Models p st) (hsettled : p'.Settled) (hcoherent : p'.Coherent) {no : PageNo}
    {page : Page} (hpage : st.page no = some page)
    (hheader : p'.header = { p.header with freelistHead := no })
    (hlink : p'.content no = some (Pager.linkPage p.header.freelistHead))
    (hcontent : ∀ no' ≠ 0, no' ≠ no → (p.content no').isSome → p'.content no' = p.content no') :
    Models p' { st with page := Function.update st.page no none, free := no :: st.free } where
  settled := hsettled
  coherent := hcoherent
  count := by rw [hheader, ← h.count]
  catalogRoot := by rw [hheader, ← h.catalogRoot]
  pages no' page' hpage' := by
    by_cases heq : no' = no
    · simp [heq] at hpage'
    · simp only [Function.update_of_ne heq] at hpage'
      obtain ⟨hne, hold⟩ := h.pages no' page' hpage'
      exact ⟨hne, by rw [hcontent no' hne heq (by simp [hold]), hold]⟩
  chain := by
    rw [hheader]
    refine ⟨rfl, (h.pages no page hpage).1, _, _, hlink, Pager.readU32_linkPage _, ?_⟩
    refine h.chain.congr fun no' hmem hne => ?_
    exact hcontent no' hne (fun heq => h.not_mem_free hpage (heq ▸ hmem))
      (h.chain.content_isSome hmem).2
  free_nodup := List.nodup_cons.mpr ⟨h.not_mem_free hpage, h.free_nodup⟩
  free_unused no' hmem := by
    by_cases heq : no' = no
    · simp [heq]
    · simp only [Function.update_of_ne heq]
      exact h.free_unused no' ((List.mem_cons.mp hmem).resolve_left heq)

end Models

section Simulation

variable {base : List Page} {start : Os} {active : Bool} {p : Pager} {st : Store}

/-- The pager answers a defined operation as the store does, inside a transaction or not. -/
theorem wp_perform_models (h : Models p st) (hg : p.Guarded base start active) {op : PagerOp}
    {response : Response} {st' : Store} (hst : st.perform op = some (response, st')) :
    Exec.wp op.perform
      ⟨fun r p' => r = response ∧ Models p' st' ∧ p'.Guarded base start active,
        fun _ _ => False, fun _ _ => False⟩ p := by
  have hsteady {p' : Pager} (hs : Pager.Steady p p') : Models p' st :=
    h.of_same (h.settled.steady hs) hs.coherent hs.header (funext hs.content)
  cases op with
  | getPage no =>
      obtain ⟨page, hpage, ⟨⟩⟩ := Option.bind_eq_some_iff.mp hst
      obtain ⟨hno, hcontent⟩ := h.pages no page hpage
      refine Exec.wp_seq (Pager.wp_getPage h.coherent hno) ?_ ?_ (fun _ _ h => h)
      · rintro page' p' ⟨hs, hpage'⟩
        obtain rfl := Option.some.inj (hcontent.symm.trans hpage')
        exact ⟨rfl, hsteady hs, hg.steady hs⟩
      · exact fun _ p' h' => by simp [h'.2 h.settled.calm] at hcontent
  | getPageMut no write =>
      obtain ⟨page, hpage, hst⟩ := Option.bind_eq_some_iff.mp hst
      obtain ⟨page', hwrite, ⟨⟩⟩ := Option.bind_eq_some_iff.mp hst
      obtain ⟨hno, hcontent⟩ := h.pages no page hpage
      refine Exec.wp_seq (Pager.wp_getPageMut hg hno write) ?_ ?_ ?_
      · rintro - p' ⟨hkeeps, hheader, page₁, page₁', hpage₁, hwrite₁, hcontent'⟩
        obtain rfl := Option.some.inj (hcontent.symm.trans hpage₁)
        obtain rfl := Option.some.inj (hwrite.symm.trans hwrite₁)
        exact ⟨rfl, h.write (hkeeps.settled h.settled) hkeeps.guarded.coherent hheader hno
          (h.not_mem_free hpage) hcontent', hkeeps.guarded⟩
      · exact fun _ p' h' => by simp [(h'.2 h.settled.calm).1] at hcontent
      · rintro why p' ⟨-, -, page₁, hpage₁, hwrite₁⟩
        obtain rfl := Option.some.inj (hcontent.symm.trans hpage₁)
        simp [hwrite] at hwrite₁
  | allocatePage =>
      obtain ⟨⟨no, st₁⟩, hallocate, ⟨⟩⟩ := Option.bind_eq_some_iff.mp hst
      have hchain := h.chain
      refine Exec.wp_seq (Pager.wp_allocatePage hg) ?_ ?_ ?_
      · rintro no' p' ⟨hkeeps, hno, hallocated, hzeroed, hcontent⟩
        obtain ⟨st₂, hst₂, hmodels⟩ := h.allocated (hkeeps.settled h.settled)
          hkeeps.guarded.coherent hno hallocated hzeroed hcontent
        obtain ⟨rfl, rfl⟩ := Prod.mk.inj (Option.some.inj (hallocate.symm.trans hst₂))
        exact ⟨rfl, hmodels, hkeeps.guarded⟩
      · rintro - p' ⟨-, hnone⟩
        obtain ⟨hhead, hnone, -⟩ := hnone h.settled
        rcases hfree : st.free with _ | ⟨no', rest⟩
        · rw [hfree] at hchain
          exact hhead hchain
        · rw [hfree] at hchain
          obtain ⟨rfl, -, page, _, hpage, -⟩ := hchain
          simp [hpage] at hnone
      · rintro why p' ⟨-, -, hhead, hfull, -⟩
        rcases hfree : st.free with _ | ⟨no', rest⟩
        · rw [h.count] at hfull
          simp [Store.allocate, hfree, hfull] at hallocate
        · rw [hfree] at hchain
          exact hchain.2.1 (hchain.1.symm.trans hhead)
  | freePage no =>
      obtain ⟨page, hpage, ⟨⟩⟩ := Option.bind_eq_some_iff.mp hst
      obtain ⟨hno, hcontent⟩ := h.pages no page hpage
      refine Exec.wp_seq (Pager.wp_freePage hg hno) ?_ ?_ (fun _ _ h => h)
      · rintro - p' ⟨hkeeps, -, hheader, hlink, hothers⟩
        exact ⟨rfl, h.freed (hkeeps.settled h.settled) hkeeps.guarded.coherent hpage hheader hlink
          hothers, hkeeps.guarded⟩
      · exact fun _ p' h' => by simp [(h'.2 h.settled).1] at hcontent
  | setCatalogRoot root =>
      obtain ⟨rfl, rfl⟩ := Prod.mk.inj (Option.some.inj hst)
      refine Exec.wp_seq (Pager.wp_setCatalogRoot hg root) ?_
        (fun _ _ h' => h'.2 h.settled.calm) (fun _ _ h => h)
      rintro - p' ⟨hkeeps, hheader, hcontent⟩
      refine ⟨rfl, ?_, hkeeps.guarded⟩
      exact {
        settled := hkeeps.settled h.settled
        coherent := hkeeps.guarded.coherent
        count := by rw [hheader, ← h.count]
        catalogRoot := by rw [hheader]
        pages := fun no page hpage => by
          obtain ⟨hno, hold⟩ := h.pages no page hpage
          exact ⟨hno, (hcontent no hno).trans hold⟩
        chain := by
          rw [hheader]
          exact h.chain.congr fun no _ hno => hcontent no hno
        free_nodup := h.free_nodup
        free_unused := h.free_unused }
  | evict =>
      obtain ⟨rfl, rfl⟩ := Prod.mk.inj (Option.some.inj hst)
      exact Exec.wp_seq (Pager.wp_evictIfNeeded h.coherent)
        (fun _ _ h' => ⟨rfl, hsteady h'.1, hg.steady h'.1⟩) (fun _ _ h' => h'.2 h.settled.calm)
        (fun _ _ h => h)
  | flush =>
      obtain ⟨rfl, rfl⟩ := Prod.mk.inj (Option.some.inj hst)
      exact Exec.wp_seq (Pager.wp_flush h.coherent)
        (fun _ _ h' => ⟨rfl, hsteady h'.1, hg.steady h'.1⟩) (fun _ _ h' => h'.2 h.settled.calm)
        (fun _ _ h => h)

end Simulation

/-! ## Runs with reopening -/

/-- A pager operation, or flushing, dropping the pager and opening the file again. -/
inductive StoreCall where
  | op (operation : PagerOp)
  | reopen

namespace StoreCall

def perform : StoreCall → Pager.Action Response
  | .op operation => operation.perform
  | .reopen => do
      Pager.flush
      let opened ← Pager.onFile Pager.open
      Exec.modify fun _ => opened
      return .done

def performAll : List StoreCall → Pager.Action (List Response)
  | [] => return []
  | call :: calls => do
      let response ← call.perform
      let responses ← performAll calls
      return response :: responses

end StoreCall

namespace Store

def call (st : Store) : StoreCall → Option (Response × Store)
  | .op operation => st.perform operation
  | .reopen => some (.done, st)

def run (st : Store) : List StoreCall → Option (List Response × Store)
  | [] => some ([], st)
  | c :: calls => do
      let (response, st') ← st.call c
      let (responses, st'') ← st'.run calls
      some (response :: responses, st'')

end Store

/-- A pager outside of a transaction that holds the pages of the store. -/
structure Serves (p : Pager) (st : Store) : Prop where
  models : Models p st
  idle : p.inTransaction = false
  journal : p.file.disk.journal = none

theorem Pager.created_serves : Serves created Store.empty where
  models := {
    settled := created_fileCurrent.settled rfl
    coherent := created_coherent
    count := rfl
    catalogRoot := rfl
    pages := fun no page h => by simp [Store.empty] at h
    chain := rfl
    free_nodup := List.nodup_nil
    free_unused := fun no h => by simp [Store.empty] at h }
  idle := rfl
  journal := rfl

/-- Flushing, dropping and opening again loses nothing. -/
theorem wp_reopen {p : Pager} {st : Store} (h : Serves p st) :
    Exec.wp StoreCall.reopen.perform
      ⟨fun r p' => r = .done ∧ Serves p' st, fun _ _ => False, fun _ _ => False⟩ p := by
  have hcalm := h.models.settled.calm
  refine Exec.wp_seq (Pager.wp_flush h.models.coherent) ?_ (fun _ _ h' => h'.2 hcalm)
    (fun _ _ h => h)
  rintro - p₁ ⟨hs, hdirty⟩
  have hs₁ := h.models.settled.steady hs
  have hjournal : p₁.file.disk.journal = none := hs.journal_file.trans h.journal
  have hheader : p₁.file.disk.db[0]? = some p₁.header.toPage :=
    hs.coherent.content_zero ▸ hs₁.header
  have hopen : Exec.wp Pager.open
      ⟨fun p os => p.Empty ∧ p.header = p₁.header ∧ p.file = os ∧ os = p₁.file,
        fun _ _ => False, fun _ _ => False⟩ p₁.file :=
    Pager.wp_open (Exec.wp_of_ok (recoverIfNeeded_none hjournal) ⟨hheader, rfl⟩)
  rw [Exec.wp_bind, Pager.wp_onFile]
  refine Exec.wp_mono hopen ?_ (fun _ _ h => h) (fun _ _ h => h)
  rintro p₂ os ⟨hempty, hheader₂, hfile, hos⟩
  have hfile₂ : p₂.file = p₁.file := hfile.trans hos
  have hcontent : p₂.content = p.content := by
    funext no
    rw [hempty.content, hfile₂, ← hs.content,
      hs.coherent.content_of_clean (by simp [hdirty])]
  have hlength : p₂.file.disk.db.length = p₂.header.pageCount.toNat := by
    rw [hfile₂, hheader₂, hs₁.length]
  refine ⟨rfl, ⟨h.models.of_same ⟨?_, hlength, ?_⟩ (hempty.coherent hlength.le ?_) ?_ hcontent,
    hempty.idle, ?_⟩⟩
  · rw [hfile₂, hs₁.calm]
  · rw [hcontent, hheader₂, hs.header, h.models.settled.header]
  · rw [hfile₂]
    exact hs.coherent.file_pos
  · rw [hheader₂, hs.header]
  · rw [hfile₂, hjournal]

theorem wp_call {p : Pager} {st : Store} (h : Serves p st) {c : StoreCall} {response : Response}
    {st' : Store} (hst : st.call c = some (response, st')) :
    Exec.wp c.perform
      ⟨fun r p' => r = response ∧ Serves p' st', fun _ _ => False, fun _ _ => False⟩ p := by
  cases c with
  | op operation =>
      have hg : p.Guarded [] p.file false :=
        ⟨h.models.coherent, h.idle, fun _ => rfl, by simp⟩
      refine Exec.wp_mono (wp_perform_models h.models hg hst) ?_ (fun _ _ h => h) (fun _ _ h => h)
      exact fun r p' ⟨hr, hmodels, hg'⟩ =>
        ⟨hr, hmodels, hg'.state, (hg'.quiet rfl).trans h.journal⟩
  | reopen =>
      obtain ⟨rfl, rfl⟩ := Prod.mk.inj (Option.some.inj hst)
      exact wp_reopen h

theorem wp_performAll {p : Pager} {st : Store} (h : Serves p st) {calls : List StoreCall}
    {responses : List Response} {st' : Store} (hst : st.run calls = some (responses, st')) :
    Exec.wp (StoreCall.performAll calls)
      ⟨fun r p' => r = responses ∧ Serves p' st', fun _ _ => False, fun _ _ => False⟩ p := by
  induction calls generalizing p st responses with
  | nil =>
      obtain ⟨rfl, rfl⟩ := Prod.mk.inj (Option.some.inj hst)
      exact ⟨rfl, h⟩
  | cons c calls ih =>
      obtain ⟨⟨response, st₁⟩, hcall, hst⟩ := Option.bind_eq_some_iff.mp hst
      obtain ⟨⟨rest, st₂⟩, hrun, ⟨⟩⟩ := Option.bind_eq_some_iff.mp hst
      refine Exec.wp_seq (wp_call h hcall) ?_ (fun _ _ h => h) (fun _ _ h => h)
      rintro _ p₁ ⟨rfl, h₁⟩
      refine Exec.wp_seq (ih h₁ hrun) ?_ (fun _ _ h => h) (fun _ _ h => h)
      rintro _ p₂ ⟨rfl, h₂⟩
      exact ⟨rfl, h₂⟩

/-- What the store hands out: the page freed last, or a new one if none is free. -/
structure HandsOut (st st' : Store) (no : PageNo) : Prop where
  unused : st.page no = none
  zeroed : st'.page no = some Page.zeroed
  lifo : ∀ no' rest, st.free = no' :: rest → no = no' ∧ st'.free = rest
  grows : st'.count ≠ st.count ↔ st.free = []

theorem Models.handsOut {p : Pager} {st st' : Store} (h : Models p st) {no : PageNo}
    (hst : st.allocate = some (no, st')) : HandsOut st st' no := by
  unfold Store.allocate at hst
  rcases hfree : st.free with _ | ⟨no₁, rest⟩
  · simp only [hfree] at hst
    split at hst
    next hlt =>
      obtain ⟨rfl, rfl⟩ := Prod.mk.inj (Option.some.inj hst)
      refine ⟨h.count_unused.1, by simp, by simp [hfree], ?_⟩
      simp [hfree]
    next => simp at hst
  · simp only [hfree] at hst
    obtain ⟨rfl, rfl⟩ := Prod.mk.inj (Option.some.inj hst)
    refine ⟨h.free_unused _ (by simp [hfree]), by simp, ?_, by simp [hfree]⟩
    intro no' rest' heq
    obtain ⟨rfl, rfl⟩ := List.cons.inj (hfree.symm.trans heq)
    exact ⟨rfl, rfl⟩

/--
Whatever the cache does, the pager answers every run of operations on pages in
use as the store does, and hands out pages as the store does.
-/
theorem pager_transparent {p : Pager} {st : Store} (h : Serves p st) (calls : List StoreCall)
    {responses : List Response} {st' : Store} (hrun : st.run calls = some (responses, st')) :
    ∃ p', StoreCall.performAll calls p = (.ok responses, p') ∧
      p'.header.pageCount = st'.count ∧
      ∀ no st'', st'.allocate = some (no, st'') → HandsOut st' st'' no := by
  obtain ⟨_, p', hp', rfl, hserves⟩ := Exec.exists_of_wp (wp_performAll h hrun)
  exact ⟨p', hp', hserves.models.count, fun no st'' => hserves.models.handsOut⟩

/-- Two pages of a new database; the one freed is handed out again. -/
theorem pager_transparent_created :
    let calls : List StoreCall := [.op .allocatePage, .op .allocatePage, .op (.freePage 1),
      .reopen, .op .allocatePage, .op (.getPage 1)]
    ∃ p', StoreCall.performAll calls Pager.created =
      (.ok [.allocated 1, .allocated 2, .done, .done, .allocated 1, .page Page.zeroed], p') := by
  intro calls
  obtain ⟨p', hp', -⟩ := pager_transparent Pager.created_serves calls rfl
  exact ⟨p', hp'⟩

end ChocoBase.Storage
