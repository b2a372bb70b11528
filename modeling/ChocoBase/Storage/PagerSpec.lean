import ChocoBase.Storage.Transaction

/-!
# Specifications of the pager operations

Each operation keeps the pager guarded, whatever happens.  Without refused
requests it also keeps the file in step with the header (`Settled`), and the
specification says what it does to the header and to the content of each page.
-/

namespace ChocoBase.Storage.Pager

open ChocoBase.Foundation
open Exec (Post)
open UndoLog (logged)

/-- The file has the header's image and length, and the system refuses nothing. -/
structure Settled (p : Pager) : Prop where
  calm : p.file.faults = []
  length : p.file.disk.db.length = p.header.pageCount.toNat
  header : p.content 0 = some p.header.toPage

/-- What every operation keeps, however it ends. -/
structure Keeps (base : List Page) (start : Os) (active : Bool) (p p' : Pager) : Prop where
  guarded : p'.Guarded base start active
  settled : p.Settled → p'.Settled

theorem Settled.steady {p p' : Pager} (hp : p.Settled) (h : Steady p p') : p'.Settled where
  calm := h.calm hp.calm
  length := by rw [h.length, hp.length, h.header]
  header := by rw [h.content, hp.header, h.header]

theorem Settled.journals {p p' : Pager} (hp : p.Settled) (h : Journals p p') : p'.Settled where
  calm := h.calm hp.calm
  length := by rw [h.db, hp.length, h.header]
  header := by rw [h.content, hp.header, h.header]

/-- Exactly the pages below the page count exist. -/
theorem Settled.content_isSome_iff {p : Pager} (hp : p.Settled) (hc : p.Coherent) (no : PageNo) :
    (p.content no).isSome ↔ no.toNat < p.header.pageCount.toNat := by
  rw [hc.content_isSome_iff, hp.length]

section Steps

variable {base : List Page} {start : Os} {active : Bool} {p : Pager}

/-- The page may be overwritten: the transaction, if there is one, has its image. -/
def MayOverwrite (base : List Page) (active : Bool) (p : Pager) (no : PageNo) : Prop :=
  active = true → no.toNat < base.length → no ∈ p.journaledPages

theorem Guarded.keeps_steady (h : p.Guarded base start active) {p' : Pager} (hs : Steady p p') :
    Keeps base start active p p' :=
  ⟨h.steady hs, fun hp => hp.steady hs⟩

theorem Keeps.trans {p' p'' : Pager} (h : Keeps base start active p p')
    (h' : Keeps base start active p' p'') : Keeps base start active p p'' :=
  ⟨h'.guarded, fun hp => h'.settled (h.settled hp)⟩

/-- The pager with a new image of one page in its cache. -/
def put (p : Pager) (no : PageNo) (page : Page) (recency : List PageNo) : Pager :=
  { p with cache := p.cache.insert no page, dirty := insert no p.dirty, recency }

theorem content_put (p : Pager) (no : PageNo) (page : Page) (recency : List PageNo) :
    (p.put no page recency).content = Function.update p.content no (some page) := by
  funext no'
  by_cases heq : no' = no
  · subst heq
    simp [content, put]
  · simp [content, put, AList.lookup_insert_ne heq, Function.update_of_ne heq]

theorem Coherent.put (h : p.Coherent) {no : PageNo} {page : Page} {recency : List PageNo}
    (hno : no ≠ 0) (hlt : no.toNat < p.file.disk.db.length) (hnodup : recency.Nodup)
    (hmem : ∀ no', no' ∈ recency ↔ no' = no ∨ no' ∈ p.cache) :
    (p.put no page recency).Coherent where
  recency_nodup := hnodup
  mem_recency no' := by rw [Pager.put, AList.mem_insert, ← hmem]
  dirty_cached no' hno' := by
    rcases Finset.mem_insert.mp hno' with rfl | hno'
    · exact (AList.mem_insert _).mpr (.inl rfl)
    · exact (AList.mem_insert _).mpr (.inr (h.dirty_cached no' hno'))
  clean no' page' hpage' hclean := by
    obtain ⟨hne, hclean⟩ : no' ≠ no ∧ no' ∉ p.dirty := by simpa [Pager.put] using hclean
    exact h.clean no' page' ((AList.lookup_insert_ne hne).symm.trans hpage') hclean
  header_uncached h0 := by
    rcases (AList.mem_insert _).mp h0 with h0 | h0
    · exact hno h0.symm
    · exact h.header_uncached h0
  cached_lt no' hno' := by
    rcases (AList.mem_insert _).mp hno' with rfl | hno'
    · exact hlt
    · exact h.cached_lt no' hno'
  length_le := h.length_le
  file_pos := h.file_pos

theorem Guarded.put (h : p.Guarded base start active) {no : PageNo} {page : Page}
    {recency : List PageNo} (hno : no ≠ 0) (hlt : no.toNat < p.file.disk.db.length)
    (hnodup : recency.Nodup) (hmem : ∀ no', no' ∈ recency ↔ no' = no ∨ no' ∈ p.cache)
    (hmay : MayOverwrite base active p no) :
    Keeps base start active p (p.put no page recency) := by
  refine ⟨⟨h.coherent.put hno hlt hnodup hmem, h.state, h.quiet, fun hactive => ?_⟩, fun hp => ?_⟩
  · obtain ⟨hjournal, recs, htxn⟩ := h.guard hactive
    refine ⟨hjournal, recs, htxn.update (.refl _) .nil rfl rfl le_rfl (fun _ => rfl) ?_⟩
    intro no' hlt' hmem'
    have hne : no' ≠ no := fun heq => hmem' <| heq ▸
      (htxn.journaled no (heq ▸ hlt')).mp (hmay hactive (heq ▸ hlt'))
    rw [content_put, Function.update_of_ne hne]
  · refine ⟨hp.calm, hp.length, ?_⟩
    rw [content_put, Function.update_of_ne hno.symm, hp.header]
    rfl

/-- Borrowing a page changes only that page. -/
theorem wp_getPageMut (h : p.Guarded base start active) {no : PageNo} (hno : no ≠ 0)
    (write : Page → Option Page) :
    Exec.wp (getPageMut no write)
      ⟨fun _ p' => Keeps base start active p p' ∧ p'.header = p.header ∧
          ∃ page page', p.content no = some page ∧ write page = some page' ∧
            p'.content = Function.update p.content no (some page'),
        fun _ p' => Keeps base start active p p' ∧
          (p.file.faults = [] → p.content no = none ∧ p'.header = p.header ∧
            p'.content = p.content),
        fun why p' => Keeps base start active p p' ∧ why = .panic ∧
          ∃ page, p.content no = some page ∧ write page = none⟩ p := by
  refine Exec.wp_seq (wp_ensureLoaded h.coherent hno) ?_ ?_ (fun _ _ h => h.elim)
  · rintro - p₁ ⟨hs, page, hpage⟩
    have h₁ := h.steady hs
    have hcontent : p.content no = some page := by rw [← hs.content, content_of_lookup hpage]
    refine Exec.wp_seq (wp_journalForWrite h₁ hpage) ?_ ?_ (fun _ _ h => h.elim)
    · rintro - p₂ ⟨h₂, hj, hmay⟩
      have hpage₂ : p₂.cache.lookup no = some page := by rw [hj.cache, hpage]
      have hmem : no ∈ p₂.cache := AList.lookup_isSome.mp (by simp [hpage₂])
      have hrecency (no' : PageNo) : no' ∈ p₂.recency ↔ no' = no ∨ no' ∈ p₂.cache := by
        rw [h₂.coherent.mem_recency]
        exact ⟨.inr, fun h => h.elim (fun heq => heq ▸ hmem) id⟩
      have hkeeps : Keeps base start active p p₂ :=
        (h.keeps_steady hs).trans ⟨h₂, fun hp => hp.journals hj⟩
      have hput (image : Page) : Keeps base start active p (p₂.put no image p₂.recency) :=
        hkeeps.trans (h₂.put hno (h₂.coherent.cached_lt no hmem) h₂.coherent.recency_nodup
          hrecency hmay)
      -- marking the page dirty is writing its own image
      have hdirty : ({ p₂ with dirty := insert no p₂.dirty } : Pager).Coherent :=
        { h₂.coherent with
          dirty_cached := fun no' hno' => by
            rcases Finset.mem_insert.mp hno' with rfl | hno'
            · exact hmem
            · exact h₂.coherent.dirty_cached no' hno'
          clean := fun no' page' hpage' hclean =>
            h₂.coherent.clean no' page' hpage' fun h => hclean (Finset.mem_insert_of_mem h) }
      simp only [Exec.wp_bind, Exec.wp_modify, Exec.wp_get, Post.withOk_ok, hpage₂, Exec.unwrap,
        Exec.wp_pure]
      rcases hwrite : write page with _ | page'
      · refine ⟨hkeeps.trans ⟨⟨hdirty, h₂.state, h₂.quiet, fun hactive => ?_⟩, fun hp =>
          ⟨hp.calm, hp.length, hp.header⟩⟩, rfl, page, hcontent, hwrite⟩
        obtain ⟨hjournal, recs, htxn⟩ := h₂.guard hactive
        exact ⟨hjournal, recs, htxn.update (.refl _) .nil rfl rfl le_rfl (fun _ => rfl)
          (fun _ _ _ => rfl)⟩
      · refine ⟨hput page', ?_, page, page', hcontent, hwrite, ?_⟩
        · exact hj.header.trans hs.header
        · refine (content_put p₂ no page' p₂.recency).trans ?_
          rw [show p₂.content = p.content from funext fun no' =>
            (hj.content no').trans (hs.content no')]
    · rintro - p₂ ⟨h₂, hfaults⟩
      exact ⟨⟨h₂, fun hp => absurd (hs.calm hp.calm) hfaults⟩,
        fun hcalm => absurd (hs.calm hcalm) hfaults⟩
  · rintro - p₁ ⟨hs, hnone⟩
    exact ⟨h.keeps_steady hs, fun hcalm => ⟨hnone hcalm, hs.header, funext hs.content⟩⟩

/-! ## The header -/

/-- The header may change in memory once the image of page 0 is recorded. -/
theorem Guarded.setHeader (h : p.Guarded base start active) (hmay : MayOverwrite base active p 0)
    {header : Header} (hcount : p.header.pageCount.toNat ≤ header.pageCount.toNat) :
    { p with header }.Guarded base start active where
  coherent := { h.coherent with length_le := h.coherent.length_le.trans hcount }
  state := h.state
  quiet := h.quiet
  guard hactive := by
    obtain ⟨hjournal, recs, htxn⟩ := h.guard hactive
    refine ⟨hjournal, recs, htxn.update (.refl _) .nil rfl rfl hcount (fun hmem => ?_)
      (fun _ _ _ => rfl)⟩
    exact absurd ((htxn.journaled 0 htxn.nonempty).mp (hmay hactive htxn.nonempty)) hmem

/-- The pager after its header was written to page 0. -/
structure HeaderFlushed (base : List Page) (start : Os) (active : Bool) (p p' : Pager) :
    Prop where
  guarded : p'.Guarded base start active
  header : p'.header = p.header
  content : p'.content = Function.update p.content 0 (some p.header.toPage)
  length : p'.file.disk.db.length = p.file.disk.db.length
  cache : p'.cache = p.cache
  journaledPages : p'.journaledPages = p.journaledPages
  calm : p.file.faults = [] → p'.file.faults = []

theorem Guarded.flushHeader (h : p.Guarded base start active) {file : Os}
    (hissues : p.file.Issues file [.writePage 0 p.header.toPage]) :
    HeaderFlushed base start active p { p with file } := by
  have hdb : file.disk.db = writeAt p.file.disk.db 0 p.header.toPage := by
    rw [hissues.disk]
    rfl
  have hlen : file.disk.db.length = p.file.disk.db.length := by
    have := h.coherent.file_pos
    rw [hdb, writeAt_length]
    omega
  have hother {no : PageNo} (hno : no ≠ 0) :
      file.disk.db[no.toNat]? = p.file.disk.db[no.toNat]? := by
    rw [hdb]
    exact writeAt_getElem?_ne h.coherent.file_pos fun heq => hno (UInt32.toNat_inj.mp heq)
  have hcoherent : ({ p with file } : Pager).Coherent :=
    { h.coherent with
      clean := fun no page hpage hclean => by
        have hno : no ≠ 0 := fun heq =>
          h.coherent.header_uncached (heq ▸ AList.lookup_isSome.mp (by simp [hpage]))
        exact (hother hno).trans (h.coherent.clean no page hpage hclean)
      cached_lt := fun no hno => hlen ▸ h.coherent.cached_lt no hno
      length_le := hlen.symm ▸ h.coherent.length_le
      file_pos := hlen.symm ▸ h.coherent.file_pos }
  have hcontent : ({ p with file } : Pager).content =
      Function.update p.content 0 (some p.header.toPage) := by
    funext no
    by_cases hno : no = 0
    · subst hno
      rw [Function.update_self, hcoherent.content_zero]
      exact hdb ▸ writeAt_getElem?_same _ _ _
    · rw [Function.update_of_ne hno]
      simp only [Pager.content, hother hno]
  refine ⟨⟨hcoherent, h.state, fun hactive => ?_, fun hactive => ?_⟩, rfl, hcontent, hlen, rfl,
    rfl, hissues.calm⟩
  · rw [← h.quiet hactive, hissues.disk]
    rfl
  obtain ⟨hjournal, recs, htxn⟩ := h.guard hactive
  refine ⟨hjournal, recs, htxn.update hissues (.single (.overwrite fun _ => ?_)) rfl rfl le_rfl
    (fun _ => rfl) fun no hlt hmem => ?_⟩
  · by_cases hmem : (0 : PageNo) ∈ recs.map Prod.fst
    · exact .inl (mem_logged_undoLog.mpr hmem)
    · exact .inr (htxn.header hmem)
  · rw [hcontent]
    by_cases hno : no = 0
    · subst hno
      rw [Function.update_self, htxn.kept 0 hlt hmem]
      exact (htxn.header hmem).symm
    · rw [Function.update_of_ne hno]

/-- Writing the header fails only if the system refuses it. -/
theorem wp_flushHeader (h : p.Guarded base start active) {Q : Post Pager StorageError Unit}
    (hok : ∀ p', HeaderFlushed base start active p p' → Q.ok () p')
    (herror : ∀ e p', p'.Guarded base start active → p.file.faults ≠ [] → Q.error e p') :
    Exec.wp flushHeader Q p := by
  simp only [Pager.flushHeader, Exec.wp_bind, Exec.wp_get, Post.withOk_ok, wp_onFile]
  exact Os.wp_request (fun file hissues => hok _ (h.flushHeader hissues))
    (fun file hissues hfaults => herror _ _ (h.of_refused hissues) hfaults)

theorem HeaderFlushed.settled {p' : Pager} (h : HeaderFlushed base start active p p')
    (hcalm : p.file.faults = [])
    (hlen : p.file.disk.db.length = p.header.pageCount.toNat) : p'.Settled where
  calm := h.calm hcalm
  length := by rw [h.length, hlen, h.header]
  header := by rw [h.content, Function.update_self, h.header]

/-- Recording the header, changing it and writing it out. -/
theorem wp_setCatalogRoot (h : p.Guarded base start active) (root : PageNo) :
    Exec.wp (setCatalogRoot root)
      ⟨fun _ p' => Keeps base start active p p' ∧
          p'.header = { p.header with catalogRoot := root } ∧
          ∀ no ≠ 0, p'.content no = p.content no,
        fun _ p' => Keeps base start active p p' ∧ p.file.faults ≠ [],
        fun _ _ => False⟩ p := by
  refine Exec.wp_seq (wp_recordPreimageForHeader h) ?_ ?_ (fun _ _ h => h)
  · rintro - p₁ ⟨h₁, hj, hmay⟩
    have h₂ : ({ p₁ with header := { p₁.header with catalogRoot := root } } : Pager).Guarded
        base start active := h₁.setHeader hmay le_rfl
    simp only [Exec.wp_bind, Exec.wp_modify, Post.withOk_ok]
    refine wp_flushHeader h₂ (fun p' h' => ⟨⟨h'.guarded, fun hp => ?_⟩, ?_, ?_⟩) ?_
    · exact h'.settled (hj.calm hp.calm) (hp.journals hj).length
    · rw [h'.header, ← hj.header]
    · intro no hno
      rw [h'.content, Function.update_of_ne hno]
      exact hj.content no
    · exact fun _ p' h' hfaults =>
        ⟨⟨h', fun hp => absurd (hj.calm hp.calm) hfaults⟩, fun hcalm => hfaults (hj.calm hcalm)⟩
  · exact fun _ p' h' => ⟨⟨h'.1, fun hp => absurd hp.calm h'.2⟩, h'.2⟩

/-! ## Allocation -/

/-- The pager after it found a page to hand out, before the page is cleared. -/
structure Acquired (base : List Page) (start : Os) (active : Bool) (no : PageNo)
    (p p' : Pager) : Prop where
  keeps : Keeps base start active p p'
  ne_zero : no ≠ 0
  lt : no.toNat < p'.file.disk.db.length
  may : MayOverwrite base active p' no
  content : ∀ no' ≠ 0, (p.content no').isSome → p'.content no' = p.content no'

/-- What allocation does to the header: it takes the freelist's head, or a new page. -/
inductive Allocated (p : Pager) (no : PageNo) : Header → Prop
  | reused {page next} (hhead : p.header.freelistHead ≠ 0) (hno : no = p.header.freelistHead)
      (hpage : p.content no = some page) (hnext : page.readU32 0 = some next) :
      Allocated p no { p.header with freelistHead := next }
  | grown (hhead : p.header.freelistHead = 0) (hno : no = p.header.pageCount)
      (hlt : no.toNat + 1 < 2 ^ 32) :
      Allocated p no { p.header with pageCount := no + 1 }

theorem toNat_add_one {no : UInt32} (h : no.toNat + 1 < 2 ^ 32) :
    (no + 1).toNat = no.toNat + 1 := by
  rw [UInt32.toNat_add]
  exact Nat.mod_eq_of_lt h

/-- The pager after the file was extended to the page count of the header. -/
structure Extended (base : List Page) (start : Os) (active : Bool) (p p' : Pager) : Prop where
  guarded : p'.Guarded base start active
  header : p'.header = p.header
  length : p'.file.disk.db.length = p.header.pageCount.toNat
  content : ∀ no page, p.content no = some page → p'.content no = some page
  journaledPages : p'.journaledPages = p.journaledPages
  calm : p.file.faults = [] → p'.file.faults = []

theorem Guarded.extend (h : p.Guarded base start active) {file : Os}
    (hissues : p.file.Issues file [.setLen p.header.pageCount.toNat]) :
    Extended base start active p { p with file } := by
  have hdb : file.disk.db = resize p.file.disk.db p.header.pageCount.toNat := by
    rw [hissues.disk]
    rfl
  have hlen : file.disk.db.length = p.header.pageCount.toNat := by rw [hdb, resize_length]
  have hle := h.coherent.length_le
  have hold {i : Nat} {page : Page} (hpage : p.file.disk.db[i]? = some page) :
      file.disk.db[i]? = some page := by
    have hi := (List.getElem?_eq_some_iff.mp hpage).1
    rw [hdb]
    exact resize_getElem?_of_some (by omega) hpage
  have hcontent (no : PageNo) (page : Page) (hpage : p.content no = some page) :
      ({ p with file } : Pager).content no = some page := by
    by_cases hmem : no ∈ p.cache
    · obtain ⟨page', hpage'⟩ := lookup_of_mem hmem
      rw [← hpage, content_of_lookup hpage']
      exact content_of_lookup (p := { p with file }) hpage'
    · rw [content_of_not_mem hmem] at hpage
      exact (content_of_not_mem (p := { p with file }) hmem).trans (hold hpage)
  have hcoherent : ({ p with file } : Pager).Coherent :=
    { h.coherent with
      clean := fun no page hpage hclean => hold (h.coherent.clean no page hpage hclean)
      cached_lt := fun no hno => by
        have := h.coherent.cached_lt no hno
        simp only [hlen]
        omega
      length_le := by simp only [hlen, le_refl]
      file_pos := by
        have := h.coherent.file_pos
        simp only [hlen]
        omega }
  refine ⟨⟨hcoherent, h.state, fun hactive => ?_, fun hactive => ?_⟩, rfl, hlen, hcontent, rfl,
    hissues.calm⟩
  · rw [← h.quiet hactive, hissues.disk]
    rfl
  obtain ⟨hjournal, recs, htxn⟩ := h.guard hactive
  refine ⟨hjournal, recs, htxn.update hissues (.single (.extend ?_)) rfl rfl le_rfl
    (fun _ => rfl) fun no hlt hmem => ?_⟩
  · rw [htxn.base_length]
    exact htxn.grown
  · have hkept := htxn.kept no hlt hmem
    rw [List.getElem?_eq_getElem hlt] at hkept
    rw [hkept, hcontent no _ hkept]

theorem wp_growFile (h : p.Guarded base start active) (hmay : MayOverwrite base active p 0) :
    Exec.wp growFile
      ⟨fun no p' => Acquired base start active no p p' ∧ no = p.header.pageCount ∧
          no.toNat + 1 < 2 ^ 32 ∧ p'.header = { p.header with pageCount := no + 1 },
        fun _ p' => p'.Guarded base start active ∧ p.file.faults ≠ [],
        fun why p' => p' = p ∧ why = .overflow ∧ p.header.pageCount.toNat + 1 = 2 ^ 32⟩ p := by
  simp only [growFile, Exec.wp_bind, Exec.wp_get, Post.withOk_ok]
  split
  next hfull => exact ⟨rfl, rfl, hfull⟩
  next hfull =>
    have hlt : p.header.pageCount.toNat + 1 < 2 ^ 32 := by
      have := p.header.pageCount.toNat_lt
      omega
    have hcount := toNat_add_one hlt
    have hpos := h.coherent.file_pos
    have hle := h.coherent.length_le
    have hne : p.header.pageCount ≠ 0 := fun heq => by
      simp only [heq, UInt32.toNat_zero] at hle
      omega
    have h₁ : ({ p with header := { p.header with pageCount := p.header.pageCount + 1 } } :
        Pager).Guarded base start active := h.setHeader hmay (by simp only [hcount]; omega)
    simp only [Exec.wp_bind, Exec.wp_modify, Post.withOk_ok]
    refine wp_flushHeader h₁ (fun p₂ h₂ => ?_) (fun _ p₂ h₂ hfaults => ⟨h₂, hfaults⟩)
    have hheader : p₂.header.pageCount = p.header.pageCount + 1 := by rw [h₂.header]
    simp only [wp_onFile, Exec.wp_pure, Post.withOk_ok, Post.withOk_error, Post.withOk_stop,
      ← hheader]
    refine Os.wp_request (fun file hissues => ?_)
      (fun file hissues hfaults => ⟨h₂.guarded.of_refused hissues, fun hcalm =>
        hfaults (h₂.calm hcalm)⟩)
    have h₃ := h₂.guarded.extend hissues
    refine ⟨⟨⟨h₃.guarded, fun hp => ⟨h₃.calm (h₂.calm hp.calm), by rw [h₃.length, h₃.header],
      ?_⟩⟩, hne, ?_, fun hactive hlt' => ?_, fun no hno hsome => ?_⟩, trivial, hlt, ?_⟩
    · refine h₃.content 0 _ ?_
      rw [h₂.content, Function.update_self, h₂.header]
    · rw [h₃.length, hheader, hcount]
      omega
    · obtain ⟨-, recs, htxn⟩ := h.guard hactive
      have := htxn.grown
      have := htxn.base_length
      omega
    · obtain ⟨page, hpage⟩ := Option.isSome_iff_exists.mp hsome
      rw [hpage]
      refine h₃.content no page ?_
      rw [h₂.content, Function.update_of_ne hno]
      exact hpage
    · rw [hheader]
      exact h₃.header.trans h₂.header

theorem readU32_zero (page : Page) : ∃ v, page.readU32 0 = some v := by
  simp [Page.readU32, Page.readBytes, pageSize]

theorem Keeps.acquired {p' : Pager} (h : Keeps base start active p p') {no : PageNo}
    (hno : no ≠ 0) (hmem : no ∈ p'.cache) (hmay : MayOverwrite base active p' no)
    (hcontent : ∀ no' ≠ 0, p'.content no' = p.content no') :
    Acquired base start active no p p' :=
  ⟨h, hno, h.guarded.coherent.cached_lt no hmem, hmay, fun no' hno' _ => hcontent no' hno'⟩

theorem wp_popFreelist (h : p.Guarded base start active) (hmay : MayOverwrite base active p 0)
    {freeNo : PageNo} (hno : freeNo ≠ 0) :
    Exec.wp (popFreelist freeNo)
      ⟨fun no p' => Acquired base start active no p p' ∧ no = freeNo ∧
          ∃ page next, p.content no = some page ∧ page.readU32 0 = some next ∧
            p'.header = { p.header with freelistHead := next },
        fun _ p' => Keeps base start active p p' ∧
          (p.Settled → p.content freeNo = none ∧ p'.header = p.header ∧
            p'.content = p.content),
        fun _ _ => False⟩ p := by
  refine Exec.wp_seq (wp_ensureLoaded h.coherent hno) ?_ ?_ (fun _ _ h => h.elim)
  · rintro - p₁ ⟨hs, page, hpage⟩
    have hcontent : p.content freeNo = some page := by rw [← hs.content, content_of_lookup hpage]
    have hmay₁ : MayOverwrite base active p₁ 0 := fun hactive hlt => by
      rw [hs.journaledPages]
      exact hmay hactive hlt
    refine Exec.wp_seq (wp_journalForReuse (h.steady hs) hpage) ?_ ?_ (fun _ _ h => h.elim)
    · rintro - p₂ ⟨h₂, hj, hmay₂⟩
      have hpage₂ : p₂.cache.lookup freeNo = some page := by rw [hj.cache, hpage]
      obtain ⟨next, hnext⟩ := readU32_zero page
      have h₃ : ({ p₂ with header := { p₂.header with freelistHead := next } } : Pager).Guarded
          base start active :=
        h₂.setHeader (fun hactive hlt => hj.journaledPages (hmay₁ hactive hlt)) le_rfl
      simp only [Exec.wp_bind, Exec.wp_modify, Exec.wp_get, Post.withOk_ok, hpage₂, Exec.unwrap,
        Exec.wp_pure, hnext]
      refine wp_flushHeader h₃ (fun p₄ h₄ => ?_) (fun _ p₄ h₄ hfaults => ⟨⟨h₄, fun hp =>
        absurd (hj.calm (hs.calm hp.calm)) hfaults⟩, fun hp =>
        absurd (hj.calm (hs.calm hp.calm)) hfaults⟩)
      have hkeeps : Keeps base start active p p₄ := ⟨h₄.guarded, fun hp =>
        h₄.settled (hj.calm (hs.calm hp.calm)) ((hp.steady hs).journals hj).length⟩
      have hmem : freeNo ∈ p₄.cache := AList.lookup_isSome.mp (by simp [h₄.cache, hpage₂])
      refine ⟨hkeeps.acquired hno hmem (fun hactive hlt => ?_) (fun no hne => ?_), trivial, page, next,
        hcontent, hnext, ?_⟩
      · rw [h₄.journaledPages]
        exact hmay₂ hactive hlt
      · rw [h₄.content, Function.update_of_ne hne]
        exact (hj.content no).trans (hs.content no)
      · rw [h₄.header, ← hs.header, ← hj.header]
    · rintro - p₂ ⟨h₂, hfaults⟩
      exact ⟨⟨h₂, fun hp => absurd (hs.calm hp.calm) hfaults⟩,
        fun hp => absurd (hs.calm hp.calm) hfaults⟩
  · rintro - p₁ ⟨hs, hnone⟩
    exact ⟨h.keeps_steady hs, fun hp => ⟨hnone hp.calm, hs.header, funext hs.content⟩⟩

/-- Clearing room for an acquired page and putting its image into the cache. -/
theorem wp_insertAcquired {p₁ : Pager} {no : PageNo} {page : Page}
    (h : Acquired base start active no p p₁) {Q : Post Pager StorageError Unit}
    (hok : ∀ p', Keeps base start active p p' → p'.header = p₁.header →
      p'.journaledPages = p₁.journaledPages → p'.content no = some page →
      (∀ no' ≠ 0, no' ≠ no → (p.content no').isSome → p'.content no' = p.content no') →
      Q.ok () p')
    (herror : ∀ e p', Keeps base start active p p' → ¬p.Settled → Q.error e p') :
    Exec.wp evictIfNeeded (Q.withOk fun _ p₂ => Exec.wp (insertDirty no page) Q p₂) p₁ := by
  have h₁ := h.keeps.guarded
  refine Exec.wp_mono (wp_evictIfNeeded h₁.coherent) ?_ ?_ (fun _ _ h => h.elim)
  · rintro - p₂ ⟨hs, -⟩
    have h₂ := h₁.steady hs
    have hmay : MayOverwrite base active p₂ no := fun hactive hlt => by
      rw [hs.journaledPages]
      exact h.may hactive hlt
    have hput : Keeps base start active p₂
        (p₂.put no page (p₂.recency.filter (· ≠ no) ++ [no])) := by
      refine h₂.put h.ne_zero (by rw [hs.length]; exact h.lt) ?_ (fun no' => ?_) hmay
      · refine List.Nodup.append (h₂.coherent.recency_nodup.filter _)
          (List.nodup_singleton no) ?_
        simp [List.disjoint_singleton]
      · by_cases heq : no' = no
        · simp [heq]
        · simp [heq, h₂.coherent.mem_recency]
    refine hok _ (h.keeps.trans ((h₁.keeps_steady hs).trans hput)) hs.header
      hs.journaledPages ?_ ?_
    · exact (congrFun (content_put ..) no).trans (Function.update_self ..)
    · intro no' hne hno' hsome
      refine (congrFun (content_put ..) no').trans ?_
      rw [Function.update_of_ne hno', hs.content, h.content no' hne hsome]
  · rintro e p₂ ⟨hs, hfaults⟩
    exact herror e p₂ (h.keeps.trans (h₁.keeps_steady hs))
      fun hp => hfaults (h.keeps.settled hp).calm

theorem Recorded.keeps {no : PageNo} {p' : Pager} (h : Recorded base start active no p p') :
    Keeps base start active p p' :=
  ⟨h.guarded, fun hp => hp.journals h.journals⟩

theorem Allocated.of_journals {p' : Pager} {no : PageNo} {header : Header} (h : Journals p p')
    (ha : Allocated p' no header) : Allocated p no header := by
  cases ha with
  | reused hhead hno hpage hnext =>
      rw [h.header] at hhead hno ⊢
      exact .reused hhead hno (h.content no ▸ hpage) hnext
  | grown hhead hno hlt =>
      rw [h.header] at hhead hno ⊢
      exact .grown hhead hno hlt

theorem Acquired.of_keeps {p₁ p' : Pager} {no : PageNo} (h : Keeps base start active p p₁)
    (hcontent : p₁.content = p.content) (ha : Acquired base start active no p₁ p') :
    Acquired base start active no p p' :=
  ⟨h.trans ha.keeps, ha.ne_zero, ha.lt, ha.may, hcontent ▸ ha.content⟩

/-- How an allocation that hands out no page leaves the pager. -/
def allocateError (base : List Page) (start : Os) (active : Bool) (p p' : Pager) : Prop :=
  Keeps base start active p p' ∧
    (p.Settled → p.header.freelistHead ≠ 0 ∧ p.content p.header.freelistHead = none ∧
      p'.header = p.header ∧ p'.content = p.content)

def allocateStop (base : List Page) (start : Os) (active : Bool) (p : Pager) (why : Stop)
    (p' : Pager) : Prop :=
  Keeps base start active p p' ∧ why = .overflow ∧ p.header.freelistHead = 0 ∧
    p.header.pageCount.toNat + 1 = 2 ^ 32 ∧ p'.header = p.header ∧ p'.content = p.content

theorem wp_acquirePage (h : p.Guarded base start active) :
    Exec.wp acquirePage
      ⟨fun no p' => Acquired base start active no p p' ∧ Allocated p no p'.header,
        fun _ p' => allocateError base start active p p',
        fun why p' => allocateStop base start active p why p'⟩ p := by
  refine Exec.wp_seq (wp_recordPreimageForHeader h) ?_ ?_ (fun _ _ h => h.elim)
  · intro _ p₁ h₁
    have hj := h₁.journals
    have hcontent : p₁.content = p.content := funext hj.content
    simp only [Exec.wp_bind, Exec.wp_get, Post.withOk_ok]
    split
    next hhead =>
      refine Exec.wp_mono (wp_popFreelist h₁.guarded h₁.journaled hhead) ?_ ?_
        (fun _ _ h => h.elim)
      · rintro no p₂ ⟨h₂, hno, page, next, hpage, hnext, hheader⟩
        refine ⟨.of_keeps h₁.keeps hcontent h₂, ?_⟩
        rw [hheader]
        exact (Allocated.reused hhead hno hpage hnext).of_journals hj
      · rintro - p₂ ⟨hkeeps, hnone⟩
        refine ⟨h₁.keeps.trans hkeeps, fun hp => ?_⟩
        obtain ⟨hnone, hheader, hcontent₂⟩ := hnone (h₁.keeps.settled hp)
        rw [hj.header] at hhead hnone hheader
        exact ⟨hhead, hcontent ▸ hnone, hheader, hcontent₂.trans hcontent⟩
    next hhead =>
      refine Exec.wp_mono (wp_growFile h₁.guarded h₁.journaled) ?_ ?_ ?_
      · rintro no p₂ ⟨h₂, hno, hlt, hheader⟩
        refine ⟨.of_keeps h₁.keeps hcontent h₂, ?_⟩
        rw [hheader]
        exact (Allocated.grown (not_not.mp hhead) hno hlt).of_journals hj
      · rintro - p₂ ⟨h₂, hfaults⟩
        have hp (hp : p.Settled) : False := hfaults (hj.calm hp.calm)
        exact ⟨⟨h₂, fun h => (hp h).elim⟩, fun h => (hp h).elim⟩
      · rintro why p₂ ⟨rfl, hwhy, hfull⟩
        rw [hj.header] at hhead hfull
        exact ⟨h₁.keeps, hwhy, not_not.mp hhead, hfull, hj.header, hcontent⟩
  · exact fun _ p' h' => ⟨⟨h'.1, fun hp => absurd hp.calm h'.2⟩, fun hp => absurd hp.calm h'.2⟩

theorem wp_allocatePage (h : p.Guarded base start active) :
    Exec.wp allocatePage
      ⟨fun no p' => Keeps base start active p p' ∧ no ≠ 0 ∧ Allocated p no p'.header ∧
          p'.content no = some Page.zeroed ∧
          ∀ no' ≠ 0, no' ≠ no → (p.content no').isSome → p'.content no' = p.content no',
        fun _ p' => allocateError base start active p p',
        fun why p' => allocateStop base start active p why p'⟩ p := by
  refine Exec.wp_seq (wp_acquirePage h) ?_ (fun _ _ h => h) (fun _ _ h => h)
  rintro no p₁ ⟨h₁, ha⟩
  simp only [Exec.wp_bind]
  refine wp_insertAcquired h₁ (fun p' hkeeps hheader _ hno hcontent => ?_)
    (fun _ p' hkeeps hp => ⟨hkeeps, fun h => absurd h hp⟩)
  exact ⟨hkeeps, h₁.ne_zero, hheader ▸ ha, hno, hcontent⟩

/-- The image of a free page: a link to the next one. -/
def linkPage (next : PageNo) : Page := Page.zeroed.patch 0 (beBytes 4 next.toNat)

theorem linkPage_eq (next : PageNo) : Page.zeroed.writeU32 0 next = some (linkPage next) := by
  simp [Page.writeU32, Page.writeBytes, linkPage, pageSize]

@[simp] theorem readU32_linkPage (next : PageNo) : (linkPage next).readU32 0 = some next := by
  refine Page.readU32_of_slice (by simp [pageSize]) ?_
  have h := Page.slice_patch_same Page.zeroed 0 (beBytes 4 next.toNat) (by simp [pageSize])
  rwa [beBytes_length] at h

theorem wp_freePage (h : p.Guarded base start active) {no : PageNo} (hno : no ≠ 0) :
    Exec.wp (freePage no)
      ⟨fun _ p' => Keeps base start active p p' ∧ (p.content no).isSome ∧
          p'.header = { p.header with freelistHead := no } ∧
          p'.content no = some (linkPage p.header.freelistHead) ∧
          ∀ no' ≠ 0, no' ≠ no → (p.content no').isSome → p'.content no' = p.content no',
        fun _ p' => Keeps base start active p p' ∧
          (p.Settled → p.content no = none ∧ p'.header = p.header ∧ p'.content = p.content),
        fun _ _ => False⟩ p := by
  refine Exec.wp_seq (wp_recordPreimageForHeader h) ?_ ?_ (fun _ _ h => h.elim)
  · rintro - p₁ ⟨h₁, hj₁, hmay₁⟩
    refine Exec.wp_seq (wp_ensureLoaded h₁.coherent hno) ?_ ?_ (fun _ _ h => h.elim)
    · rintro - p₂ ⟨hs, page, hpage⟩
      refine Exec.wp_seq (wp_journalForReuse (h₁.steady hs) hpage) ?_ ?_ (fun _ _ h => h.elim)
      · rintro - p₃ ⟨h₃, hj₃, hmay₃⟩
        have hkeeps : Keeps base start active p p₃ := ⟨h₃, fun hp =>
          ((hp.journals hj₁).steady hs).journals hj₃⟩
        have hcontent (no' : PageNo) : p₃.content no' = p.content no' :=
          (hj₃.content no').trans ((hs.content no').trans (hj₁.content no'))
        have hheader : p₃.header = p.header := hj₃.header.trans (hs.header.trans hj₁.header)
        have hcached : no ∈ p₃.cache := AList.lookup_isSome.mp (by simp [hj₃.cache, hpage])
        have hacq : Acquired base start active no p p₃ :=
          hkeeps.acquired hno hcached hmay₃ fun no' _ => hcontent no'
        simp only [Exec.wp_bind, Exec.wp_get, Exec.wp_modify, Post.withOk_ok, linkPage_eq,
          Exec.unwrap, Exec.wp_pure, hheader]
        refine wp_insertAcquired hacq (fun p₄ hkeeps₄ hheader₄ hjournaled₄ hno₄ hcontent₄ => ?_)
          (fun _ p₄ hkeeps₄ hp => ⟨hkeeps₄, fun h => absurd h hp⟩)
        have hmay₄ : MayOverwrite base active p₄ 0 := fun hactive hlt => by
          rw [hjournaled₄]
          refine hj₃.journaledPages ?_
          rw [hs.journaledPages]
          exact hmay₁ hactive hlt
        have h₅ : ({ p₄ with header := { p₄.header with freelistHead := no } } : Pager).Guarded
            base start active := hkeeps₄.guarded.setHeader hmay₄ le_rfl
        refine wp_flushHeader h₅ (fun p' h' => ⟨⟨h'.guarded, fun hp => ?_⟩, ?_, ?_, ?_, ?_⟩)
          (fun _ p' h' hfaults => ?_)
        · exact h'.settled (hkeeps₄.settled hp).calm (hkeeps₄.settled hp).length
        · have hpage₃ : p₃.cache.lookup no = some page := by rw [hj₃.cache, hpage]
          rw [← hcontent no, content_of_lookup hpage₃]
          rfl
        · rw [h'.header, hheader₄, hheader]
        · rw [h'.content, Function.update_of_ne hno]
          exact hno₄
        · intro no' hne hno' hsome
          rw [h'.content, Function.update_of_ne hne]
          exact hcontent₄ no' hne hno' hsome
        · have hp (hp : p.Settled) : False := hfaults (hkeeps₄.settled hp).calm
          exact ⟨⟨h', fun h => (hp h).elim⟩, fun h => (hp h).elim⟩
      · rintro - p₃ ⟨h₃, hfaults⟩
        have hp (hp : p.Settled) : False := hfaults (hs.calm (hj₁.calm hp.calm))
        exact ⟨⟨h₃, fun h => (hp h).elim⟩, fun h => (hp h).elim⟩
    · rintro - p₂ ⟨hs, hnone⟩
      refine ⟨⟨h₁.steady hs, fun hp => (hp.journals hj₁).steady hs⟩, fun hp => ⟨?_, ?_, ?_⟩⟩
      · rw [← hj₁.content, hnone (hj₁.calm hp.calm)]
      · rw [hs.header, hj₁.header]
      · exact funext fun no' => (hs.content no').trans (hj₁.content no')
  · exact fun _ p' h' => ⟨⟨h'.1, fun hp => absurd hp.calm h'.2⟩, fun hp => absurd hp.calm h'.2⟩

end Steps

end ChocoBase.Storage.Pager
