import ChocoBase.Storage.Recovery

/-!
# The page cache

The logical content of a page is its cached image, or the image in the file if
it is not cached.  Loading and evicting move images between the two and leave
the content of every page as it is (`Steady`).
-/

namespace ChocoBase.Storage.Pager

open ChocoBase.Foundation
open Exec (Post)

/-- What a page reads as. -/
def content (p : Pager) (no : PageNo) : Option Page :=
  (p.cache.lookup no).or p.file.disk.db[no.toNat]?

/-- The four views of the cached pages agree with each other and with the file. -/
structure Coherent (p : Pager) : Prop where
  recency_nodup : p.recency.Nodup
  mem_recency : ∀ no, no ∈ p.recency ↔ no ∈ p.cache
  dirty_cached : ∀ no ∈ p.dirty, no ∈ p.cache
  clean : ∀ no page, p.cache.lookup no = some page → no ∉ p.dirty →
    p.file.disk.db[no.toNat]? = some page
  header_uncached : 0 ∉ p.cache
  cached_lt : ∀ no ∈ p.cache, no.toNat < p.file.disk.db.length
  length_le : p.file.disk.db.length ≤ p.header.pageCount.toNat
  file_pos : 0 < p.file.disk.db.length

/-- A request that writes the content of a dirty page back, or syncs the file. -/
inductive WritesBack (p : Pager) : DiskOp → Prop
  | page {no page} (hdirty : no ∈ p.dirty) (hcontent : p.content no = some page) :
      WritesBack p (.writePage no.toNat page)
  | sync : WritesBack p .syncDb

/-- `p'` is `p` after some loads and evictions. -/
structure Steady (p p' : Pager) : Prop where
  coherent : p'.Coherent
  header : p'.header = p.header
  capacity : p'.capacity = p.capacity
  inTransaction : p'.inTransaction = p.inTransaction
  journal : p'.journal = p.journal
  journaledPages : p'.journaledPages = p.journaledPages
  origPageCount : p'.origPageCount = p.origPageCount
  dirty : p'.dirty ⊆ p.dirty
  content : ∀ no, p'.content no = p.content no
  length : p'.file.disk.db.length = p.file.disk.db.length
  trace : ∃ ops, p.file.Issues p'.file ops ∧ ∀ op ∈ ops, WritesBack p op

theorem content_of_lookup {p : Pager} {no : PageNo} {page : Page}
    (h : p.cache.lookup no = some page) : p.content no = some page := by
  simp [content, h]

theorem content_of_not_mem {p : Pager} {no : PageNo} (h : no ∉ p.cache) :
    p.content no = p.file.disk.db[no.toNat]? := by
  simp [content, AList.lookup_eq_none.mpr h]

theorem lookup_of_mem {p : Pager} {no : PageNo} (h : no ∈ p.cache) :
    ∃ page, p.cache.lookup no = some page :=
  Option.isSome_iff_exists.mp (AList.lookup_isSome.mpr h)

namespace Coherent

variable {p : Pager}

theorem zero_not_dirty (h : p.Coherent) : 0 ∉ p.dirty := fun hmem =>
  h.header_uncached (h.dirty_cached 0 hmem)

/-- A page that is not dirty reads as the file has it. -/
theorem content_of_clean (h : p.Coherent) {no : PageNo} (hclean : no ∉ p.dirty) :
    p.content no = p.file.disk.db[no.toNat]? := by
  by_cases hmem : no ∈ p.cache
  · obtain ⟨page, hpage⟩ := lookup_of_mem hmem
    rw [content_of_lookup hpage, h.clean no page hpage hclean]
  · exact content_of_not_mem hmem

theorem content_zero (h : p.Coherent) : p.content 0 = p.file.disk.db[0]? :=
  content_of_not_mem h.header_uncached

/-- Exactly the pages of the file have a content. -/
theorem content_isSome_iff (h : p.Coherent) (no : PageNo) :
    (p.content no).isSome ↔ no.toNat < p.file.disk.db.length := by
  by_cases hmem : no ∈ p.cache
  · obtain ⟨page, hpage⟩ := lookup_of_mem hmem
    simp [content_of_lookup hpage, h.cached_lt no hmem]
  · simp [content_of_not_mem hmem]

theorem lt_of_content (h : p.Coherent) {no : PageNo} {page : Page}
    (hpage : p.content no = some page) : no.toNat < p.file.disk.db.length :=
  (h.content_isSome_iff no).mp (by simp [hpage])

end Coherent

namespace WritesBack

theorem of_steady {p p' : Pager} {op : DiskOp} (h : Steady p p') (hop : WritesBack p' op) :
    WritesBack p op := by
  cases hop with
  | page hdirty hcontent => exact .page (h.dirty hdirty) (h.content _ ▸ hcontent)
  | sync => exact .sync

end WritesBack

namespace Steady

variable {p p' p'' : Pager}

theorem refl (h : p.Coherent) : Steady p p where
  coherent := h
  header := rfl
  capacity := rfl
  inTransaction := rfl
  journal := rfl
  journaledPages := rfl
  origPageCount := rfl
  dirty := Finset.Subset.refl _
  content _ := rfl
  length := rfl
  trace := ⟨[], .refl _, by simp⟩

theorem trans (h : Steady p p') (h' : Steady p' p'') : Steady p p'' where
  coherent := h'.coherent
  header := h'.header.trans h.header
  capacity := h'.capacity.trans h.capacity
  inTransaction := h'.inTransaction.trans h.inTransaction
  journal := h'.journal.trans h.journal
  journaledPages := h'.journaledPages.trans h.journaledPages
  origPageCount := h'.origPageCount.trans h.origPageCount
  dirty := h'.dirty.trans h.dirty
  content no := (h'.content no).trans (h.content no)
  length := h'.length.trans h.length
  trace := by
    obtain ⟨ops, hissues, hops⟩ := h.trace
    obtain ⟨ops', hissues', hops'⟩ := h'.trace
    refine ⟨ops ++ ops', hissues.trans hissues', fun op hop => ?_⟩
    rcases List.mem_append.mp hop with hop | hop
    · exact hops op hop
    · exact (hops' op hop).of_steady h

theorem calm (h : Steady p p') (hcalm : p.file.faults = []) : p'.file.faults = [] := by
  obtain ⟨ops, hissues, -⟩ := h.trace
  exact hissues.calm hcalm

/-- Writing dirty pages back does not touch the journal. -/
theorem journal_file (h : Steady p p') : p'.file.disk.journal = p.file.disk.journal := by
  obtain ⟨ops, hissues, hops⟩ := h.trace
  rw [hissues.disk]
  clear hissues
  generalize p.file.disk = disk
  induction ops generalizing disk with
  | nil => rfl
  | cons op ops ih =>
      rw [List.forall_mem_cons] at hops
      refine (ih hops.2 (disk.apply op)).trans ?_
      cases hops.1 <;> rfl

/-- Writing dirty pages back does not touch page 0. -/
theorem header_page (hp : p.Coherent) (h : Steady p p') :
    p'.file.disk.db[0]? = p.file.disk.db[0]? := by
  rw [← hp.content_zero, ← h.coherent.content_zero, h.content]

/-- A failed request changes nothing. -/
theorem of_refused (hp : p.Coherent) {file : Os} (h : p.file.Issues file []) :
    Steady p { p with file } := by
  have hdisk : file.disk = p.file.disk := h.disk
  refine { refl hp with
    coherent := ?_
    content := fun no => ?_
    length := by simp [hdisk]
    trace := ⟨[], h, by simp⟩ }
  · exact { hp with
      clean := by simpa [hdisk] using hp.clean
      cached_lt := by simpa [hdisk] using hp.cached_lt
      length_le := by simpa [hdisk] using hp.length_le
      file_pos := by simpa [hdisk] using hp.file_pos }
  · simp [Pager.content, hdisk]

end Steady

/-! ## Writing back -/

/-- Write a dirty page back and mark it clean. -/
theorem Steady.writeBack {p : Pager} (hp : p.Coherent) {no : PageNo} {page : Page}
    (hdirty : no ∈ p.dirty) (hpage : p.cache.lookup no = some page) {file : Os}
    (h : p.file.Issues file [.writePage no.toNat page]) :
    Steady p { p with file, dirty := p.dirty.erase no } := by
  have hdb : file.disk.db = writeAt p.file.disk.db no.toNat page := by rw [h.disk]; rfl
  have hne {no' : PageNo} (hno : no' ≠ no) : no'.toNat ≠ no.toNat := fun heq =>
    hno (UInt32.toNat_inj.mp heq)
  have hlt := hp.cached_lt no (hp.dirty_cached no hdirty)
  have hlen : file.disk.db.length = p.file.disk.db.length := by
    rw [hdb, writeAt_length]
    omega
  refine { refl hp with
    coherent := { hp with
      dirty_cached := fun no' hno' => hp.dirty_cached no' (Finset.mem_of_mem_erase hno')
      clean := ?_
      cached_lt := fun no' hno' => hlen ▸ hp.cached_lt no' hno'
      length_le := hlen.symm ▸ hp.length_le
      file_pos := hlen.symm ▸ hp.file_pos }
    dirty := Finset.erase_subset _ _
    content := fun no' => ?_
    length := hlen
    trace := ⟨_, h, ?_⟩ }
  · intro no' page' hpage' hclean
    simp only [hdb]
    by_cases hno : no' = no
    · subst hno
      rw [writeAt_getElem?_same, ← hpage, hpage']
    · refine writeAt_getElem?_of_some (hne hno) (hp.clean no' page' hpage' fun hmem => hclean ?_)
      exact Finset.mem_erase.mpr ⟨hno, hmem⟩
  · by_cases hmem : no' ∈ p.cache
    · obtain ⟨page', hpage'⟩ := lookup_of_mem hmem
      rw [content_of_lookup hpage']
      exact content_of_lookup (p := { p with file, dirty := p.dirty.erase no }) hpage'
    · have hno : no' ≠ no := fun heq => hmem (heq ▸ hp.dirty_cached no hdirty)
      rw [content_of_not_mem hmem]
      refine (content_of_not_mem (p := { p with file, dirty := p.dirty.erase no }) hmem).trans ?_
      simp only [hdb]
      exact writeAt_getElem?_ne hlt (hne hno)
  · intro op hop
    obtain rfl := List.mem_singleton.mp hop
    exact .page hdirty (content_of_lookup hpage)

/-- Drop a clean page from the front of the recency queue. -/
theorem Steady.evict {p : Pager} (hp : p.Coherent) {victim : PageNo} {rest : List PageNo}
    (hrecency : p.recency = victim :: rest) (hclean : victim ∉ p.dirty) :
    Steady p { p with cache := p.cache.erase victim, recency := rest } := by
  have hnodup : victim ∉ rest ∧ rest.Nodup := List.nodup_cons.mp (hrecency ▸ hp.recency_nodup)
  have hlookup {no : PageNo} {page : Page}
      (h : (p.cache.erase victim).lookup no = some page) :
      no ≠ victim ∧ p.cache.lookup no = some page := by
    by_cases hno : no = victim
    · subst hno
      simp at h
    · exact ⟨hno, by rwa [AList.lookup_erase_ne hno] at h⟩
  refine { refl hp with
    coherent := { hp with
      recency_nodup := hnodup.2
      mem_recency := fun no => ?_
      dirty_cached := fun no hno =>
        AList.mem_erase.mpr ⟨fun h => hclean (h ▸ hno), hp.dirty_cached no hno⟩
      clean := fun no page h hno => hp.clean no page (hlookup h).2 hno
      header_uncached := fun h => hp.header_uncached (AList.mem_erase.mp h).2
      cached_lt := fun no hno => hp.cached_lt no (AList.mem_erase.mp hno).2 }
    content := fun no => ?_ }
  · have hmem := hp.mem_recency no
    rw [hrecency, List.mem_cons] at hmem
    rw [AList.mem_erase, ← hmem]
    constructor
    · exact fun h => ⟨fun heq => hnodup.1 (heq ▸ h), .inr h⟩
    · exact fun ⟨hne, h⟩ => h.resolve_left hne
  · by_cases hno : no = victim
    · subst hno
      have hmem : no ∈ p.cache := (hp.mem_recency no).mp (by simp [hrecency])
      obtain ⟨page, hpage⟩ := lookup_of_mem hmem
      simp [Pager.content, hpage, hp.clean no page hpage hclean]
    · simp [Pager.content, AList.lookup_erase_ne hno]

/-- Run file requests and describe what they do to the file. -/
theorem wp_onFile {α : Type} (x : Exec Os StorageError α) (Q : Post Pager StorageError α)
    (p : Pager) :
    Exec.wp (onFile x) Q p ↔
      Exec.wp x ⟨fun a file => Q.ok a { p with file }, fun e file => Q.error e { p with file },
        fun c file => Q.stop c { p with file }⟩ p.file :=
  Exec.wp_zoom ..

/-- A step that only loads and evicts; it fails only if the system refuses a request. -/
def steadyPost {α : Type} (p : Pager) (ok : α → Pager → Prop) : Post Pager StorageError α where
  ok a p' := Steady p p' ∧ ok a p'
  error _ p' := Steady p p' ∧ p.file.faults ≠ []
  stop _ _ := False

theorem wp_writePageToDisk {p : Pager} (hp : p.Coherent) {no : PageNo} (hdirty : no ∈ p.dirty)
    {Q : Post Pager StorageError Unit}
    (hok : ∀ file, Steady p { p with file, dirty := p.dirty.erase no } → Q.ok () { p with file })
    (herror : ∀ e file, Steady p { p with file } → p.file.faults ≠ [] →
      Q.error e { p with file }) : Exec.wp (writePageToDisk no) Q p := by
  obtain ⟨page, hpage⟩ := lookup_of_mem (hp.dirty_cached no hdirty)
  simp only [writePageToDisk, Exec.wp_bind, Exec.wp_get, Post.withOk_ok, hpage, Exec.unwrap,
    Exec.wp_pure, wp_onFile]
  exact Os.wp_request (fun file h => hok file (.writeBack hp hdirty hpage h))
    (fun file h hfaults => herror _ file (.of_refused hp h) hfaults)

theorem wp_evictLoop {p : Pager} (hp : p.Coherent) (queue : List PageNo)
    (hqueue : p.recency = queue) :
    Exec.wp (evictLoop queue) (steadyPost p fun _ p' => ∀ no ∈ p'.cache, no ∈ p.cache) p := by
  induction queue generalizing p with
  | nil => exact ⟨.refl hp, fun _ h => h⟩
  | cons victim rest ih =>
      have hnext {p' : Pager} (h : Steady p p') (hcache : p'.cache = p.cache)
          (hrecency : p'.recency = victim :: rest) (hclean : victim ∉ p'.dirty) :
          Exec.wp (evictLoop rest) (steadyPost p fun _ p' => ∀ no ∈ p'.cache, no ∈ p.cache)
            { p' with cache := p'.cache.erase victim, recency := rest } := by
        have hevict := Steady.evict h.coherent hrecency hclean
        refine Exec.wp_mono (ih hevict.coherent rfl) ?_ ?_ (fun _ _ h => h)
        · refine fun _ _ h' => ⟨(h.trans hevict).trans h'.1, fun no hmem => ?_⟩
          exact hcache ▸ (AList.mem_erase.mp (h'.2 no hmem)).2
        · exact fun _ _ h' => ⟨(h.trans hevict).trans h'.1,
            fun hcalm => h'.2 ((h.trans hevict).calm hcalm)⟩
      simp only [evictLoop, Exec.wp_bind, Exec.wp_get, Post.withOk_ok]
      split
      · exact ⟨.refl hp, fun _ h => h⟩
      · by_cases hdirty : victim ∈ p.dirty
        · simp only [if_pos hdirty, Exec.wp_bind]
          refine wp_writePageToDisk hp hdirty (fun file h => ?_) (fun _ _ h hfaults => ⟨h, hfaults⟩)
          exact hnext h rfl hqueue (by simp)
        · simp only [if_neg hdirty, Exec.wp_bind]
          exact hnext (.refl hp) rfl hqueue hdirty

/-- Evictions write dirty pages back and bring nothing into the cache. -/
theorem wp_evictIfNeeded {p : Pager} (hp : p.Coherent) :
    Exec.wp evictIfNeeded (steadyPost p fun _ p' => ∀ no ∈ p'.cache, no ∈ p.cache) p :=
  wp_evictLoop hp p.recency rfl

/-! ## Loading -/

theorem Steady.touch {p : Pager} (hp : p.Coherent) {no : PageNo} (hmem : no ∈ p.cache) :
    Steady p { p with recency := p.recency.filter (· ≠ no) ++ [no] } := by
  refine { refl hp with
    coherent := { hp with
      recency_nodup := ?_
      mem_recency := fun no' => ?_ } }
  · refine List.Nodup.append (hp.recency_nodup.filter _) (List.nodup_singleton no) ?_
    simp [List.disjoint_singleton]
  · by_cases hno : no' = no
    · simp [hno, hmem]
    · simp [hno, hp.mem_recency]

/-- Put the file's image of a page into the cache. -/
theorem Steady.load {p : Pager} (hp : p.Coherent) {no : PageNo} {page : Page} {reads : Nat}
    (hno : no ≠ 0) (hmem : no ∉ p.cache) (hpage : p.file.disk.db[no.toNat]? = some page) :
    Steady p { p with
      cache := p.cache.insert no page
      pagesRead := reads
      recency := p.recency.filter (· ≠ no) ++ [no] } := by
  have hrecency : no ∉ p.recency := fun h => hmem ((hp.mem_recency no).mp h)
  have hfilter : p.recency.filter (· ≠ no) = p.recency :=
    List.filter_eq_self.mpr fun no' h => by simpa using fun heq : no' = no => hrecency (heq ▸ h)
  refine { refl hp with
    coherent := { hp with
      recency_nodup := ?_
      mem_recency := fun no' => ?_
      dirty_cached := fun no' h => (AList.mem_insert _).mpr (.inr (hp.dirty_cached no' h))
      clean := fun no' page' h hclean => ?_
      header_uncached := ?_
      cached_lt := fun no' h => ?_ }
    content := fun no' => ?_ }
  · simp only [hfilter]
    exact List.Nodup.append hp.recency_nodup (List.nodup_singleton no)
      (by simpa [List.disjoint_singleton] using hrecency)
  · simp only [hfilter, List.mem_append, List.mem_singleton, AList.mem_insert, hp.mem_recency]
    exact or_comm
  · by_cases heq : no' = no
    · subst heq
      obtain rfl := Option.some.inj ((AList.lookup_insert p.cache).symm.trans h)
      exact hpage
    · exact hp.clean no' page' ((AList.lookup_insert_ne heq).symm.trans h) hclean
  · rw [AList.mem_insert, not_or]
    exact ⟨hno.symm, hp.header_uncached⟩
  · rcases (AList.mem_insert _).mp h with rfl | h
    · exact (List.getElem?_eq_some_iff.mp hpage).1
    · exact hp.cached_lt no' h
  · by_cases heq : no' = no
    · subst heq
      rw [content_of_not_mem hmem, hpage]
      exact content_of_lookup (AList.lookup_insert p.cache)
    · simp [Pager.content, AList.lookup_insert_ne heq]

/-- After a load the page is cached; a load fails if the page has no content. -/
theorem wp_ensureLoaded {p : Pager} (hp : p.Coherent) {no : PageNo} (hno : no ≠ 0) :
    Exec.wp (ensureLoaded no)
      ⟨fun _ p' => Steady p p' ∧ ∃ page, p'.cache.lookup no = some page,
        fun _ p' => Steady p p' ∧ (p.file.faults = [] → p.content no = none),
        fun _ _ => False⟩ p := by
  have htouch {p' : Pager} (h : Steady p p') (hmem : no ∈ p'.cache) :
      Steady p { p' with recency := p'.recency.filter (· ≠ no) ++ [no] } ∧
        ∃ page, p'.cache.lookup no = some page :=
    ⟨h.trans (.touch h.coherent hmem), lookup_of_mem hmem⟩
  simp only [ensureLoaded, Exec.wp_bind, Exec.wp_get, Post.withOk_ok]
  by_cases hmem : no ∈ p.cache
  · simp only [hmem, not_true_eq_false, if_false]
    exact htouch (.refl hp) hmem
  · simp only [hmem, not_false_eq_true, if_true, Exec.wp_bind]
    refine Exec.wp_mono (wp_evictIfNeeded hp) ?_ ?_ (fun _ _ h => h)
    · rintro - p' ⟨h, hcache⟩
      have hmem' : no ∉ p'.cache := fun h => hmem (hcache no h)
      simp only [readPageFromDisk, Exec.wp_bind, Exec.wp_get, Post.withOk_ok]
      rcases hpage : p'.file.disk.db[no.toNat]? with _ | page
      · refine ⟨h, fun _ => ?_⟩
        rw [← h.content, content_of_not_mem hmem', hpage]
      · exact ⟨h.trans (.load h.coherent hno hmem' hpage), page, AList.lookup_insert _⟩
    · exact fun _ _ h => ⟨h.1, fun hcalm => absurd hcalm h.2⟩

theorem wp_getPage {p : Pager} (hp : p.Coherent) {no : PageNo} (hno : no ≠ 0) :
    Exec.wp (getPage no)
      ⟨fun page p' => Steady p p' ∧ p.content no = some page,
        fun _ p' => Steady p p' ∧ (p.file.faults = [] → p.content no = none),
        fun _ _ => False⟩ p := by
  refine Exec.wp_seq (wp_ensureLoaded hp hno) ?_ (fun _ _ h => h) (fun _ _ h => h)
  rintro - p' ⟨h, page, hpage⟩
  simp only [Exec.wp_bind, Exec.wp_get, Post.withOk_ok, hpage, Exec.unwrap, Exec.wp_pure]
  exact ⟨h, by rw [← h.content, content_of_lookup hpage]⟩

/-! ## Flushing -/

theorem wp_flushPages {p : Pager} (hp : p.Coherent) {pages : List PageNo}
    (hnodup : pages.Nodup) (hpages : ∀ no ∈ pages, no ∈ p.dirty) :
    Exec.wp (flushPages pages)
      (steadyPost p fun _ p' => p'.dirty = p.dirty \ pages.toFinset ∧ p'.cache = p.cache) p := by
  induction pages generalizing p with
  | nil => exact ⟨.refl hp, by simp, rfl⟩
  | cons no rest ih =>
      simp only [flushPages, Exec.wp_bind]
      refine wp_writePageToDisk hp (hpages no (by simp)) (fun file h => ?_)
        (fun _ _ h hfaults => ⟨h, hfaults⟩)
      rw [List.nodup_cons] at hnodup
      have hrest : ∀ no' ∈ rest, no' ∈ p.dirty.erase no := fun no' hmem =>
        Finset.mem_erase.mpr ⟨fun heq => hnodup.1 (heq ▸ hmem), hpages no' (by simp [hmem])⟩
      refine Exec.wp_mono (ih h.coherent hnodup.2 hrest) ?_ ?_ (fun _ _ h => h)
      · rintro - p' ⟨h', hdirty, hcache⟩
        refine ⟨h.trans h', ?_, hcache⟩
        rw [hdirty, List.toFinset_cons, Finset.sdiff_insert]
        exact Finset.erase_sdiff_comm _ _ _
      · exact fun _ _ h' => ⟨h.trans h'.1, fun hcalm => h'.2 (h.calm hcalm)⟩

theorem wp_iterate (s : Finset PageNo) (Q : Post Pager StorageError (List PageNo)) (p : Pager)
    (h : ∀ order orders, Q.ok (SetOrder.visit order s)
      { p with file := { p.file with orders } }) :
    Exec.wp (onFile (Os.iterate s)) Q p := by
  rw [wp_onFile]
  exact h _ _

/-- A change of the orders in which sets are visited changes nothing else. -/
theorem Steady.of_orders {p : Pager} (hp : p.Coherent) (orders : Nat → SetOrder) :
    Steady p { p with file := { p.file with orders } } :=
  { refl hp with
    coherent := { hp with }
    trace := ⟨[], ⟨by simp, rfl, id⟩, by simp⟩ }

theorem Steady.sync {p : Pager} (hp : p.Coherent) {file : Os}
    (h : p.file.Issues file [.syncDb]) : Steady p { p with file } := by
  have hdisk : file.disk = p.file.disk := h.disk
  refine { refl hp with
    coherent := { hp with
      clean := by simpa [hdisk] using hp.clean
      cached_lt := by simpa [hdisk] using hp.cached_lt
      length_le := by simpa [hdisk] using hp.length_le
      file_pos := by simpa [hdisk] using hp.file_pos }
    content := fun no => by simp [Pager.content, hdisk]
    length := by simp [hdisk]
    trace := ⟨[.syncDb], h, ?_⟩ }
  intro op hop
  obtain rfl := List.mem_singleton.mp hop
  exact .sync

theorem wp_flush {p : Pager} (hp : p.Coherent) :
    Exec.wp flush (steadyPost p fun _ p' => p'.dirty = ∅) p := by
  simp only [flush, Exec.wp_bind, Exec.wp_get, Post.withOk_ok]
  refine wp_iterate _ _ _ fun order orders => ?_
  have horders := Steady.of_orders hp orders
  refine Exec.wp_mono (wp_flushPages horders.coherent (order.nodup_visit _)
    fun no h => (order.mem_visit _ no).mp h) ?_ ?_ (fun _ _ h => h)
  · rintro - p' ⟨h, hdirty, -⟩
    have hvisit : (order.visit p.dirty).toFinset = p.dirty := by
      ext no
      simp [order.mem_visit]
    rw [Post.withOk_ok, wp_onFile]
    refine Os.wp_request (fun file hissues => ?_) (fun file hissues hfaults => ?_)
    · exact ⟨(horders.trans h).trans (.sync h.coherent hissues), by simp [hdirty, hvisit]⟩
    · exact ⟨(horders.trans h).trans (.of_refused h.coherent hissues),
        fun hcalm => hfaults ((horders.trans h).calm hcalm)⟩
  · exact fun _ _ h => ⟨horders.trans h.1, h.2⟩

end ChocoBase.Storage.Pager
