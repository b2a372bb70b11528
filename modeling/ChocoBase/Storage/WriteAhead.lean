import ChocoBase.Storage.Rollback

/-!
# The write-ahead rule

Before an old page is overwritten in the file, its image must be in the part of
the journal that has been synced.  The journal is synced at `COMMIT`, ahead of
the flush, but operations of the transaction reach the file before that: an
eviction writes dirty pages back, and every change of the header is written at
once.
-/

namespace ChocoBase.Storage

open ChocoBase.Foundation
open Exec (Post)

/-- An image was appended to the journal, and the journal was synced after that. -/
def SyncedImage (ops : List DiskOp) (no : PageNo) (page : Page) : Prop :=
  ∃ xs ys, ops = xs ++ ys ∧ .appendJournal (recordBytes no page) ∈ xs ∧ .syncJournal ∈ ys

/-- Whenever a page of the base is overwritten, its image has been synced. -/
def WriteAhead (base : List Page) (ops : List DiskOp) : Prop :=
  ∀ before (no : PageNo) image rest, ops = before ++ .writePage no.toNat image :: rest →
    no.toNat < base.length → ∃ page, base[no.toNat]? = some page ∧ SyncedImage before no page

/-! ## Operations that write no old page -/

/-- The pages that an eviction takes out of the cache. -/
def Pager.victims (p : Pager) : List PageNo :=
  p.recency.take (p.cache.keys.length + 1 - p.capacity)

def Pager.EvictsNoOldPage (p : Pager) : Prop :=
  ∀ victim ∈ p.victims, victim ∈ p.dirty → p.origPageCount ≤ victim

/-- The operation is one that writes no old page to the file. -/
def PagerOp.SparesOldPages (p : Pager) : PagerOp → Prop
  | .getPage no => no ∉ p.cache → p.EvictsNoOldPage
  | .getPageMut no _ => no ∉ p.cache → p.EvictsNoOldPage
  | .evict => p.EvictsNoOldPage
  | .flush => ∀ no ∈ p.dirty, p.origPageCount ≤ no
  | .allocatePage => False
  | .freePage _ => False
  | .setCatalogRoot _ => False

/-- Every operation of a run is one that writes no old page to the file. -/
def SpareOldPages : Pager → List PagerOp → Prop
  | _, [] => True
  | p, op :: ops => op.SparesOldPages p ∧ SpareOldPages (op.perform p).2 ops

/-- Every old page that a flush would write has its image in the journal. -/
def Pager.DirtyJournaled (p : Pager) : Prop :=
  ∀ no ∈ p.dirty, no < p.origPageCount → no ∈ p.journaledPages

/-- No page below `old` was written to the file between `os` and `os'`. -/
def Os.Spares (old : UInt32) (os os' : Os) : Prop :=
  ∃ ops, os.Issues os' ops ∧ ∀ no page, DiskOp.writePage no page ∈ ops → old.toNat ≤ no

namespace Os.Spares

variable {old : UInt32} {os os' os'' : Os}

theorem refl (os : Os) : os.Spares old os := ⟨[], .refl _, by simp⟩

theorem trans (h : os.Spares old os') (h' : os'.Spares old os'') : os.Spares old os'' := by
  obtain ⟨ops, hissues, hops⟩ := h
  obtain ⟨ops', hissues', hops'⟩ := h'
  refine ⟨ops ++ ops', hissues.trans hissues', fun no page hmem => ?_⟩
  cases List.mem_append.mp hmem with
  | inl hmem => exact hops no page hmem
  | inr hmem => exact hops' no page hmem

end Os.Spares

namespace Pager

variable {old : UInt32} {p : Pager}

/-- The computation writes no page below `old` to the file, however it ends. -/
abbrev WpSpares {α : Type} (old : UInt32) (os : Os) (x : Action α) (p : Pager) : Prop :=
  Exec.wp x (Post.always fun p' => os.Spares old p'.file) p

theorem WpSpares.trans {α : Type} {x : Action α} {os : Os} (h : os.Spares old p.file)
    (hx : WpSpares old p.file x p) : WpSpares old os x p :=
  Exec.wp_mono hx (fun _ _ => h.trans) (fun _ _ => h.trans) (fun _ _ => h.trans)

theorem WpSpares.bind {α β : Type} {x : Action α} {f : α → Action β} {os : Os}
    (hx : WpSpares old os x p)
    (hf : ∀ value p', os.Spares old p'.file → WpSpares old os (f value) p') :
    WpSpares old os (x >>= f) p :=
  Exec.wp_seq hx hf (fun _ _ h => h) (fun _ _ h => h)

theorem wp_request_spares {op : DiskOp} (hop : ∀ no page, op = .writePage no page → old.toNat ≤ no)
    {Q : Post Pager StorageError Unit}
    (hok : ∀ file, p.file.Spares old file → Q.ok () { p with file })
    (herror : ∀ e file, p.file.Spares old file → Q.error e { p with file }) :
    Exec.wp (onFile (Os.request op)) Q p := by
  rw [wp_onFile]
  refine Os.wp_request (fun file h => hok file ⟨[op], h, fun no page hmem => ?_⟩)
    (fun file h _ => herror _ file ⟨[], h, by simp⟩)
  exact hop no page (List.mem_singleton.mp hmem).symm

theorem wp_writePageToDisk_spares {no : PageNo} (hno : old ≤ no)
    {Q : Post Pager StorageError Unit}
    (hok : ∀ file, p.file.Spares old file → Q.ok () { p with file })
    (herror : ∀ e file, p.file.Spares old file → Q.error e { p with file })
    (hstop : Q.stop .panic p) : Exec.wp (writePageToDisk no) Q p := by
  simp only [writePageToDisk, Exec.wp_bind, Exec.wp_get, Post.withOk_ok]
  cases p.cache.lookup no with
  | none => exact hstop
  | some page =>
      refine wp_request_spares (fun no' page' heq => ?_) hok herror
      obtain ⟨rfl, -⟩ := DiskOp.writePage.inj heq
      exact hno

theorem wp_evictLoop_spares {p : Pager} {queue : List PageNo} (hnodup : queue.Nodup)
    (hcached : ∀ no ∈ queue, no ∈ p.cache)
    (hvictims : ∀ no ∈ queue.take (p.cache.keys.length + 1 - p.capacity), no ∈ p.dirty →
      old ≤ no) : WpSpares old p.file (evictLoop queue) p := by
  induction queue generalizing p with
  | nil => exact .refl _
  | cons victim rest ih =>
      obtain ⟨hvictim, hrest⟩ := List.nodup_cons.mp hnodup
      have hnext {file : Os} {dirty : Finset PageNo} (h : p.file.Spares old file)
          (hdirty : dirty ⊆ p.dirty) (hfull : ¬p.cache.keys.length < p.capacity) :
          WpSpares old p.file (evictLoop rest)
            { p with file, dirty, cache := p.cache.erase victim, recency := rest } := by
        have hmem : victim ∈ p.cache.keys := AList.mem_keys.mp (hcached victim (by simp))
        have hlen := List.length_erase_of_mem hmem
        have hpos := List.length_pos_of_mem hmem
        refine .trans h (ih hrest (fun no hno => ?_) fun no hno hd => ?_)
        · rw [AList.mem_erase]
          exact ⟨fun heq => hvictim (heq ▸ hno), hcached no (by simp [hno])⟩
        · refine hvictims no ?_ (hdirty hd)
          have htake : p.cache.keys.length + 1 - p.capacity =
              (p.cache.keys.length - 1 + 1 - p.capacity) + 1 := by omega
          rw [htake, List.take_succ_cons]
          refine List.mem_cons_of_mem _ ?_
          simpa only [AList.keys_erase, hlen] using hno
      simp only [evictLoop, Exec.wp_bind, Exec.wp_get, Post.withOk_ok]
      split
      · exact .refl _
      next hfull =>
        by_cases hdirty : victim ∈ p.dirty
        · have hle : old ≤ victim := by
            refine hvictims victim ?_ hdirty
            obtain ⟨n, hn⟩ : ∃ n, p.cache.keys.length + 1 - p.capacity = n + 1 :=
              ⟨p.cache.keys.length - p.capacity, by omega⟩
            simp [hn]
          simp only [if_pos hdirty, Exec.wp_bind]
          exact wp_writePageToDisk_spares hle
            (fun file h => hnext h (Finset.erase_subset _ _) hfull) (fun _ _ h => h) (.refl _)
        · simp only [if_neg hdirty, Exec.wp_bind]
          exact hnext (.refl _) (Finset.Subset.refl _) hfull

theorem wp_evictIfNeeded_spares (hp : p.Coherent)
    (hvictims : ∀ victim ∈ p.victims, victim ∈ p.dirty → old ≤ victim) :
    WpSpares old p.file evictIfNeeded p :=
  wp_evictLoop_spares hp.recency_nodup (fun no hno => (hp.mem_recency no).mp hno) hvictims

theorem wp_ensureLoaded_spares (hp : p.Coherent) {no : PageNo}
    (hvictims : no ∉ p.cache → ∀ victim ∈ p.victims, victim ∈ p.dirty → old ≤ victim) :
    WpSpares old p.file (ensureLoaded no) p := by
  simp only [ensureLoaded, Exec.wp_bind, Exec.wp_get, Post.withOk_ok]
  by_cases hmem : no ∈ p.cache
  · simp only [hmem, not_true_eq_false, if_false]
    exact .refl _
  · simp only [hmem, not_false_eq_true, if_true]
    refine WpSpares.bind (wp_evictIfNeeded_spares hp (hvictims hmem)) fun _ p₁ h₁ => ?_
    simp only [readPageFromDisk, Exec.wp_bind, Exec.wp_get, Post.withOk_ok]
    cases p₁.file.disk.db[no.toNat]? <;> exact h₁

theorem wp_journalImage_spares {os : Os} (h : os.Spares old p.file) (no : PageNo) (page : Page) :
    WpSpares old os (journalImage no page) p := by
  simp only [journalImage, Exec.wp_bind, Exec.wp_get, Post.withOk_ok]
  cases p.journal with
  | none => exact h
  | some journal =>
      simp only [Exec.wp_bind, wp_onFile, Journal.appendPage]
      refine Os.wp_request (fun file hissues => h.trans ⟨_, hissues, by simp⟩)
        (fun file hissues _ => h.trans ⟨_, hissues, by simp⟩)

theorem wp_journalForWrite_spares {os : Os} (h : os.Spares old p.file) (no : PageNo) :
    WpSpares old os (journalForWrite no) p := by
  simp only [journalForWrite, Exec.wp_bind, Exec.wp_get, Post.withOk_ok]
  split
  · split
    · refine WpSpares.bind ?_ fun _ _ h => h
      simp only [journalCached, Exec.wp_bind, Exec.wp_get, Post.withOk_ok]
      cases p.cache.lookup no with
      | none => exact h
      | some page => exact wp_journalImage_spares h no page
    · exact h
  · exact h

theorem wp_flushPages_spares {os : Os} {pages : List PageNo} (h : os.Spares old p.file)
    (hpages : ∀ no ∈ pages, old ≤ no) : WpSpares old os (flushPages pages) p := by
  induction pages generalizing p with
  | nil => exact h
  | cons no rest ih =>
      rw [List.forall_mem_cons] at hpages
      simp only [flushPages, Exec.wp_bind]
      exact wp_writePageToDisk_spares hpages.1 (fun file hfile => ih (h.trans hfile) hpages.2)
        (fun _ _ => h.trans) h

theorem wp_perform_spares (hp : p.Coherent) {op : PagerOp} (hop : op.SparesOldPages p) :
    WpSpares p.origPageCount p.file op.perform p := by
  cases op with
  | getPage no =>
      refine WpSpares.bind (WpSpares.bind (wp_ensureLoaded_spares hp hop) fun _ p₁ h₁ => ?_)
        fun _ _ h => h
      simp only [Exec.wp_bind, Exec.wp_get, Post.withOk_ok]
      cases p₁.cache.lookup no <;> exact h₁
  | getPageMut no write =>
      refine WpSpares.bind (WpSpares.bind (wp_ensureLoaded_spares hp hop) fun _ p₁ h₁ => ?_)
        fun _ _ h => h
      refine WpSpares.bind (wp_journalForWrite_spares h₁ no) fun _ p₂ h₂ => ?_
      simp only [Exec.wp_bind, Exec.wp_modify, Exec.wp_get, Post.withOk_ok]
      cases p₂.cache.lookup no with
      | none => exact h₂
      | some page =>
          simp only [Exec.unwrap, Exec.wp_pure, Post.withOk_ok]
          cases write page <;> exact h₂
  | evict => exact WpSpares.bind (wp_evictIfNeeded_spares hp hop) fun _ _ h => h
  | flush =>
      refine WpSpares.bind ?_ fun _ _ h => h
      refine (Exec.wp_bind ..).mpr ((Exec.wp_bind ..).mpr ?_)
      refine wp_iterate _ _ _ fun order orders => ?_
      refine WpSpares.bind (wp_flushPages_spares ⟨[], ⟨by simp, rfl, id⟩, by simp⟩ fun no hno =>
        hop no ((order.mem_visit _ no).mp hno)) fun _ p₁ h₁ => ?_
      exact wp_request_spares (by simp) (fun _ => h₁.trans) (fun _ _ => h₁.trans)
  | allocatePage => exact hop.elim
  | freePage no => exact hop.elim
  | setCatalogRoot root => exact hop.elim

/-- A run of such operations writes no old page. -/
theorem wp_runOps_spares {base : List Page} {start : Os} (h : p.Guarded base start true)
    {ops : List PagerOp} (hops : ∀ op ∈ ops, op.AvoidsHeader) (hspares : SpareOldPages p ops) :
    WpSpares p.origPageCount p.file (runOps ops) p := by
  induction ops generalizing p with
  | nil => exact .refl _
  | cons op ops ih =>
      rw [List.forall_mem_cons] at hops
      obtain ⟨hop, hrest⟩ := hspares
      have hkeeps := (Exec.wp_always_iff ..).mp (wp_perform h hops.1)
      have hop := (Exec.wp_always_iff ..).mp (wp_perform_spares h.coherent hop)
      have horig : (op.perform p).2.origPageCount = p.origPageCount := by
        obtain ⟨-, recs, htxn⟩ := h.guard rfl
        obtain ⟨-, recs', htxn'⟩ := hkeeps.guarded.guard rfl
        exact UInt32.toNat_inj.mp (htxn'.base_length.symm.trans htxn.base_length)
      have hnext := ih hkeeps.guarded hops.2 hrest
      rw [horig] at hnext
      have hstep : Exec.wp op.perform (Post.always fun p' => p.file.Spares p.origPageCount p'.file ∧
          WpSpares p.origPageCount p.file (runOps ops) p') p :=
        (Exec.wp_always_iff ..).mpr ⟨hop, .trans hop hnext⟩
      refine (Exec.wp_bind ..).mpr ((Exec.wp_attempt ..).mpr ?_)
      exact Exec.wp_mono hstep (fun _ _ h => h.2) (fun _ _ h => h.2) (fun _ _ h => h.1)

/-- Only dirty pages are written, and only after the journal was synced. -/
def SyncsFirst (p : Pager) (ops : List DiskOp) : Prop :=
  ∀ before no page rest, ops = before ++ .writePage no page :: rest →
    .syncJournal ∈ before ∧ ∃ dirty ∈ p.dirty, dirty.toNat = no

theorem SyncsFirst.of_no_write {ops : List DiskOp} (h : ∀ no page, .writePage no page ∉ ops) :
    p.SyncsFirst ops := by
  rintro before no page rest rfl
  exact absurd (by simp) (h no page)

theorem SyncsFirst.of_synced {header : Bytes} {more : List DiskOp}
    (hmore : ∀ no page, .writePage no page ∈ more → ∃ dirty ∈ p.dirty, dirty.toNat = no) :
    p.SyncsFirst (.writeJournalHeader header :: .syncJournal :: more) := by
  intro before no page rest heq
  match before, heq with
  | [], heq => simp at heq
  | [_], heq => simp at heq
  | _ :: _ :: before, heq =>
      obtain ⟨rfl, rfl, rfl⟩ : _ ∧ _ ∧ _ := by simpa using heq
      exact ⟨by simp, hmore no page (by simp)⟩

theorem wp_commit_syncsFirst (hp : p.Coherent) (hactive : p.inTransaction = true)
    (hjournal : p.HasJournal) :
    Exec.wp commitTransaction
      (Post.always fun p' => ∃ ops, p.file.Issues p'.file ops ∧ p.SyncsFirst ops) p := by
  obtain ⟨journal, hjournal, -⟩ := hjournal
  simp only [commitTransaction, Exec.wp_bind, Exec.wp_get, Post.withOk_ok, hactive, if_true,
    hjournal, Exec.wp_modify, wp_onFile, Journal.sync, JournalHeader.writeTo]
  refine Os.wp_request (fun os₁ h₁ => ?_) (fun os₁ h₁ _ => ⟨_, h₁, .of_no_write (by simp)⟩)
  refine Os.wp_request (fun os₂ h₂ => ?_)
    (fun os₂ h₂ _ => ⟨_, h₁.trans h₂, .of_no_write (by simp)⟩)
  let p₂ : Pager := { p with file := os₂, journal := none, inTransaction := true }
  have hj₂ : Journals p p₂ :=
    ⟨rfl, rfl, rfl, rfl, rfl, hactive.symm, rfl, Finset.Subset.refl _,
      by simp [p₂, h₂.disk, h₁.disk, Disk.apply], fun hcalm => h₂.calm (h₁.calm hcalm)⟩
  have hflushed {p₃ : Pager} (hs : Steady p₂ p₃) : ∃ ops, os₂.Issues p₃.file ops ∧
      ∀ no page, .writePage no page ∈ ops → ∃ dirty ∈ p.dirty, dirty.toNat = no := by
    obtain ⟨ops, hissues, hops⟩ := hs.trace
    refine ⟨ops, hissues, fun no page hmem => ?_⟩
    cases hops _ hmem with
    | page hdirty _ => exact ⟨_, hdirty, rfl⟩
  refine Exec.wp_mono (x := flush) (wp_flush (hj₂.coherent hp)) ?_ ?_ (fun _ _ h => h.elim)
  · rintro - p₃ ⟨hs, -⟩
    obtain ⟨ops, hissues, hops⟩ := hflushed hs
    have htrace := (h₁.trans h₂).trans hissues
    simp only [Journal.closeAndDelete, Exec.wp_bind, Exec.wp_get, Post.withOk_ok]
    split
    · refine Os.wp_request (fun os₄ h₄ => ⟨_, htrace.trans h₄, .of_synced fun no page hmem => ?_⟩)
        (fun os₄ h₄ _ => ⟨_, htrace.trans h₄, .of_synced fun no page hmem => ?_⟩)
      · exact hops no page (by simpa using hmem)
      · exact hops no page (by simpa using hmem)
    · exact ⟨_, htrace, .of_synced hops⟩
  · rintro - p₃ ⟨hs, -⟩
    obtain ⟨ops, hissues, hops⟩ := hflushed hs
    exact ⟨_, (h₁.trans h₂).trans hissues, .of_synced hops⟩

end Pager

theorem LogSteps.appended {base : List Page} {recs recs' : List Preimage} {ops : List DiskOp}
    (h : LogSteps base recs ops recs') {r : Preimage} (hr : r ∈ recs') :
    r ∈ recs ∨ .appendJournal (recordBytes r.1 r.2) ∈ ops := by
  induction h with
  | nil => exact .inl hr
  | cons hstep _ ih =>
      cases ih hr with
      | inl hmem =>
          cases hstep with
          | record himage =>
              cases List.mem_append.mp hmem with
              | inl hmem => exact .inl hmem
              | inr hmem =>
                  obtain rfl := List.mem_singleton.mp hmem
                  exact .inr (List.mem_cons_self ..)
          | overwrite _ => exact .inl hmem
          | extend _ => exact .inl hmem
          | header _ => exact .inl hmem
          | syncDb => exact .inl hmem
          | syncJournal => exact .inl hmem
      | inr hmem => exact .inr (List.mem_cons_of_mem _ hmem)

/-- Writes of pages beyond the base need no images. -/
theorem Os.Spares.writeAhead {base : List Page} {old : UInt32} {p p' : Pager}
    (h : p.file.Spares old p'.file) (hbase : base.length = old.toNat) :
    WriteAhead base (p.issuedSince p') := by
  obtain ⟨ops, hissues, hops⟩ := h
  rw [hissues.issuedSince]
  rintro before no image rest rfl hlt
  have hle := hops no.toNat image (by simp)
  omega

/-- A commit that finds an image of every dirty old page keeps the rule. -/
theorem WriteAhead.commit {base : List Page} {q : Pager} {trace more : List DiskOp}
    (h : WriteAhead base trace) (hsyncs : q.SyncsFirst more)
    (hlogged : ∀ no ∈ q.dirty, no.toNat < base.length → ∃ page, base[no.toNat]? = some page ∧
      .appendJournal (recordBytes no page) ∈ trace) : WriteAhead base (trace ++ more) := by
  intro before no image rest heq hlt
  have hlate {mid : List DiskOp} (hbefore : before = trace ++ mid)
      (hmore : more = mid ++ .writePage no.toNat image :: rest) :
      ∃ page, base[no.toNat]? = some page ∧ SyncedImage before no page := by
    obtain ⟨hsync, dirty, hdirty, hno⟩ := hsyncs mid no.toNat image rest hmore
    obtain rfl := UInt32.toNat_inj.mp hno
    obtain ⟨page, hpage, happend⟩ := hlogged dirty hdirty hlt
    exact ⟨page, hpage, trace, mid, hbefore, happend, hsync⟩
  cases List.append_eq_append_iff.mp heq with
  | inl hsplit =>
      obtain ⟨mid, hbefore, hmore⟩ := hsplit
      exact hlate hbefore hmore
  | inr hsplit =>
      obtain ⟨mid, htrace, hrest⟩ := hsplit
      cases mid with
      | nil =>
          rw [List.append_nil] at htrace
          exact @hlate [] (by rw [htrace, List.append_nil]) hrest.symm
      | cons op mid =>
          obtain ⟨rfl, -⟩ := List.cons.inj hrest
          exact h before no image mid htrace hlt

/--
In a transaction whose operations write no old page to the file, and whose commit
finds an image of every dirty old page in the journal, the journal is always ahead
of the file.
-/
theorem write_ahead {p₀ p : Pager} (hp : p₀.Coherent) (hidle : p₀.inTransaction = false)
    (hsettled : p₀.Settled) (hbegin : Pager.beginTransaction p₀ = (.ok (), p))
    (ops : List PagerOp) (hops : ∀ op ∈ ops, op.AvoidsHeader) (hspares : SpareOldPages p ops)
    (commits : Bool) (hcommit : commits = true → (runOps ops p).2.DirtyJournaled) :
    WriteAhead p₀.image (p.issuedSince (transaction ops commits p).2) := by
  have hbegan := Exec.wp_ok (Pager.wp_beginTransaction hidle) hbegin
  have hheader : p₀.image[0]? = some p₀.header.toPage := by
    rw [← hsettled.header]
    exact hsettled.image_getElem? hp 0
  have hguarded : p.Guarded p₀.image p.file true :=
    hbegan.guarded hp (by simp) hheader fun no _ => (hsettled.image_getElem? hp no).symm
  have hlen : p₀.image.length = p.origPageCount.toNat := by
    obtain ⟨-, recs, htxn⟩ := hguarded.guard rfl
    exact htxn.base_length
  have hrun := (Exec.wp_always_iff ..).mp (Pager.wp_runOps_spares hguarded hops hspares)
  have hkeeps := (Exec.wp_always_iff ..).mp (Pager.wp_runOps hguarded hops)
  have hbefore := hrun.writeAhead hlen
  simp only [transaction, Exec.bind_apply]
  rcases hresult : runOps ops p with ⟨_ | _ | _, q⟩ <;> rw [hresult] at hrun hkeeps hbefore hcommit
  · cases commits with
    | false => exact hbefore
    | true =>
        have hq := hkeeps.guarded
        obtain ⟨hjournal, recs, htxn⟩ := hq.guard rfl
        obtain ⟨trace, hissues, htrace⟩ := htxn.trace
        obtain ⟨more, hmore, hsyncs⟩ := (Exec.wp_always_iff ..).mp
          (Pager.wp_commit_syncsFirst hq.coherent hq.state hjournal)
        have hall : p.issuedSince (Pager.commitTransaction q).2 = trace ++ more :=
          (hissues.trans hmore).issuedSince
        have hold : p.issuedSince q = trace := hissues.issuedSince
        rw [hold] at hbefore
        change WriteAhead p₀.image (p.issuedSince (Pager.commitTransaction q).2)
        rw [hall]
        refine hbefore.commit hsyncs fun no hno hlt => ?_
        have hmem := (htxn.journaled no hlt).mp (hcommit rfl no hno ((hq.lt_orig_iff no).mpr hlt))
        obtain ⟨r, hr, rfl⟩ := List.mem_map.mp hmem
        refine ⟨r.2, htxn.recorded r hr, ?_⟩
        simpa using htrace.appended hr
  · exact hbefore
  · exact hbefore

/-- A database file with one page after the header's. -/
def Pager.onePage : Pager :=
  let header := { Header.new with pageCount := 2 }
  Pager.fresh (Os.ofDisk { db := [header.toPage, Page.zeroed], journal := none }) header 0

/-- A transaction writes the page and commits. -/
theorem write_ahead_onePage :
    let p := (Pager.beginTransaction Pager.onePage).2
    WriteAhead Pager.onePage.image
      (p.issuedSince (transaction [.getPageMut 1 some] true p).2) := by
  intro p
  have hempty : Pager.onePage.Empty := ⟨rfl, rfl, rfl, rfl⟩
  have hcoherent : Pager.onePage.Coherent := hempty.coherent (by decide) (by decide)
  have hsettled : Pager.onePage.Settled := ⟨rfl, rfl, hempty.content 0⟩
  refine write_ahead hcoherent rfl hsettled rfl [.getPageMut 1 some] ?_ ⟨?_, trivial⟩ true ?_
  · simp [PagerOp.AvoidsHeader]
  · intro _ victim hvictim
    exact absurd hvictim (List.not_mem_nil)
  · intro _ no hno _
    exact hno

/-- A new catalog root reaches the file before the image of the header's page is synced. -/
theorem header_outruns_journal :
    let p := (Pager.beginTransaction Pager.created).2
    ¬WriteAhead Pager.created.image
      (p.issuedSince (transaction [.setCatalogRoot 7] false p).2) := by
  intro p h
  obtain ⟨page, -, xs, ys, hsplit, -, hsync⟩ :=
    h [.appendJournal (recordBytes 0 Header.new.toPage)] 0
      ({ Header.new with catalogRoot := 7 } : Header).toPage [] rfl (by decide)
  have hmem : DiskOp.syncJournal ∈ [.appendJournal (recordBytes 0 Header.new.toPage)] :=
    hsplit ▸ List.mem_append_right xs hsync
  simp at hmem

end ChocoBase.Storage
