import ChocoBase.Storage.CrashSafety

/-!
# Rollback

`rollbackTransaction` throws the cache away and trusts the file and the journal.
That restores the state at `BEGIN` exactly if every old page that the
transaction did not journal is in the file as it is in the cache.  A page that
was dirty before `BEGIN` and was neither written back nor journaled is lost.
-/

namespace ChocoBase.Storage

open ChocoBase.Foundation
open UndoLog (Undoes logged)

namespace Pager

/-- The content of every page, as the file would hold it after a flush. -/
def image (p : Pager) : List Page :=
  (List.range p.header.pageCount.toNat).map fun no =>
    (p.content (UInt32.ofNat no)).getD Page.zeroed

@[simp] theorem image_length (p : Pager) : p.image.length = p.header.pageCount.toNat := by
  simp [image]

theorem Settled.image_getElem? {p : Pager} (h : p.Settled) (hp : p.Coherent) (no : PageNo) :
    p.image[no.toNat]? = p.content no := by
  by_cases hlt : no.toNat < p.header.pageCount.toNat
  · obtain ⟨page, hpage⟩ := Option.isSome_iff_exists.mp ((h.content_isSome_iff hp no).mpr hlt)
    simp [image, hlt, hpage]
  · have hnone : p.content no = none := by
      rw [← Option.not_isSome_iff_eq_none, h.content_isSome_iff hp no]
      exact hlt
    rw [hnone, List.getElem?_eq_none (by simp; omega)]

/-- Every old page that was not journaled is in the file as it is in the cache. -/
def UnjournaledOnFile (p : Pager) : Prop :=
  ∀ no : PageNo, no ≠ 0 → no < p.origPageCount → no ∉ p.journaledPages →
    p.file.disk.db[no.toNat]? = p.content no

end Pager

/-- Files of one length with the same page 0 mean the same exactly if they are the same. -/
theorem fileLogical_eq_iff {db base : List Page} {header : Header}
    (hlen : db.length = base.length) (hsmall : base.length < 2 ^ 32) (hzero : db[0]? = base[0]?) :
    fileLogical db header = fileLogical base header ↔ db = base := by
  refine ⟨fun h => List.ext_getElem? fun i => ?_, fun h => by rw [h]⟩
  by_cases hi : i < base.length
  · have hno : (UInt32.ofNat i).toNat = i :=
      UInt32.toNat_ofNat_of_lt' (show i < 2 ^ 32 by omega)
    by_cases hi0 : i = 0
    · rw [hi0, hzero]
    · have hne : UInt32.ofNat i ≠ 0 := fun heq => hi0 (by rw [← hno, heq]; rfl)
      have hpage := congrFun (congrArg Logical.page h) (UInt32.ofNat i)
      simpa [fileLogical, hne, hno] using hpage
  · rw [List.getElem?_eq_none (by omega), List.getElem?_eq_none (by omega)]

/--
`ROLLBACK` restores the logical state at `BEGIN` if and only if every old page
that was not journaled is in the file as it is in the cache.
-/
theorem rollback_restores_iff {p₀ p q : Pager} (hp : p₀.Coherent)
    (hidle : p₀.inTransaction = false) (hsettled : p₀.Settled)
    (hbegin : Pager.beginTransaction p₀ = (.ok (), p)) (ops : List PagerOp)
    (hops : ∀ op ∈ ops, op.AvoidsHeader) (hrun : runOps ops p = (.ok (), q)) :
    ∃ r, Pager.rollbackTransaction q = (.ok (), r) ∧
      (r.logical = p₀.logical ↔ q.UnjournaledOnFile) := by
  have hbegan := Exec.wp_ok (Pager.wp_beginTransaction hidle) hbegin
  have hheader : p₀.image[0]? = some p₀.header.toPage := by
    rw [← hsettled.header]
    exact hsettled.image_getElem? hp 0
  have hguarded : p.Guarded p₀.image p.file true :=
    hbegan.guarded hp (by simp) hheader fun no _ => (hsettled.image_getElem? hp no).symm
  have hkeeps := (Exec.wp_always_iff ..).mp (Pager.wp_runOps hguarded hops)
  rw [hrun] at hkeeps
  have hq := hkeeps.guarded
  have hqs := hkeeps.settled (hbegan.settled hsettled)
  obtain ⟨-, recs, htxn⟩ := hq.guard rfl
  obtain ⟨trace, hissues, htrace⟩ := htxn.trace
  have hholds : JournalHolds p₀.image recs [] q.file.disk := by
    rw [hissues.disk]
    exact (hbegan.holds (by simp)).steps htrace
  have hrecorded (no : Nat) (page : Page) (hmem : (no, page) ∈ undoLog recs) :
      p₀.image[no]? = some page := by
    obtain ⟨r, hr, heq⟩ := List.mem_map.mp hmem
    obtain ⟨rfl, rfl⟩ := Prod.mk.inj heq
    exact htxn.recorded r hr
  have hlen : p₀.image.length ≤ q.file.disk.db.length := by
    rw [hqs.length, htxn.base_length]
    exact htxn.grown
  have hlogged {no : PageNo} (hno : no.toNat < p₀.image.length) :
      no ∈ q.journaledPages ↔ no.toNat ∈ logged (undoLog recs) :=
    (htxn.journaled no hno).trans mem_logged_undoLog.symm
  -- the header's page is journaled, or nothing was written to it
  have hzero : q.file.disk.db[0]? = p₀.image[0]? ∨ 0 ∈ logged (undoLog recs) := by
    by_cases hmem : (0 : PageNo) ∈ recs.map Prod.fst
    · exact .inr (mem_logged_undoLog.mpr hmem)
    · exact .inl (hq.coherent.content_zero ▸ htxn.kept 0 htxn.nonempty hmem)
  have hdb := Undoes.restore_getElem? hrecorded hzero htxn.nonempty
  have hrollback : Exec.wp Pager.rollbackTransaction
      ⟨fun _ r => r.Empty ∧ r.header = p₀.header ∧ r.file.disk =
        { db := UndoLog.restore p₀.image.length (undoLog recs) q.file.disk.db, journal := none },
        fun _ _ => False, fun _ _ => False⟩ q :=
    Exec.wp_mono (Pager.wp_rollbackTransaction (E := fun _ => False) hq.state
      (Exec.wp_mono (recoverIfNeeded_calm hholds hqs.calm)
        (fun _ os h => ⟨by rw [h, hdb, hheader], h⟩) (fun _ _ h => h) (fun _ _ h => h)))
      (fun _ _ h => h) (fun _ _ h => h.2.2) (fun _ _ h => h)
  obtain ⟨_, r, hr, hempty, hrheader, hdisk⟩ := Exec.exists_of_wp hrollback
  refine ⟨r, hr, ?_⟩
  have hlogical : p₀.logical = fileLogical p₀.image p₀.header := by
    simp only [Pager.logical, fileLogical, hsettled.image_getElem? hp]
  rw [hempty.logical, hrheader, hdisk, hlogical,
    fileLogical_eq_iff (by simp [UndoLog.restore]) (by simpa using UInt32.toNat_lt _) hdb,
    Undoes.restore_eq_iff hrecorded hlen]
  constructor
  · intro hundoes no hne hlt hmem
    have hno : no.toNat < p₀.image.length := (hq.lt_orig_iff no).mp hlt
    have hfresh : no.toNat ∉ logged (undoLog recs) := fun h => hmem ((hlogged hno).mpr h)
    rw [hundoes.untouched no.toNat hno hfresh,
      ← htxn.kept no hno fun h => hfresh (mem_logged_undoLog.mpr h)]
  · refine fun hfile => ⟨hrecorded, fun i hi hmem => ?_⟩
    have hsmall := p₀.header.pageCount.toNat_lt
    have hno : (UInt32.ofNat i).toNat = i :=
      UInt32.toNat_ofNat_of_lt' (show i < 2 ^ 32 by rw [Pager.image_length] at hi; omega)
    rw [← hno] at hi hmem ⊢
    by_cases hzero' : UInt32.ofNat i = 0
    · rw [hzero'] at hmem ⊢
      exact hzero.resolve_right hmem
    · rw [hfile _ hzero' ((hq.lt_orig_iff _).mpr hi) fun h => hmem ((hlogged hi).mp h)]
      exact htxn.kept _ hi fun h => hmem (mem_logged_undoLog.mpr h)

theorem rollback_restores_created :
    ∃ q, Pager.rollbackTransaction (runOps [.allocatePage]
      (Pager.beginTransaction Pager.created).2).2 = (.ok (), q) ∧
      q.logical = Pager.created.logical := by
  obtain ⟨q, hq, hrestores⟩ := rollback_restores_iff Pager.created_coherent rfl
    (Pager.created_fileCurrent.settled rfl)
    (Prod.ext rfl rfl) [.allocatePage] (by simp [PagerOp.AvoidsHeader]) (Prod.ext rfl rfl)
  refine ⟨q, hq, hrestores.mpr fun no hne hlt => ?_⟩
  have horig : no < 1 := hlt
  exact absurd (UInt32.lt_one_iff.mp horig) hne

end ChocoBase.Storage
