import ChocoBase.Engine.Forest
import ChocoBase.Engine.Trees
import ChocoBase.Storage.StoreTransaction

/-!
# The database honours the contract

A forest describes a database if the pager holds its trees, and if the open
transaction can go back to what it saved.  Each request on such a database is
answered as the contract says, provided that the nodes written fit their pages.
-/

namespace ChocoBase.Engine

open ChocoBase.Foundation ChocoBase.Storage ChocoBase.BTree
open Exec (Post)

/-- The store holds the trees of the snapshot. -/
def Snapshot.In (snap : Snapshot) (st : Store) : Prop :=
  Plants snap.catalogRoot snap.roots snap.tidy st

/-- The state of the transaction, and what a rollback goes back to. -/
inductive Phase (base : List Page) (start : Os) : Bool → Option (Option Snapshot) → Prop
  | outside (hjournal : start.disk.journal = none) : Phase base start false none
  | inside {saved : Option Snapshot} (hstart : JournalHolds base [] [] start.disk)
      (hsaved : ∀ snap, saved = some snap → ∃ st, Saves base start st ∧ snap.In st) :
      Phase base start true (some saved)

structure Describes (d : Database) (f : Forest) : Prop where
  root : d.root = f.root
  subscribed : d.subscribed = f.subscribed
  transactionEvents : d.transactionEvents = f.transactionEvents
  delivered : d.delivered = f.delivered
  pager : ∃ base start active st, Holds base start active d.pager st ∧ f.now.In st ∧
    Phase base start active f.atBegin ∧ (f.clean = true → d.pager.dirty = ∅)

/-- The nodes that the request writes fit their pages. -/
def Database.Fits (d : Database) : DbRequest → Prop
  | .insert root key payload => Fitting PageRequest.onPager (BTree.insert root key payload) d.pager
  | .delete root key => Fitting PageRequest.onPager (BTree.delete root key) d.pager
  | _ => True

/-- The request is a deletion that puts another page in the place of the tree's root. -/
def Database.movesRoot (d : Database) : DbRequest → Bool
  | .delete root key =>
      match ((BTree.delete root key).run PageRequest.onPager d.pager).1 with
      | .ok (_, root') => root' ≠ root
      | _ => false
  | _ => false

def Database.Regular (strict : Bool) (op : DbRequest) (d : Database) : Prop :=
  d.Fits op ∧ (strict = true → d.movesRoot op = false)

instance (d : Database) : DecidablePred d.Fits := fun op => by
  cases op <;> unfold Database.Fits <;> infer_instance

instance (strict : Bool) (op : DbRequest) (d : Database) : Decidable (d.Regular strict op) :=
  inferInstanceAs (Decidable (_ ∧ _))

section Describes

variable {d : Database} {f : Forest} {env : Environment} {strict : Bool}

/-- What is known of an answer makes it one that the contract allows. -/
private theorem honours_of_wp {op : DbRequest}
    (h : Exec.wp (Database.answer env op)
      ⟨fun a d' => ∃ f', requestPost strict op f (.ok a) f' ∧ Describes d' f',
        fun e d' => ∃ f', requestPost strict op f (.error e) f' ∧ Describes d' f',
        fun why _ => ∃ f', requestPost strict op f (.stop why) f'⟩ d) :
    ∃ f', requestPost strict op f (Database.answer env op d).1 f' ∧
      ((∃ why, (Database.answer env op d).1 = .stop why) ∨
        Describes (Database.answer env op d).2 f') := by
  unfold Exec.wp at h
  rcases hop : Database.answer env op d with ⟨a | e | why, d'⟩
  · rw [hop] at h
    obtain ⟨f', hpost, hd⟩ := h
    exact ⟨f', hpost, .inr hd⟩
  · rw [hop] at h
    obtain ⟨f', hpost, hd⟩ := h
    exact ⟨f', hpost, .inr hd⟩
  · rw [hop] at h
    obtain ⟨f', hpost⟩ := h
    exact ⟨f', hpost, .inl ⟨why, rfl⟩⟩

theorem wp_onStorage {α : Type} (x : Exec Pager StorageError α) (Q : Post Database BTreeError α)
    (d : Database) : Exec.wp (Database.onStorage x) Q d ↔
      Exec.wp x ⟨fun a pager => Q.ok a { d with pager },
        fun e pager => Q.error (.storage e) { d with pager },
        fun why pager => Q.stop why { d with pager }⟩ d.pager := by
  unfold Exec.wp Database.onStorage Database.onPager Exec.zoom
  rcases x d.pager with ⟨_ | _ | _, p'⟩ <;> exact Iff.rfl

namespace Describes

variable {α : Type}

/-- Outside of a transaction, and with nothing dirty. -/
theorem of_idle (h : Describes d f) {p' : Pager} {st : Store} (hidle : Idle p' st) {snap : Snapshot}
    (hin : snap.In st) : Describes { d with pager := p' }
      { f with now := snap, atBegin := none, clean := true } := by
  have hserves := hidle.serves
  refine ⟨h.root, h.subscribed, h.transactionEvents, h.delivered, [], p'.file, false, st,
    ⟨hserves.models, hserves.models.coherent, hserves.idle, fun _ => rfl, fun hfalse => ?_⟩, hin,
    .outside hserves.journal, fun _ => hidle.clean⟩
  cases hfalse

/-- A tree program works on the trees of the forest. -/
theorem wp_onTree (h : Describes d f) {x : PageProg BTreeError α} {Q : Post Store BTreeError α}
    (hx : ∀ st, f.now.In st → Run x Q st) (hmisuse : ∀ st, ¬Q.stop .misuse st)
    (hfits : Fitting PageRequest.onPager x d.pager) :
    Exec.wp (Database.onTree x)
      ⟨fun a d' => ∃ st, Q.ok a st ∧ ∀ now : Snapshot, now.In st → Describes d' (f.withNow now),
        fun e d' => ∃ st, Q.error e st ∧ ∀ now : Snapshot, now.In st → Describes d' (f.withNow now),
        fun why _ => ∃ st, Q.stop why st⟩ d := by
  obtain ⟨base, start, active, st, hholds, hin, hphase, -⟩ := h.pager
  rw [Database.onTree, Database.onPager, Exec.wp_zoom]
  refine Exec.wp_mono (run_onPager hholds (hx st hin) hmisuse hfits) ?_ ?_ ?_
  · rintro a p' ⟨st', hholds', hQ⟩
    exact ⟨st', hQ, fun now hnow => ⟨h.root, h.subscribed, h.transactionEvents, h.delivered,
      base, start, active, st', hholds', hnow, hphase, fun hclean => by cases hclean⟩⟩
  · rintro e p' ⟨st', hholds', hQ⟩
    exact ⟨st', hQ, fun now hnow => ⟨h.root, h.subscribed, h.transactionEvents, h.delivered,
      base, start, active, st', hholds', hnow, hphase, fun hclean => by cases hclean⟩⟩
  · rintro why p' ⟨st', -, hQ⟩
    exact ⟨st', hQ⟩

/-- A pager call that only reads. -/
theorem wp_reads (h : Describes d f) {x : Exec Pager BTreeError α} {P : α → Prop}
    (hx : ∀ base start active st, Holds base start active d.pager st → f.now.In st →
      ∃ a p', x d.pager = (.ok a, p') ∧ P a ∧ Holds base start active p' st ∧
        p'.dirty ⊆ d.pager.dirty) :
    Exec.wp (Database.onPager x)
      ⟨fun a d' => P a ∧ Describes d' f, fun _ _ => False, fun _ _ => False⟩ d := by
  obtain ⟨base, start, active, st, hholds, hin, hphase, hclean⟩ := h.pager
  obtain ⟨a, p', hrun, hP, hholds', hdirty⟩ := hx base start active st hholds hin
  refine (Exec.wp_zoom _ _ _ _ _).mpr (Exec.wp_of_ok hrun ⟨hP, h.root, h.subscribed,
    h.transactionEvents, h.delivered, base, start, active, st, hholds', hin, hphase, fun hc => ?_⟩)
  rw [hclean hc] at hdirty
  exact Finset.subset_empty.mp hdirty

/-- A scan yields the entries that its cursor has ahead. -/
theorem wp_scan (h : Describes d f) {root : PageNo} {m : OrdMap Bytes Bytes}
    (hroot : f.now.roots root = some m) {start : PageProg BTreeError Cursor}
    (hreading : Reading start) {todo : List (Bytes × Bytes)}
    (htodo : todo.length ≤ m.entries.length)
    (hstart : ∀ {c F T st}, Maps c F m T root st → Run start
      ⟨fun cursor _ => Ahead T F cursor todo, fun _ _ => False, fun _ _ => False⟩ st) :
    Exec.wp (Database.onPager (scanWith start))
      ⟨fun scanned d' => scanned = ⟨todo, .ok ()⟩ ∧ Describes d' f, fun _ _ => False,
        fun _ _ => False⟩ d := by
  refine h.wp_reads fun base start' active st hholds hin => ?_
  obtain ⟨F, T, hT, -⟩ := Plants.uproot hin hroot
  have hlen : todo.length ≤ (SearchTree.entries T.2.tokens).length := by
    rw [← hT.toMap_eq] at htodo
    exact htodo
  obtain ⟨p', hrun, hholds', hdirty⟩ := scanWith_eq hholds hT.represents hreading hlen (hstart hT)
  exact ⟨_, p', hrun, rfl, hholds', hdirty⟩

theorem wp_setCatalogRoot (h : Describes d f) (root : PageNo) :
    Exec.wp (Database.onStorage (Pager.setCatalogRoot root))
      ⟨fun _ d' => Describes d' (f.withNow { f.now with catalogRoot := root }),
        fun _ _ => False, fun _ _ => False⟩ d := by
  obtain ⟨base, start, active, st, hholds, ⟨F, how, hstocks⟩, hphase, -⟩ := h.pager
  obtain ⟨hrun, hholds'⟩ :=
    onPager_simulates (.setCatalogRoot root) d.pager st hholds (by simp [PageRequest.onStore])
  rw [wp_onStorage]
  refine Exec.wp_of_ok (Prod.ext hrun rfl) ⟨h.root, h.subscribed, h.transactionEvents, h.delivered,
    base, start, active, _, hholds', ⟨F, how.withCatalogRoot root, hstocks⟩, hphase, fun hclean => ?_⟩
  cases hclean

theorem serves {d : Database} {base : List Page} {start : Os} {st : Store}
    (hholds : Holds base start false d.pager st) (hjournal : start.disk.journal = none) :
    Serves d.pager st :=
  ⟨hholds.models, hholds.guarded.state, (hholds.guarded.quiet rfl).trans hjournal⟩

theorem wp_flush (h : Describes d f) :
    Exec.wp (Database.onStorage Pager.flush)
      ⟨fun _ d' => Describes d' { f with clean := true }, fun _ _ => False, fun _ _ => False⟩ d := by
  obtain ⟨base, start, active, st, hholds, hin, hphase, -⟩ := h.pager
  rw [wp_onStorage]
  refine Exec.wp_mono (Pager.wp_flush hholds.models.coherent) ?_ ?_ (fun _ _ h => h)
  · rintro - p' ⟨hsteady, hdirty⟩
    have hmodels := hholds.models.of_same (hholds.models.settled.steady hsteady) hsteady.coherent
      hsteady.header (funext hsteady.content)
    exact ⟨h.root, h.subscribed, h.transactionEvents, h.delivered, base, start, active, st,
      ⟨hmodels, hholds.guarded.steady hsteady⟩, hin, hphase, fun _ => hdirty⟩
  · exact fun _ _ h' => h'.2 hholds.models.settled.calm

theorem wp_beginTransaction (h : Describes d f) (hidle : f.atBegin = none) :
    Exec.wp (Database.onStorage Pager.beginTransaction)
      ⟨fun _ d' => Describes d' { f with atBegin := some f.saved }, fun _ _ => False,
        fun _ _ => False⟩ d := by
  obtain ⟨base, start, active, st, hholds, hin, hphase, hclean⟩ := h.pager
  rw [hidle] at hphase
  cases hphase with
  | outside hjournal =>
      rw [wp_onStorage]
      refine Exec.wp_mono (wp_begin (serves hholds hjournal)) ?_ (fun _ _ h => h) (fun _ _ h => h)
      rintro - p' ⟨hmodels, hguarded, hstart, hdirty, hsaves⟩
      refine ⟨h.root, h.subscribed, h.transactionEvents, h.delivered, _, _, true, st,
        ⟨hmodels, hguarded⟩, hin, .inside hstart fun snap hsnap => ?_, fun hc => ?_⟩
      · unfold Forest.saved at hsnap
        split at hsnap
        next hc =>
          obtain rfl := Option.some.inj hsnap
          exact ⟨st, hsaves (hclean hc), hin⟩
        next => cases hsnap
      · exact hdirty.trans (hclean hc)

theorem wp_commitTransaction (h : Describes d f) (hactive : f.atBegin ≠ none) :
    Exec.wp (Database.onStorage Pager.commitTransaction)
      ⟨fun _ d' => Describes d' { f with atBegin := none, clean := true }, fun _ _ => False,
        fun _ _ => False⟩ d := by
  obtain ⟨base, start, active, st, hholds, hin, hphase, -⟩ := h.pager
  generalize hsaved : f.atBegin = saved at hphase hactive
  cases hphase with
  | outside => exact absurd rfl hactive
  | inside hstart =>
      rw [wp_onStorage]
      refine Exec.wp_mono (wp_commit hholds.guarded hstart hholds.models) ?_ (fun _ _ h => h)
        (fun _ _ h => h)
      exact fun _ p' hidle => h.of_idle hidle hin

theorem wp_rollbackTransaction (h : Describes d f) {snap : Snapshot}
    (hactive : f.atBegin = some (some snap)) :
    Exec.wp (Database.onStorage Pager.rollbackTransaction)
      ⟨fun _ d' => Describes d' { f with now := snap, atBegin := none, clean := true },
        fun _ _ => False, fun _ _ => False⟩ d := by
  obtain ⟨base, start, active, st, hholds, -, hphase, -⟩ := h.pager
  rw [hactive] at hphase
  cases hphase with
  | inside hstart hsaved =>
      obtain ⟨st', hsaves, hin⟩ := hsaved snap rfl
      rw [wp_onStorage]
      refine Exec.wp_mono (wp_rollback hholds.guarded hstart hsaves hholds.models.settled.calm) ?_
        (fun _ _ h => h) (fun _ _ h => h)
      exact fun _ p' hidle => h.of_idle hidle hin

end Describes

/-- Whatever is not about trees or transactions changes the fields it names. -/
private theorem honours_of_eq (strict : Bool) (op : DbRequest) {a : op.Res} {d' : Database} {f' : Forest}
    (hrun : Database.answer env op d = (.ok a, d')) (hpost : requestPost strict op f (.ok a) f')
    (hd : Describes d' f') :
    ∃ f', requestPost strict op f (Database.answer env op d).1 f' ∧
      ((∃ why, (Database.answer env op d).1 = .stop why) ∨
        Describes (Database.answer env op d).2 f') := by
  rw [hrun]
  exact ⟨f', hpost, .inr hd⟩

theorem fits_walkAndFree (fuel : Nat) (no : PageNo) :
    (walkAndFree fuel no).Only PageRequest.Fits := by
  induction fuel generalizing no with
  | zero => trivial
  | succ fuel ih =>
      have heach (children : List PageNo) :
          (freeEach (walkAndFree fuel) children).Only PageRequest.Fits := by
        induction children with
        | nil => trivial
        | cons child children ih' => exact .bind (ih child) fun _ => ih'
      refine .bind (Prog.only_request trivial) fun page => ?_
      split
      · exact .bind (Prog.only_unwrap _) fun node => .bind (heach _) fun _ =>
          Prog.only_request trivial
      · split
        · trivial
        · exact Prog.only_request trivial

/-- The pager, the trees on it and the channel honour the contract. -/
theorem honours (env : Environment) (strict : Bool) :
    Prog.Honours Describes (fun op d => d.Regular strict op) (Database.answer env)
      (forestContract strict) := by
  rintro op d f h ⟨hfits, hmoves⟩ hpre
  cases op with
  | createTree =>
      refine honours_of_wp (Exec.wp_mono (h.wp_onTree (Q := Ends fun root st' =>
        f.now.roots.Fresh root ∧ (f.plant root .empty).now.In st')
        (fun st hin => Plants.run_emptyTree hin fun root st' => And.intro)
        (fun _ hstop => by cases hstop.1) ?_) ?_ ?_ ?_)
      · exact (Prog.Only.bind (Prog.only_request trivial) fun no =>
          .bind (Prog.only_request (show Node.encodedSize (.leaf ⟨[], 0⟩) ≤ pageSize by decide))
            fun _ => trivial : Prog.Only PageRequest.Fits
            (emptyTree BTreeError.storage)).calls _ _
      · rintro root d' ⟨st, ⟨hfresh, hin⟩, hd⟩
        exact ⟨_, ⟨hfresh, rfl⟩, hd _ hin⟩
      · exact fun _ _ ⟨_, hfalse, _⟩ => hfalse.elim
      · exact fun why _ ⟨_, hwhy, _⟩ => ⟨f, hwhy⟩
  | insert root key payload =>
      obtain ⟨m, hm⟩ := Option.ne_none_iff_exists'.mp hpre
      let Q : Post Store BTreeError PageNo := {
        ok := fun root' st' => m.get key = none ∧ singleEntrySize key payload ≤ pageSize ∧
          (f.now.roots.fell root).Fresh root' ∧
          ((f.fell root).plant root' (m.insert key payload)).now.In st'
        error := fun reason st' => f.now.In st' ∧
          (reason = .rowTooLarge (singleEntrySize key payload) pageSize ∧
              pageSize < singleEntrySize key payload ∨
            reason = .duplicateKey ∧ m.get key ≠ none)
        stop := fun why _ => why = .overflow }
      refine honours_of_wp (Exec.wp_mono (h.wp_onTree (Q := Q) (fun st hin => ?_)
        (fun _ hstop => by cases hstop) hfits) ?_ ?_ ?_)
      · exact Plants.run_insert hin hm (fun hlarge => ⟨hin, .inl ⟨rfl, hlarge⟩⟩)
          (fun hdup => ⟨hin, .inr ⟨rfl, hdup⟩⟩)
          (fun hsize habsent root' st' hfresh hin' => ⟨habsent, hsize, hfresh, hin'⟩) fun _ _ => rfl
      · rintro root' d' ⟨st, ⟨habsent, hsize, hfresh, hin⟩, hd⟩
        exact ⟨_, ⟨m, hm, habsent, hsize, hfresh, rfl⟩, hd _ hin⟩
      · rintro reason d' ⟨st, ⟨hin, hreason⟩, hd⟩
        exact ⟨_, ⟨rfl, hreason.imp_right fun hdup => ⟨hdup.1, m, hm, hdup.2⟩⟩, hd _ hin⟩
      · exact fun why _ ⟨_, hwhy⟩ => ⟨f, hwhy⟩
  | delete root key =>
      obtain ⟨m, hm⟩ := Option.ne_none_iff_exists'.mp hpre
      let after (root' : PageNo) : Forest := ((f.fell root).plant root' (m.erase key)).withTidy
        (f.now.tidy && decide (root' = root))
      refine honours_of_wp (Exec.wp_mono (Exec.wp_and (Exec.wp_self _ _)
        (h.wp_onTree (Q := Ends fun x st' => x = (false, root) ∧ m.get key = none ∧ f.now.In st' ∨
          x.1 = true ∧ m.get key ≠ none ∧ (f.now.roots.fell root).Fresh x.2 ∧
            (after x.2).now.In st') (fun st hin => ?_) (fun _ hstop => by cases hstop.1) hfits))
        ?_ ?_ ?_)
      · exact Plants.run_delete hin hm key (fun habsent => .inl ⟨rfl, habsent, hin⟩)
          fun hpresent root' st' hfresh hin' => .inr ⟨rfl, hpresent, hfresh, hin'⟩
      · rintro ⟨present, root'⟩ d' ⟨hrun, st, ⟨heq, habsent, hin⟩ | ⟨rfl, hpresent, hfresh, hin⟩, hd⟩
        · obtain ⟨rfl, rfl⟩ := Prod.mk.inj heq
          exact ⟨_, ⟨m, hm, .inl ⟨rfl, rfl, habsent, rfl⟩⟩, hd _ hin⟩
        · refine ⟨_, ⟨m, hm, .inr ⟨rfl, hpresent, hfresh, _, fun hstrict => ?_, rfl⟩⟩, hd _ hin⟩
          have hstay : root' = root := by
            have houtcome : ((BTree.delete root key).run PageRequest.onPager d.pager).1 =
                .ok (true, root') := congrArg Prod.fst hrun
            simpa [Database.movesRoot, houtcome] using hmoves hstrict
          rw [hstay, decide_eq_true rfl, Bool.and_true]
      · exact fun _ _ ⟨_, _, hfalse, _⟩ => hfalse.elim
      · exact fun why _ ⟨_, _, hwhy, _⟩ => ⟨f, hwhy⟩
  | search root key =>
      obtain ⟨m, hm⟩ := Option.ne_none_iff_exists'.mp hpre
      refine honours_of_wp (Exec.wp_mono (h.wp_reads (P := fun found => found = m.get key)
        fun base start active st hholds hin => ?_) ?_ (fun _ _ h => h.elim) fun _ _ h => h.elim)
      · exact read_onPager hholds (reading_search root key) (Plants.run_search hin hm key rfl)
      · exact fun found d' ⟨hfound, hd⟩ => ⟨f, ⟨rfl, m, hm, hfound⟩, hd⟩
  | scan root =>
      obtain ⟨m, hm⟩ := Option.ne_none_iff_exists'.mp hpre
      refine honours_of_wp (Exec.wp_mono (h.wp_scan hm (reading_cursorStart root) le_rfl ?_) ?_
        (fun _ _ h => h.elim) fun _ _ h => h.elim)
      · rintro c F T st ⟨hT, rfl⟩
        exact run_cursorStart hT fun _ h => h
      · exact fun scanned d' ⟨hscanned, hd⟩ => ⟨f, ⟨rfl, m, hm, hscanned⟩, hd⟩
  | scanFrom root key =>
      obtain ⟨m, hm⟩ := Option.ne_none_iff_exists'.mp hpre
      refine honours_of_wp (Exec.wp_mono (h.wp_scan hm (reading_cursorSeek root key)
        (show (m.from key).length ≤ _ from List.length_filter_le _ _) ?_) ?_
        (fun _ _ h => h.elim) fun _ _ h => h.elim)
      · rintro c F T st ⟨hT, rfl⟩
        exact run_cursorSeek hT key fun _ h => h
      · exact fun scanned d' ⟨hscanned, hd⟩ => ⟨f, ⟨rfl, m, hm, hscanned⟩, hd⟩
  | walkAndFree root =>
      obtain ⟨m, hm⟩ := Option.ne_none_iff_exists'.mp hpre
      refine honours_of_wp (Exec.wp_mono (h.wp_onTree (Q := Ends fun _ st' =>
        (f.fell root).now.In st') (fun st hin => Plants.run_walkAndFree hin hm)
        (fun _ hstop => by cases hstop.1) ?_) ?_ ?_ ?_)
      · exact (fits_walkAndFree maxPages root).calls _ _
      · rintro _ d' ⟨st, hin, hd⟩
        exact ⟨_, rfl, hd _ hin⟩
      · exact fun _ _ ⟨_, hfalse, _⟩ => hfalse.elim
      · exact fun why _ ⟨_, hwhy, _⟩ => ⟨f, hwhy⟩
  | catalogRoot =>
      obtain ⟨base, start, active, st, hholds, ⟨F, how, -⟩, -⟩ := h.pager
      exact honours_of_eq strict .catalogRoot rfl
        ⟨rfl, hholds.models.catalogRoot.trans how.catalogRoot⟩ h
  | setCatalogRoot root =>
      exact honours_of_wp (Exec.wp_mono (h.wp_setCatalogRoot root) (fun _ _ hd => ⟨_, rfl, hd⟩)
        (fun _ _ h => h.elim) fun _ _ h => h.elim)
  | flush =>
      exact honours_of_wp (Exec.wp_mono h.wp_flush (fun _ _ hd => ⟨_, rfl, hd⟩)
        (fun _ _ h => h.elim) fun _ _ h => h.elim)
  | inTransaction =>
      obtain ⟨base, start, active, st, hholds, -, hphase, -⟩ := h.pager
      refine honours_of_eq strict .inTransaction rfl ⟨rfl, hholds.guarded.state.trans ?_⟩ h
      generalize f.atBegin = saved at hphase
      cases hphase <;> rfl
  | beginTransaction =>
      exact honours_of_wp (Exec.wp_mono (h.wp_beginTransaction hpre) (fun _ _ hd => ⟨_, rfl, hd⟩)
        (fun _ _ h => h.elim) fun _ _ h => h.elim)
  | commitTransaction =>
      exact honours_of_wp (Exec.wp_mono (h.wp_commitTransaction hpre) (fun _ _ hd => ⟨_, rfl, hd⟩)
        (fun _ _ h => h.elim) fun _ _ h => h.elim)
  | rollbackTransaction =>
      obtain ⟨snap, hsnap⟩ := hpre
      exact honours_of_wp (Exec.wp_mono (h.wp_rollbackTransaction hsnap)
        (fun _ _ hd => ⟨_, ⟨snap, hsnap, rfl⟩, hd⟩) (fun _ _ h => h.elim) fun _ _ h => h.elim)
  | root => exact honours_of_eq strict .root rfl ⟨rfl, h.root⟩ h
  | setRoot root => exact honours_of_eq strict (.setRoot root) rfl rfl { h with root := rfl }
  | queueEvent event =>
      exact honours_of_eq strict (.queueEvent event) rfl rfl { h with transactionEvents := by rw [h.transactionEvents] }
  | clearEvents => exact honours_of_eq strict .clearEvents rfl rfl { h with transactionEvents := rfl }
  | publishEvents =>
      cases hsub : d.subscribed with
      | true =>
          refine honours_of_eq strict .publishEvents (if_pos hsub) rfl ?_
          rw [if_pos (h.subscribed ▸ hsub)]
          exact { h with
            transactionEvents := rfl
            delivered := by rw [h.delivered, h.transactionEvents] }
      | false =>
          refine honours_of_eq strict .publishEvents (if_neg (by simp [hsub])) rfl ?_
          rw [if_neg (by simp [← h.subscribed, hsub])]
          exact h
  | sendEvent event =>
      cases hsub : d.subscribed with
      | true =>
          refine honours_of_eq strict (.sendEvent event) (if_pos hsub) rfl ?_
          rw [if_pos (h.subscribed ▸ hsub)]
          exact { h with delivered := by rw [h.delivered] }
      | false =>
          refine honours_of_eq strict (.sendEvent event) (if_neg (by simp [hsub])) rfl ?_
          rw [if_neg (by simp [← h.subscribed, hsub])]
          exact h
  | now => exact honours_of_eq strict .now rfl rfl { h with }
  | hashPassword password => exact honours_of_eq strict (.hashPassword password) rfl rfl { h with }
  | defaultPassword => exact honours_of_eq strict .defaultPassword rfl rfl { h with }

end Describes

end ChocoBase.Engine
