import ChocoBase.BTree.Runs
import ChocoBase.Foundation.Trace

/-!
# Checking a tree

The check of the code visits every node of a tree.  It succeeds on trees in order
whose internal nodes all have separators.
-/

namespace ChocoBase.BTree

open ChocoBase.Foundation ChocoBase.Storage
open SearchTree hiding entries leaves
open Exec (Post)

inductive CheckError where
  /-- the text of a storage error -/
  | storage (inner : StorageError)
  | message (text : String)

def checkLeaf (no : PageNo) (node : LeafNode) (lower upper : Option Bytes) :
    PageProg CheckError Nat :=
  if (node.entries.zip node.entries.tail).any fun w => decide (w.2.key ≤ w.1.key) then
    .throw (.message s!"leaf {no}: keys out of order")
  else if (node.entries.head?.bind fun e => lower.map fun lo => decide (e.key < lo)) = some true then
    .throw (.message s!"leaf {no}: key below lower bound")
  else if (node.entries.getLast?.bind fun e => upper.map fun hi => decide (hi ≤ e.key)) = some true then
    .throw (.message s!"leaf {no}: key at/above upper bound")
  else return 0

/-- The loop over the entries: the depths of their children, and the last separator. -/
def checkEntries (check : PageNo → Option Bytes → Option Bytes → PageProg CheckError Nat) :
    Option Bytes → List InternalEntry → PageProg CheckError (List Nat × Option Bytes)
  | lo, [] => return ([], lo)
  | lo, e :: es => do
      let depth ← check e.leftChild lo (some e.key)
      let (depths, lo) ← checkEntries check (some e.key) es
      return (depth :: depths, lo)

def checkNode : Nat → PageNo → Option Bytes → Option Bytes → PageProg CheckError Nat
  | 0, _, _, _ => .halt .diverges
  | fuel + 1, no, lower, upper => do
      let page ← @Prog.request pageRequests CheckError .storage (.getPage no)
      if page.pageType = pageTypeLeaf then do
        let node ← Prog.unwrap (LeafNode.decode page)
        checkLeaf no node lower upper
      else if page.pageType = pageTypeInternal then do
        let node ← Prog.unwrap (InternalNode.decode page)
        if node.entries.isEmpty then .throw (.message s!"internal {no}: no entries")
        else do
          let (depths, lo) ← checkEntries (checkNode fuel) lower node.entries
          let depth ← checkNode fuel node.rightmostChild lo upper
          let depths := depths ++ [depth]
          if depths.any fun d => d ≠ depths.headD 0 then
            .throw (.message s!"internal {no}: children at unequal depth {depths}")
          else return depths.headD 0 + 1
      else do
        let t := page.pageType
        .throw (.message s!"page {no}: unexpected page type {t}")

def checkInvariants (root : PageNo) : PageProg CheckError Unit := do
  let _ ← checkNode maxPages root none none
  return ()

/-! ## Trees in order pass the check -/

section Check

variable {c : PageNo} {F : Demand} {st : Store} {root : PageNo} {lower upper : Option Bytes}

/-- A bound, as a separator beside the subtree. -/
def boundToken (bound : Option Bytes) : List PageToken := (bound.map Token.sep).toList

private theorem zip_tail_of_pairwise {α : Type} {R : α → α → Prop} {xs : List α}
    (h : xs.Pairwise R) : ∀ w ∈ xs.zip xs.tail, R w.1 w.2 := by
  induction xs with
  | nil => exact fun w hw => by cases hw
  | cons x xs ih =>
      obtain ⟨hx, hxs⟩ := List.pairwise_cons.mp h
      cases xs with
      | nil => exact fun w hw => by cases hw
      | cons y ys =>
          intro w hw
          cases List.mem_cons.mp hw with
          | inl heq =>
              rw [heq]
              exact hx y List.mem_cons_self
          | inr hw => exact ih hxs w hw

theorem run_checkLeaf {l : PageLeaf} {next : PageNo}
    (hsorted : Sorted (boundToken lower ++ [.leaf l] ++ boundToken upper))
    {Q : Post Store CheckError Nat} (hok : Q.ok 0 st) :
    Run (checkLeaf l.page (.ofEntries l.entries next) lower upper) Q st := by
  have hmarks : (marks (boundToken lower) ++ ((l.entries.map fun e => Mark.entry e.1) ++
      marks (boundToken upper))).Pairwise (· < ·) := by
    simpa [Sorted] using hsorted
  obtain ⟨-, hrest, hlower⟩ := List.pairwise_append.mp hmarks
  obtain ⟨hentries, -, hupper⟩ := List.pairwise_append.mp hrest
  have horder : ((LeafNode.ofEntries l.entries next).entries.zip
      (LeafNode.ofEntries l.entries next).entries.tail).any
        (fun w => decide (w.2.key ≤ w.1.key)) = false := by
    have hpairs : (LeafNode.ofEntries l.entries next).entries.Pairwise fun e e' =>
        e.key < e'.key := by
      simp only [LeafNode.ofEntries, List.pairwise_map, toLeafEntry] at hentries ⊢
      exact hentries.imp Mark.entry_lt_entry.mp
    refine List.any_eq_false.mpr fun w hw => ?_
    simpa using zip_tail_of_pairwise hpairs w hw
  have hbelow : ((LeafNode.ofEntries l.entries next).entries.head?.bind fun e =>
      lower.map fun lo => decide (e.key < lo)) ≠ some true := by
    intro heq
    obtain ⟨e, he, hlt⟩ := Option.bind_eq_some_iff.mp heq
    obtain ⟨lo, rfl, hlt⟩ := Option.map_eq_some_iff.mp hlt
    obtain ⟨x, hx, rfl⟩ := List.mem_map.mp (List.mem_of_mem_head? he)
    have hle := Mark.sep_lt_entry.mp (hlower (.sep lo) (by simp [boundToken]) (.entry x.1)
      (List.mem_append_left _ (List.mem_map_of_mem hx)))
    exact absurd (of_decide_eq_true (Option.some.inj hlt)) (not_lt.mpr hle)
  have habove : ((LeafNode.ofEntries l.entries next).entries.getLast?.bind fun e =>
      upper.map fun hi => decide (hi ≤ e.key)) ≠ some true := by
    intro heq
    obtain ⟨e, he, hle⟩ := Option.bind_eq_some_iff.mp heq
    obtain ⟨hi, rfl, hle⟩ := Option.map_eq_some_iff.mp hle
    obtain ⟨x, hx, rfl⟩ := List.mem_map.mp (List.mem_of_getLast? he)
    have hlt := Mark.entry_lt_sep.mp (hupper (.entry x.1) (List.mem_map_of_mem hx) (.sep hi)
      (by simp [boundToken]))
    exact absurd (of_decide_eq_true (Option.some.inj hle)) (not_le.mpr hlt)
  rw [checkLeaf, horder, if_neg (by simp), if_neg hbelow, if_neg habove]
  exact hok

/-- The bound left of the last child. -/
def lastBound {α : Type} (lo : Option Bytes) : List (α × Bytes) → Option Bytes
  | [] => lo
  | x :: front => lastBound (some x.2) front

theorem run_checkEntries {h : Nat} {kids : Kids Bytes (PageTree h)} {fuel : Nat}
    (hchild : ∀ (fr : Frame Bytes (PageTree h)) (t : PageTree h) (lower upper : Option Bytes)
      (Q : Post Store CheckError Nat), kids = fr.fill t →
        Sorted (boundToken lower ++ t.tokens ++ boundToken upper) → (t.Proper → Q.ok h st) →
        (¬t.Proper → ∀ reason, Q.error reason st) → Run (checkNode fuel t.page lower upper) Q st)
    (front : List (PageTree h × Bytes)) (hfront : ∃ done, kids.front = done ++ front)
    (hsorted : Sorted (boundToken lower ++ Kids.frontFlat Tree.tokens .sep front ++
      kids.last.tokens ++ boundToken upper))
    {Q : Post Store CheckError (List Nat × Option Bytes)}
    (hok : (∀ x ∈ front, x.1.Proper) →
      Q.ok (List.replicate front.length h, lastBound lower front) st)
    (herror : ¬(∀ x ∈ front, x.1.Proper) → ∀ reason, Q.error reason st) :
    Run (checkEntries (checkNode fuel) lower (front.map fun x => toEntry (x.1.page, x.2))) Q st := by
  induction front generalizing lower Q with
  | nil => exact hok (List.forall_mem_nil _)
  | cons x front ih =>
      obtain ⟨done, hdone⟩ := hfront
      have hkids : kids = (Frame.inner done x.2 ⟨front, kids.last⟩).fill x.1 := by
        rw [Frame.fill, ← hdone]
      let rest := Kids.frontFlat Tree.tokens .sep front ++ kids.last.tokens ++ boundToken upper
      rw [List.forall_mem_cons] at hok herror
      refine .step (hchild _ x.1 lower (some x.2) _ hkids (hsorted.of_within ⟨[], rest, ?_⟩)
        (fun hx => ?_) fun hx => herror fun h => hx h.1)
      · simp [boundToken, rest]
      · refine .step (ih ⟨done ++ [x], by simp [hdone]⟩
          (hsorted.of_within ⟨boundToken lower ++ x.1.tokens, [], ?_⟩) (fun h => hok ⟨hx, h⟩)
          fun h => herror fun h' => h h'.2)
        simp [boundToken, toEntry]

theorem sorted_last {α : Type} (f : α → List PageToken) {front : List (α × Bytes)}
    {after : List PageToken}
    (hsorted : Sorted (boundToken lower ++ Kids.frontFlat f .sep front ++ after)) :
    Sorted (boundToken (lastBound lower front) ++ after) := by
  induction front generalizing lower with
  | nil => simpa [lastBound] using hsorted
  | cons x front ih =>
      refine ih (hsorted.of_within ⟨boundToken lower ++ f x.1, [], ?_⟩)
      simp [boundToken]

/-- The check of a subtree in order fails if a node without separators is below. -/
theorem run_checkNode {h : Nat} (t : PageTree h) (ctx : PageCtx h) {fuel : Nat} (hfuel : h < fuel)
    (how : Owns c (treeDemand (ctx.plug t) + F) st)
    (hsorted : Sorted (boundToken lower ++ t.tokens ++ boundToken upper))
    {Q : Post Store CheckError Nat} (hok : t.Proper → Q.ok h st)
    (herror : ¬t.Proper → ∀ reason, Q.error reason st) :
    Run (checkNode fuel t.page lower upper) Q st := by
  induction h generalizing fuel lower upper Q with
  | zero =>
      obtain ⟨l, ht⟩ := t.exists_ofLeaf
      obtain ⟨fuel, rfl⟩ : ∃ n, fuel = n + 1 := ⟨fuel - 1, by omega⟩
      rw [ht] at how hsorted ⊢
      refine .step (run_getPageAs _ how (leafAt_mem F) fun page hpage => ?_)
      obtain ⟨htype, hdecode⟩ := Node.decode_eq_leaf.mp hpage
      simp only [Post.withOk_ok, if_pos htype]
      exact .step (run_unwrap hdecode (run_checkLeaf hsorted (hok trivial)))
  | succ h ih =>
      obtain ⟨p, kids, ht⟩ := t.exists_branch
      obtain ⟨fuel, rfl⟩ : ∃ n, fuel = n + 1 := ⟨fuel - 1, by omega⟩
      rw [ht] at how hsorted hok herror ⊢
      refine .step (run_getPageAs _ how (branchAt_mem F) fun page hpage => ?_)
      obtain ⟨htype, hdecode⟩ := Node.decode_eq_internal.mp hpage
      have hleaf : page.pageType ≠ pageTypeLeaf := by
        rw [htype]
        decide
      simp only [Post.withOk_ok, if_neg hleaf, if_pos htype]
      refine .step (run_unwrap hdecode ?_)
      have hentries : (InternalNode.ofKids (kids.map Tree.page)).entries =
          kids.front.map fun x => toEntry (x.1.page, x.2) := by
        simp [InternalNode.ofKids, Kids.map]
      dsimp only [Post.withOk_ok]
      rw [hentries]
      by_cases hfront : kids.front = []
      · rw [hfront]
        exact herror (fun hproper => hproper.1 hfront) _
      have hnonempty : (kids.front.map fun x => toEntry (x.1.page, x.2)).isEmpty = false := by
        simpa using hfront
      have hchild (fr : Frame Bytes (PageTree h)) (t : PageTree h) (lower upper : Option Bytes)
          (Q : Post Store CheckError Nat) (hkids : kids = fr.fill t)
          (hsorted : Sorted (boundToken lower ++ t.tokens ++ boundToken upper))
          (hok : t.Proper → Q.ok h st) (herror : ¬t.Proper → ∀ reason, Q.error reason st) :
          Run (checkNode fuel t.page lower upper) Q st := by
        refine ih t (.under p fr ctx) (by omega) ?_ hsorted hok herror
        rw [Ctx.plug, ← hkids]
        exact how
      rw [hnonempty, if_neg (by simp)]
      rw [Tree.tokens_branch, Kids.flat, ← List.append_assoc] at hsorted
      refine .step (run_checkEntries hchild kids.front ⟨[], rfl⟩ hsorted (fun hall => ?_)
        fun hall => herror fun hproper => hall hproper.2.1)
      have hlast := sorted_last Tree.tokens (by rwa [List.append_assoc] at hsorted)
      refine .step (hchild (.outer kids.front) kids.last _ upper _ rfl
        (by rwa [← List.append_assoc] at hlast) (fun hproper => ?_)
        fun hlast => herror fun hproper => hlast hproper.2.2)
      have hdepths : List.replicate kids.front.length h ++ [h] =
          List.replicate (kids.front.length + 1) h := by
        rw [List.replicate_succ']
      dsimp only [Post.withOk_ok]
      rw [hdepths, if_neg (by simp [List.replicate_succ])]
      exact hok ⟨hfront, hall, hproper⟩

theorem run_checkInvariants {T : PageWhole} (hT : Represents c F T root st) :
    Run (checkInvariants root)
      ⟨fun _ _ => T.2.Proper, fun _ _ => ¬T.2.Proper, fun _ _ => False⟩ st := by
  obtain rfl := hT.page
  refine .step (run_checkNode T.2 .top hT.owns.height_lt hT.owns ?_ (fun h => h)
    fun h _ => h)
  simpa [boundToken] using hT.sorted

theorem reading_checkNode (fuel : Nat) (no : PageNo) (lower upper : Option Bytes) :
    Reading (checkNode fuel no lower upper) := by
  induction fuel generalizing no lower upper with
  | zero => trivial
  | succ fuel ih =>
      have hentries (lo : Option Bytes) (es : List InternalEntry) :
          Reading (checkEntries (checkNode fuel) lo es) := by
        induction es generalizing lo with
        | nil => trivial
        | cons e es ih' => exact .bind (ih _ _ _) fun _ => .bind (ih' _) fun _ => trivial
      refine .bind (Prog.only_request trivial) fun page => ?_
      split
      · refine .bind (Prog.only_unwrap _) fun node => ?_
        unfold checkLeaf
        repeat (split; trivial)
        trivial
      · split
        · refine .bind (Prog.only_unwrap _) fun node => ?_
          split
          · trivial
          · refine .bind (hentries _ _) fun _ => .bind (ih _ _ _) fun _ => ?_
            dsimp only
            split <;> trivial
        · trivial

end Check

/-! ## Runs that keep the tree in order -/

structure TreeState where
  root : PageNo
  pager : Pager

namespace TreeState

/-- One call, unless the page numbers run out. -/
def step (s : TreeState) (call : TreeCall) : Option TreeState :=
  match (call.perform s.root).run PageRequest.onPager s.pager with
  | (.ok (_, root), pager) => some { root, pager }
  | _ => none

def node (s : TreeState) (no : PageNo) : Option Node :=
  (s.pager.content no).bind Node.decode

def Fits (s : TreeState) (call : TreeCall) : Prop :=
  Fitting PageRequest.onPager (call.perform s.root) s.pager

def Regular (s : TreeState) (call : TreeCall) : Prop :=
  s.Fits call ∧ call.SplitsNoThin s.node s.root

end TreeState

section Runs

variable {base : List Page} {start : Os} {active : Bool} {p : Pager} {st : Store} {root : PageNo}

theorem Descent.mono {node node' : PageNo → Option Node} {key : Bytes} {no leafNo : PageNo}
    {up : List (PageNo × InternalNode)} {leaf : LeafNode}
    (hle : ∀ no n, node no = some n → node' no = some n) (h : Descent node key no up leafNo leaf) :
    Descent node' key no up leafNo leaf := by
  induction h with
  | leaf hleaf => exact .leaf (hle _ _ hleaf)
  | internal hnode _ ih => exact .internal (hle _ _ hnode) ih

theorem TreeCall.SplitsNoThin.mono {node node' : PageNo → Option Node} {call : TreeCall}
    (hle : ∀ no n, node no = some n → node' no = some n) (h : call.SplitsNoThin node' root) :
    call.SplitsNoThin node root := by
  cases call with
  | insert key payload =>
      rintro ⟨up, leafNo, leaf, hdescent, hthin⟩
      exact h ⟨up, leafNo, leaf, hdescent.mono hle, hthin⟩
  | delete key => trivial

/-- The tree is in order, and its internal nodes all have separators. -/
def TreeState.Inv (base : List Page) (start : Os) (active : Bool) (s : TreeState) : Prop :=
  ∃ c F m T st, Holds base start active s.pager st ∧ Maps c F m T s.root st ∧ T.2.Proper

theorem TreeState.Inv.step {s s' : TreeState} {call : TreeCall} (h : s.Inv base start active)
    (hregular : s.Regular call) (hstep : s.step call = some s') : s'.Inv base start active := by
  obtain ⟨c, F, m, T, st, hholds, hT, hproper⟩ := h
  obtain ⟨hfits, hthin⟩ := hregular
  have hwp := run_onPager hholds (run_perform hT call) (fun _ hstop => by cases hstop.1) hfits
  unfold TreeState.step at hstep
  unfold Exec.wp at hwp
  rcases hrun : (call.perform s.root).run PageRequest.onPager s.pager with ⟨outcome, p'⟩
  rw [hrun] at hstep hwp
  cases outcome with
  | ok x =>
      obtain rfl := Option.some.inj hstep
      obtain ⟨st', hholds', -, F', T', hT', hproper'⟩ := hwp
      refine ⟨c, F', _, T', st', hholds', hT', hproper' (hthin.mono fun no n hn => ?_) hproper⟩
      obtain ⟨page, hpage, hdecode⟩ := Option.bind_eq_some_iff.mp hn
      rw [TreeState.node, (hholds.models.pages no page hpage).2]
      exact hdecode
  | error reason => cases hstep
  | stop why => cases hstep

/--
The check succeeds after every run of insertions and deletions that splits no
internal node with at most one separator.
-/
theorem invariants_checked (h : Holds base start active p st)
    (hroot : st.node root = some (.leaf ⟨[], 0⟩)) {calls : List TreeCall} {s' : TreeState}
    (htrace : Trace TreeState.step TreeState.Regular ⟨root, p⟩ calls s') :
    ((checkInvariants s'.root).run PageRequest.onPager s'.pager).1 = .ok () := by
  have hinitial : TreeState.Inv base start active ⟨root, p⟩ :=
    ⟨_, _, _, _, st, h, maps_empty h.models.wf hroot, trivial⟩
  obtain ⟨c, F, m, T, st', hholds, hT, hproper⟩ :=
    htrace.invariant hinitial fun _ _ _ hs ha hstep => hs.step ha hstep
  refine answer_of_run hholds (.bind (reading_checkNode _ _ _ _) fun _ => trivial)
    (Prog.wp_mono (run_checkInvariants hT.represents) (fun _ _ _ => rfl) (fun _ _ h => h hproper)
      fun _ _ h => h)

/-- A run of calls is a trace. -/
theorem trace_of_performAll {calls : List TreeCall} {s : TreeState} {answers : List TreeAnswer}
    {root' : PageNo} {p' : Pager}
    (hfits : Fitting PageRequest.onPager (TreeCall.performAll s.root calls) s.pager)
    (hrun : (TreeCall.performAll s.root calls).run PageRequest.onPager s.pager =
      (.ok (answers, root'), p')) : Trace TreeState.step TreeState.Fits s calls ⟨root', p'⟩ := by
  induction calls generalizing s answers with
  | nil =>
      obtain ⟨h, rfl⟩ := Prod.mk.inj hrun
      obtain ⟨-, rfl⟩ := Prod.mk.inj (Outcome.ok.inj h)
      exact .nil _
  | cons call calls ih =>
      obtain ⟨⟨answer, root₁⟩, p₁, hfirst, hrun, hcalls⟩ := Prog.exists_of_bind_ok hrun
      unfold Fitting at hfits
      rw [TreeCall.performAll, hcalls] at hfits
      obtain ⟨hcall, hrest⟩ := (List.forall_mem_append ..).mp hfits
      obtain ⟨⟨answers', root₂⟩, p₂, hsecond, hrun, hcalls⟩ := Prog.exists_of_bind_ok hrun
      rw [hcalls] at hrest
      obtain ⟨h, rfl⟩ := Prod.mk.inj hrun
      obtain ⟨-, rfl⟩ := Prod.mk.inj (Outcome.ok.inj h)
      have hstep : s.step call = some ⟨root₁, p₁⟩ := by rw [TreeState.step, hfirst]
      exact .cons hcall hstep (ih ((List.forall_mem_append ..).mp hrest).1 hsecond)

end Runs

theorem TreeState.step_of_run {s : TreeState} {call : TreeCall} {answer : TreeAnswer}
    {root' : PageNo}
    (h : ((call.perform s.root).run PageRequest.onPager s.pager).1 = .ok (answer, root')) :
    s.step call = some ⟨root', ((call.perform s.root).run PageRequest.onPager s.pager).2⟩ := by
  unfold TreeState.step
  rcases hrun : (call.perform s.root).run PageRequest.onPager s.pager with ⟨outcome, p'⟩
  rw [hrun] at h
  obtain rfl : outcome = .ok (answer, root') := h
  rfl

/-- An insertion into a tree of one leaf splits no internal node. -/
theorem not_insertSplitsThin_of_leaf {node : PageNo → Option Node} {root : PageNo}
    {leaf : LeafNode} {key payload : Bytes} (hroot : node root = some (.leaf leaf)) :
    ¬InsertSplitsThin node root key payload := by
  rintro ⟨up, leafNo, leaf', hdescent, -, first, -, hthin⟩
  cases hdescent with
  | leaf _ => exact hthin
  | internal hnode _ =>
      rw [hroot] at hnode
      cases hnode

theorem invariants_checked_small : ∃ s', Trace TreeState.step TreeState.Regular ⟨1, newTreePager⟩
    [.insert [1] [2], .delete [1]] s' ∧
      ((checkInvariants s'.root).run PageRequest.onPager s'.pager).1 = .ok () := by
  have hinsert : TreeState.Regular ⟨1, newTreePager⟩ (.insert [1] [2]) :=
    ⟨by unfold TreeState.Fits; decide +kernel,
      @not_insertSplitsThin_of_leaf _ _ ⟨[], 0⟩ _ _ (by decide +kernel)⟩
  have htrace := Trace.cons hinsert
    (@TreeState.step_of_run _ _ (.inserted (.ok ())) 1 (by decide +kernel))
    (.cons (show TreeState.Regular _ (.delete [1]) from
        ⟨by unfold TreeState.Fits; decide +kernel, trivial⟩)
      (@TreeState.step_of_run _ _ (.deleted true) 1 (by decide +kernel)) (.nil _))
  exact ⟨_, htrace, invariants_checked newTreePager_holds newTreeStore_root htrace⟩

/-! ## A node without separators -/

theorem Node.rightmostChild_of_decode {page : Page} {node : InternalNode}
    (h : Node.decode page = some (.internal node)) : page.readU32 8 = some node.rightmostChild := by
  have hdecode := (Node.decode_eq_internal.mp h).2
  obtain ⟨⟨entries, link⟩, hcells, rfl⟩ := Option.map_eq_some_iff.mp hdecode
  simp only [decodeNode, Option.bind_eq_bind, Option.bind_eq_some_iff] at hcells
  obtain ⟨_, -, _, -, link', hlink, _, -, heq⟩ := hcells
  obtain ⟨-, rfl⟩ := Prod.mk.inj (Option.some.inj heq)
  exact hlink

/-- Keys of which a page holds one, beside an internal node's. -/
def longKey (first : UInt8) : Bytes := first :: List.replicate 2034 0

def longInserts : List TreeCall :=
  [.insert (longKey 1) [], .insert (longKey 2) [], .insert (longKey 3) [], .insert (longKey 4) []]

/-- The last insertion splits the parent, which has one separator, in two. -/
def longRun : Outcome BTreeError (List TreeAnswer × PageNo) × Store :=
  (TreeCall.performAll 1 longInserts).run PageRequest.onStore newTreeStore

theorem longRun_eq :
    Fitting PageRequest.onStore (TreeCall.performAll 1 longInserts) newTreeStore ∧
      longRun.1 = .ok (List.replicate 4 (.inserted (.ok ())), 6) ∧
      (longRun.2.page 6).map Page.pageType = some pageTypeInternal ∧
      (longRun.2.page 6).bind (fun page => page.readU32 8) = some 5 ∧
      longRun.2.node 5 = some (.internal ⟨[], 4⟩) := by
  decide +kernel

example : (longKey 1).length = 2035 := by decide +kernel

section Empty

variable {c : PageNo} {F : Demand} {st : Store} {h : Nat}

/-- The root of a subtree, as it is stored. -/
theorem node_leaf {t : PageTree 0} {ctx : PageCtx 0}
    (how : Owns c (treeDemand (ctx.plug t) + F) st) :
    ∃ leaf, st.node t.page = some (.leaf leaf) := by
  obtain ⟨l, ht⟩ := t.exists_ofLeaf
  rw [ht] at how ⊢
  exact ⟨_, how.node _ _ (leafAt_mem F)⟩

theorem node_branch {p : PageNo} {kids : Kids Bytes (PageTree h)} {ctx : PageCtx (h + 1)}
    (how : Owns c (treeDemand (ctx.plug (.branch p kids)) + F) st) :
    st.node p = some (.internal (.ofKids (kids.map Tree.page))) :=
  how.node _ _ (branchAt_mem F)

theorem not_proper_of_empty (t : PageTree h) (ctx : PageCtx h) {link : PageNo}
    (how : Owns c (treeDemand (ctx.plug t) + F) st)
    (hempty : st.node t.page = some (.internal ⟨[], link⟩)) : ¬t.Proper := by
  intro hproper
  cases h with
  | zero =>
      obtain ⟨leaf, hnode⟩ := node_leaf how
      rw [hempty] at hnode
      cases hnode
  | succ h =>
      obtain ⟨p, kids, ht⟩ := t.exists_branch
      rw [ht] at how hempty hproper
      have hnode := node_branch how
      rw [Tree.page_branch, hnode] at hempty
      have hentries := congrArg InternalNode.entries (Node.internal.inj (Option.some.inj hempty))
      exact hproper.1 (List.map_eq_nil_iff.mp (List.map_eq_nil_iff.mp hentries))

/-- A tree is out of order in this way if the last child of its root has no separators. -/
theorem not_proper_of_empty_child {root child link : PageNo} {T : PageWhole}
    (hT : Represents c F T root st)
    (htype : (st.page root).map Page.pageType = some pageTypeInternal)
    (hlink : (st.page root).bind (fun page => page.readU32 8) = some child)
    (hempty : st.node child = some (.internal ⟨[], link⟩)) : ¬T.2.Proper := by
  intro hproper
  obtain ⟨h, t⟩ := T
  have hpage : t.page = root := hT.page
  have how : Owns c (treeDemand (Ctx.top.plug t) + F) st := hT.owns
  rw [← hpage] at htype hlink
  cases h with
  | zero =>
      obtain ⟨leaf, hnode⟩ := node_leaf how
      obtain ⟨page, hpage, hdecode⟩ := Option.bind_eq_some_iff.mp hnode
      rw [hpage, Option.map_some, (Node.decode_eq_leaf.mp hdecode).1] at htype
      exact absurd htype (by decide)
  | succ h =>
      obtain ⟨p, kids, ht⟩ := t.exists_branch
      change t.Proper at hproper
      rw [ht] at how hlink hproper
      obtain ⟨page, hpage, hdecode⟩ := Option.bind_eq_some_iff.mp (node_branch how)
      rw [Tree.page_branch, hpage, Option.bind_some, Node.rightmostChild_of_decode hdecode] at hlink
      obtain rfl : kids.last.page = child := Option.some.inj hlink
      exact not_proper_of_empty kids.last (.under p (.outer kids.front) .top) how hempty hproper.2.2

/-- A run that leaves such a tree is one after which the check fails. -/
theorem check_fails_of_run {base : List Page} {start : Os} {active : Bool} {p : Pager}
    {st st' : Store} {root root' child link : PageNo} {calls : List TreeCall}
    {answers : List TreeAnswer} (hholds : Holds base start active p st)
    (hroot : st.node root = some (.leaf ⟨[], 0⟩))
    (hfits : Fitting PageRequest.onStore (TreeCall.performAll root calls) st)
    (hrun : (TreeCall.performAll root calls).run PageRequest.onStore st =
      (.ok (answers, root'), st'))
    (htype : (st'.page root').map Page.pageType = some pageTypeInternal)
    (hlink : (st'.page root').bind (fun page => page.readU32 8) = some child)
    (hempty : st'.node child = some (.internal ⟨[], link⟩)) :
    ∃ s', Trace TreeState.step TreeState.Fits ⟨root, p⟩ calls s' ∧
      ((checkInvariants s'.root).run PageRequest.onPager s'.pager).1 ≠ .ok () := by
  have hdefined : ((TreeCall.performAll root calls).run PageRequest.onStore st).1 ≠
      .stop .misuse := by simp [hrun]
  obtain ⟨hsame, hholds', hcalls⟩ :=
    Prog.run_simulates onPager_simulates (TreeCall.performAll root calls) hholds hdefined
  rw [hrun] at hsame hholds'
  have hfits' : Fitting PageRequest.onPager (TreeCall.performAll root calls) p := by
    unfold Fitting
    rwa [hcalls]
  obtain ⟨-, F, T, hT⟩ :=
    Exec.wp_ok (Prog.wp_sound (run_performAll (maps_empty hholds.models.wf hroot) calls) hfits) hrun
  refine ⟨_, trace_of_performAll (s := ⟨root, p⟩) hfits' (Prod.ext hsame rfl), fun hcheck => ?_⟩
  have hreading : Reading (checkInvariants root') :=
    .bind (reading_checkNode _ _ _ _) fun _ => trivial
  have hwp := run_onPager hholds' (run_checkInvariants hT.represents) (fun _ h => h)
    fun op hop => (hreading.calls _ _ op hop).fits
  obtain ⟨_, -, hproper⟩ := Exec.wp_ok hwp (Prod.ext hcheck rfl)
  exact not_proper_of_empty_child hT.represents htype hlink hempty hproper

end Empty

/-- An insertion that splits a node with one separator leaves a node without any. -/
theorem check_fails_after_split : ¬∀ (base : List Page) (start : Os) (active : Bool) (p : Pager)
    (st : Store) (root : PageNo) (calls : List TreeCall) (s' : TreeState),
    Holds base start active p st → st.node root = some (.leaf ⟨[], 0⟩) →
    Trace TreeState.step TreeState.Fits ⟨root, p⟩ calls s' →
    ((checkInvariants s'.root).run PageRequest.onPager s'.pager).1 = .ok () := by
  intro h
  obtain ⟨hfits, houtcome, htype, hlink, hempty⟩ := longRun_eq
  have hrun := (Prod.eta longRun).symm
  rw [houtcome] at hrun
  obtain ⟨s', htrace, hcheck⟩ := check_fails_of_run newTreePager_holds newTreeStore_root
    hfits hrun htype hlink hempty
  exact hcheck (h _ _ _ _ _ _ _ _ newTreePager_holds newTreeStore_root htrace)

end ChocoBase.BTree
