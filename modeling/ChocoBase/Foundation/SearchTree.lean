import Mathlib.Algebra.BigOperators.Group.Multiset.Basic
import Mathlib.Data.Prod.Lex

/-!
# Search trees on pages

Trees whose leaves all lie at one depth.  Every node is kept on a page; a branch
holds its children with separators between them, and the leaves are chained from
left to right.

A tree is seen in two ways.  `tokens` lists its leaves and separators in order:
splitting, merging and rotating branches does not change it.  `inner` collects
the branches with the pages of their children, as they are stored.  A `Ctx` is a
tree with one subtree missing, the way a path from the root leaves it.
-/

namespace ChocoBase.Foundation.SearchTree

variable {ι κ π α β τ : Type}

/-! ## Children and separators -/

/-- Each child in `front` is followed by the separator to its right. -/
structure Kids (κ α : Type) where
  front : List (α × κ)
  last : α

namespace Kids

def map (f : α → β) (k : Kids κ α) : Kids κ β where
  front := k.front.map fun x => (f x.1, x.2)
  last := f k.last

def frontFlat (f : α → List τ) (sep : κ → τ) (front : List (α × κ)) : List τ :=
  front.flatMap fun x => f x.1 ++ [sep x.2]

def flat (f : α → List τ) (sep : κ → τ) (k : Kids κ α) : List τ :=
  frontFlat f sep k.front ++ f k.last

def frontSum (f : α → Multiset τ) (front : List (α × κ)) : Multiset τ :=
  (front.map fun x => f x.1).sum

def sum (f : α → Multiset τ) (k : Kids κ α) : Multiset τ :=
  frontSum f k.front + f k.last

def All (P : α → Prop) (k : Kids κ α) : Prop :=
  (∀ x ∈ k.front, P x.1) ∧ P k.last

@[simp] theorem frontFlat_nil (f : α → List τ) (sep : κ → τ) : frontFlat f sep [] = [] := rfl

@[simp] theorem frontFlat_cons (f : α → List τ) (sep : κ → τ) (x : α × κ)
    (front : List (α × κ)) :
    frontFlat f sep (x :: front) = f x.1 ++ sep x.2 :: frontFlat f sep front := by
  simp [frontFlat]

@[simp] theorem frontFlat_append (f : α → List τ) (sep : κ → τ) (l r : List (α × κ)) :
    frontFlat f sep (l ++ r) = frontFlat f sep l ++ frontFlat f sep r :=
  List.flatMap_append

@[simp] theorem frontSum_nil (f : α → Multiset τ) : frontSum f ([] : List (α × κ)) = 0 := rfl

@[simp] theorem frontSum_cons (f : α → Multiset τ) (x : α × κ) (front : List (α × κ)) :
    frontSum f (x :: front) = f x.1 + frontSum f front := by
  simp [frontSum]

@[simp] theorem frontSum_append (f : α → Multiset τ) (l r : List (α × κ)) :
    frontSum f (l ++ r) = frontSum f l + frontSum f r := by
  simp [frontSum]

end Kids

/-- A branch with one child missing. -/
inductive Frame (κ α : Type) where
  | inner (left : List (α × κ)) (sep : κ) (right : Kids κ α)
  | outer (left : List (α × κ))

namespace Frame

def left : Frame κ α → List (α × κ)
  | .inner left _ _ => left
  | .outer left => left

def fill : Frame κ α → α → Kids κ α
  | .inner left sep right, c => ⟨left ++ (c, sep) :: right.front, right.last⟩
  | .outer left, c => ⟨left, c⟩

def map (f : α → β) : Frame κ α → Frame κ β
  | .inner left sep right => .inner (left.map fun x => (f x.1, x.2)) sep (right.map f)
  | .outer left => .outer (left.map fun x => (f x.1, x.2))

/-- The frame with one more child right of the missing one. -/
def withRight (s : κ) (b : α) : Frame κ α → Frame κ α
  | .inner left sep right => .inner left s ⟨(b, sep) :: right.front, right.last⟩
  | .outer left => .inner left s ⟨[], b⟩

/-- The frame with one more child left of the missing one. -/
def withLeft (a : α) (s : κ) : Frame κ α → Frame κ α
  | .inner left sep right => .inner (left ++ [(a, s)]) sep right
  | .outer left => .outer (left ++ [(a, s)])

def leftFlat (f : α → List τ) (sep : κ → τ) (fr : Frame κ α) : List τ :=
  Kids.frontFlat f sep fr.left

def rightFlat (f : α → List τ) (sep : κ → τ) : Frame κ α → List τ
  | .inner _ s right => sep s :: right.flat f sep
  | .outer _ => []

def sum (f : α → Multiset τ) : Frame κ α → Multiset τ
  | .inner left _ right => Kids.frontSum f left + right.sum f
  | .outer left => Kids.frontSum f left

def All (P : α → Prop) : Frame κ α → Prop
  | .inner left _ right => (∀ x ∈ left, P x.1) ∧ right.All P
  | .outer left => ∀ x ∈ left, P x.1

/-- The two ways to see a pair of neighbours. -/
theorem fill_withLeft (fr : Frame κ α) (a : α) (s : κ) (b : α) :
    (fr.withLeft a s).fill b = (fr.withRight s b).fill a := by
  cases fr <;> simp [fill, withLeft, withRight]

@[simp] theorem fill_map (f : α → β) (fr : Frame κ α) (c : α) :
    (fr.fill c).map f = (fr.map f).fill (f c) := by
  cases fr <;> simp [fill, map, Kids.map]

@[simp] theorem map_withRight (f : α → β) (fr : Frame κ α) (s : κ) (b : α) :
    (fr.withRight s b).map f = (fr.map f).withRight s (f b) := by
  cases fr <;> simp [withRight, map, Kids.map]

@[simp] theorem map_withLeft (f : α → β) (fr : Frame κ α) (a : α) (s : κ) :
    (fr.withLeft a s).map f = (fr.map f).withLeft (f a) s := by
  cases fr <;> simp [withLeft, map]

@[simp] theorem flat_fill (f : α → List τ) (sep : κ → τ) (fr : Frame κ α) (c : α) :
    (fr.fill c).flat f sep = fr.leftFlat f sep ++ f c ++ fr.rightFlat f sep := by
  cases fr <;> simp [fill, Kids.flat, leftFlat, rightFlat, left]

@[simp] theorem leftFlat_withRight (f : α → List τ) (sep : κ → τ) (fr : Frame κ α) (s : κ)
    (b : α) : (fr.withRight s b).leftFlat f sep = fr.leftFlat f sep := by
  cases fr <;> rfl

@[simp] theorem rightFlat_withRight (f : α → List τ) (sep : κ → τ) (fr : Frame κ α) (s : κ)
    (b : α) : (fr.withRight s b).rightFlat f sep = sep s :: f b ++ fr.rightFlat f sep := by
  cases fr <;> simp [withRight, rightFlat, Kids.flat]

@[simp] theorem leftFlat_withLeft (f : α → List τ) (sep : κ → τ) (fr : Frame κ α) (a : α)
    (s : κ) : (fr.withLeft a s).leftFlat f sep = fr.leftFlat f sep ++ f a ++ [sep s] := by
  cases fr <;> simp [withLeft, leftFlat, left]

@[simp] theorem rightFlat_withLeft (f : α → List τ) (sep : κ → τ) (fr : Frame κ α) (a : α)
    (s : κ) : (fr.withLeft a s).rightFlat f sep = fr.rightFlat f sep := by
  cases fr <;> rfl

@[simp] theorem sum_fill (f : α → Multiset τ) (fr : Frame κ α) (c : α) :
    (fr.fill c).sum f = fr.sum f + f c := by
  cases fr <;> simp [fill, Kids.sum, sum]
  ac_rfl

@[simp] theorem sum_withRight (f : α → Multiset τ) (fr : Frame κ α) (s : κ) (b : α) :
    (fr.withRight s b).sum f = fr.sum f + f b := by
  cases fr <;> simp [withRight, Kids.sum, sum]
  ac_rfl

@[simp] theorem sum_withLeft (f : α → Multiset τ) (fr : Frame κ α) (a : α) (s : κ) :
    (fr.withLeft a s).sum f = fr.sum f + f a := by
  cases fr <;> simp [withLeft, sum]
  ac_rfl

@[simp] theorem all_fill (P : α → Prop) (fr : Frame κ α) (c : α) :
    (fr.fill c).All P ↔ fr.All P ∧ P c := by
  cases fr <;> simp [fill, Kids.All, All, or_imp, forall_and]
  tauto

@[simp] theorem all_withRight (P : α → Prop) (fr : Frame κ α) (s : κ) (b : α) :
    (fr.withRight s b).All P ↔ fr.All P ∧ P b := by
  cases fr <;> simp [withRight, Kids.All, All]
  tauto

@[simp] theorem all_withLeft (P : α → Prop) (fr : Frame κ α) (a : α) (s : κ) :
    (fr.withLeft a s).All P ↔ fr.All P ∧ P a := by
  cases fr <;> simp [withLeft, All, or_imp, forall_and]
  tauto

/-- A frame has a right neighbour, or the missing child is the last one. -/
theorem right_cases (fr : Frame κ α) :
    (∃ fr' s b, fr = withRight s b fr') ∨ ∃ left, fr = .outer left := by
  match fr with
  | .inner left s ⟨[], b⟩ => exact .inl ⟨.outer left, s, b, rfl⟩
  | .inner left s ⟨(b, t) :: front, last⟩ =>
      exact .inl ⟨.inner left t ⟨front, last⟩, s, b, rfl⟩
  | .outer left => exact .inr ⟨left, rfl⟩

/-- A frame has a left neighbour, or the missing child is the first one. -/
theorem left_cases (fr : Frame κ α) :
    (∃ fr' a s, fr = withLeft a s fr') ∨ fr.left = [] := by
  rcases List.eq_nil_or_concat fr.left with hnil | ⟨left, ⟨a, s⟩, hleft⟩
  · exact .inr hnil
  · refine .inl ?_
    cases fr with
    | inner l sep right => exact ⟨.inner left sep right, a, s, by simp_all [Frame.left, withLeft]⟩
    | outer l => exact ⟨.outer left, a, s, by simp_all [Frame.left, withLeft]⟩

end Frame

/-! ## Trees -/

structure Leaf (ι κ π : Type) where
  page : ι
  entries : List (κ × π)

structure Branch (ι κ α : Type) where
  page : ι
  kids : Kids κ α

/-- Trees of the given height. -/
def Tree (ι κ π : Type) : Nat → Type
  | 0 => Leaf ι κ π
  | h + 1 => Branch ι κ (Tree ι κ π h)

inductive Token (ι κ π : Type) where
  | sep (key : κ)
  | leaf (leaf : Leaf ι κ π)

namespace Tree

def page : {h : Nat} → Tree ι κ π h → ι
  | 0, t => Leaf.page t
  | _ + 1, t => Branch.page t

def tokens : {h : Nat} → Tree ι κ π h → List (Token ι κ π)
  | 0, t => [.leaf t]
  | _ + 1, t => (Branch.kids t).flat tokens .sep

def inner : {h : Nat} → Tree ι κ π h → Multiset (ι × Kids κ ι)
  | 0, _ => 0
  | _ + 1, t => (Branch.page t, (Branch.kids t).map page) ::ₘ (Branch.kids t).sum inner

/-- No branch is without separators. -/
def Proper : {h : Nat} → Tree ι κ π h → Prop
  | 0, _ => True
  | _ + 1, t => (Branch.kids t).front ≠ [] ∧ (Branch.kids t).All Proper

def ofLeaf (l : Leaf ι κ π) : Tree ι κ π 0 := l

def branch {h : Nat} (page : ι) (kids : Kids κ (Tree ι κ π h)) : Tree ι κ π (h + 1) :=
  (⟨page, kids⟩ : Branch ι κ (Tree ι κ π h))

section Lemmas

variable {h : Nat} (l : Leaf ι κ π) (no : ι) (kids : Kids κ (Tree ι κ π h))

@[simp] theorem page_ofLeaf : (ofLeaf l).page = l.page := rfl
@[simp] theorem tokens_ofLeaf : (ofLeaf l).tokens = [.leaf l] := rfl
@[simp] theorem inner_ofLeaf : (ofLeaf l).inner = 0 := rfl
@[simp] theorem proper_ofLeaf : (ofLeaf l).Proper := trivial
@[simp] theorem page_branch : (branch no kids).page = no := rfl
@[simp] theorem tokens_branch : (branch no kids).tokens = kids.flat tokens .sep := rfl
@[simp] theorem inner_branch :
    (branch no kids).inner = (no, kids.map page) ::ₘ kids.sum inner := rfl
@[simp] theorem proper_branch :
    (branch no kids).Proper ↔ kids.front ≠ [] ∧ kids.All Proper := Iff.rfl

end Lemmas

theorem exists_ofLeaf (t : Tree ι κ π 0) : ∃ l, t = ofLeaf l := ⟨t, rfl⟩

theorem exists_branch {h : Nat} (t : Tree ι κ π (h + 1)) : ∃ no kids, t = branch no kids :=
  ⟨Branch.page t, Branch.kids t, rfl⟩

end Tree

/-- A tree of any height. -/
abbrev Whole (ι κ π : Type) : Type := Σ h, Tree ι κ π h

/-! ## Paths -/

inductive Ctx (ι κ π : Type) : Nat → Type where
  | top {h : Nat} : Ctx ι κ π h
  | under {h : Nat} (page : ι) (frame : Frame κ (Tree ι κ π h)) (up : Ctx ι κ π (h + 1)) :
      Ctx ι κ π h

namespace Ctx

def plug : {h : Nat} → Ctx ι κ π h → Tree ι κ π h → Whole ι κ π
  | h, .top, t => ⟨h, t⟩
  | _, .under no frame up, t => up.plug (.branch no (frame.fill t))

def before : {h : Nat} → Ctx ι κ π h → List (Token ι κ π)
  | _, .top => []
  | _, .under _ frame up => up.before ++ frame.leftFlat Tree.tokens .sep

def after : {h : Nat} → Ctx ι κ π h → List (Token ι κ π)
  | _, .top => []
  | _, .under _ frame up => frame.rightFlat Tree.tokens .sep ++ up.after

/-- The branches above and beside the missing subtree, whose root is on page `hole`. -/
def inner : {h : Nat} → Ctx ι κ π h → ι → Multiset (ι × Kids κ ι)
  | _, .top, _ => 0
  | _, .under no frame up, hole =>
      (no, (frame.map Tree.page).fill hole) ::ₘ (frame.sum Tree.inner + up.inner no)

/-- The pages from the parent of the missing subtree up to the root. -/
def path : {h : Nat} → Ctx ι κ π h → List ι
  | _, .top => []
  | _, .under no _ up => no :: up.path

def Proper : {h : Nat} → Ctx ι κ π h → Prop
  | _, .top => True
  | _, .under _ frame up =>
      (∀ t, (frame.fill t).front ≠ []) ∧ frame.All Tree.Proper ∧ up.Proper

theorem tokens_plug {h : Nat} (ctx : Ctx ι κ π h) (t : Tree ι κ π h) :
    (ctx.plug t).2.tokens = ctx.before ++ t.tokens ++ ctx.after := by
  induction ctx with
  | top => simp [plug, before, after]
  | under no frame up ih => simp [plug, before, after, ih]

theorem inner_plug {h : Nat} (ctx : Ctx ι κ π h) (t : Tree ι κ π h) :
    (ctx.plug t).2.inner = ctx.inner t.page + t.inner := by
  induction ctx with
  | top => simp [plug, inner]
  | under no frame up ih =>
      simp only [plug, ih, Tree.inner_branch, Tree.page_branch, Frame.fill_map, Frame.sum_fill,
        inner, Multiset.cons_add, Multiset.add_cons]
      ac_rfl

theorem page_plug_congr {h : Nat} (ctx : Ctx ι κ π h) {t t' : Tree ι κ π h}
    (hpage : t.page = t'.page) : (ctx.plug t).2.page = (ctx.plug t').2.page := by
  cases ctx with
  | top => exact hpage
  | under no frame up =>
      simp only [plug]
      exact page_plug_congr up rfl

theorem proper_plug {h : Nat} {ctx : Ctx ι κ π h} {t : Tree ι κ π h} (hctx : ctx.Proper)
    (ht : t.Proper) : (ctx.plug t).2.Proper := by
  induction ctx with
  | top => exact ht
  | under no frame up ih =>
      obtain ⟨hfront, hframe, hup⟩ := hctx
      exact ih hup ⟨hfront t, (Frame.all_fill ..).mpr ⟨hframe, ht⟩⟩

theorem proper_of_plug {h : Nat} {ctx : Ctx ι κ π h} {t : Tree ι κ π h}
    (hplug : (ctx.plug t).2.Proper) : ctx.Proper ∧ t.Proper := by
  induction ctx with
  | top => exact ⟨trivial, hplug⟩
  | under no frame up ih =>
      obtain ⟨hup, hbranch⟩ := ih hplug
      obtain ⟨hfront, hall⟩ := (Tree.proper_branch ..).mp hbranch
      obtain ⟨hframe, ht⟩ := (Frame.all_fill ..).mp hall
      refine ⟨⟨fun t' => ?_, hframe, hup⟩, ht⟩
      cases frame with
      | inner left sep right => simp [Frame.fill]
      | outer left => exact hfront

end Ctx

/-! ## Leaves in order -/

def leaves (ts : List (Token ι κ π)) : List (Leaf ι κ π) :=
  ts.filterMap fun
    | .sep _ => none
    | .leaf l => some l

@[simp] theorem leaves_nil : leaves ([] : List (Token ι κ π)) = [] := rfl

@[simp] theorem leaves_append (ts us : List (Token ι κ π)) :
    leaves (ts ++ us) = leaves ts ++ leaves us :=
  List.filterMap_append ..

@[simp] theorem leaves_cons_sep (s : κ) (ts : List (Token ι κ π)) :
    leaves (.sep s :: ts) = leaves ts := rfl

@[simp] theorem leaves_cons_leaf (l : Leaf ι κ π) (ts : List (Token ι κ π)) :
    leaves (.leaf l :: ts) = l :: leaves ts := rfl

/-- The page of the first leaf, or `stop`. -/
def firstPage (ls : List (Leaf ι κ π)) (stop : ι) : ι :=
  match ls with
  | [] => stop
  | l :: _ => l.page

/-- The leaves as they are stored, each with the page of the next one. -/
def chain : List (Leaf ι κ π) → ι → List (ι × List (κ × π) × ι)
  | [], _ => []
  | l :: ls, stop => (l.page, l.entries, firstPage ls stop) :: chain ls stop

@[simp] theorem firstPage_nil (stop : ι) : firstPage ([] : List (Leaf ι κ π)) stop = stop := rfl

@[simp] theorem firstPage_cons (l : Leaf ι κ π) (ls : List (Leaf ι κ π)) (stop : ι) :
    firstPage (l :: ls) stop = l.page := rfl

@[simp] theorem firstPage_append (ls ms : List (Leaf ι κ π)) (stop : ι) :
    firstPage (ls ++ ms) stop = firstPage ls (firstPage ms stop) := by
  cases ls <;> rfl

@[simp] theorem chain_nil (stop : ι) : chain ([] : List (Leaf ι κ π)) stop = [] := rfl

@[simp] theorem chain_cons (l : Leaf ι κ π) (ls : List (Leaf ι κ π)) (stop : ι) :
    chain (l :: ls) stop = (l.page, l.entries, firstPage ls stop) :: chain ls stop := rfl

@[simp] theorem chain_append (ls ms : List (Leaf ι κ π)) (stop : ι) :
    chain (ls ++ ms) stop = chain ls (firstPage ms stop) ++ chain ms stop := by
  induction ls with
  | nil => rfl
  | cons l ls ih => simp [ih]

def entries (ts : List (Token ι κ π)) : List (κ × π) := (leaves ts).flatMap Leaf.entries

@[simp] theorem entries_nil : entries ([] : List (Token ι κ π)) = [] := rfl

@[simp] theorem entries_append (ts us : List (Token ι κ π)) :
    entries (ts ++ us) = entries ts ++ entries us := by
  simp [entries]

@[simp] theorem entries_cons_sep (s : κ) (ts : List (Token ι κ π)) :
    entries (.sep s :: ts) = entries ts := rfl

@[simp] theorem entries_cons_leaf (l : Leaf ι κ π) (ts : List (Token ι κ π)) :
    entries (.leaf l :: ts) = l.entries ++ entries ts := rfl

/-! ## Order -/

/-- A separator ranks just below an entry of the same key. -/
abbrev Mark (κ : Type) : Type := κ ×ₗ Bool

def Mark.sep (s : κ) : Mark κ := toLex (s, false)

def Mark.entry (k : κ) : Mark κ := toLex (k, true)

def Token.marks : Token ι κ π → List (Mark κ)
  | .sep s => [.sep s]
  | .leaf l => l.entries.map fun e => .entry e.1

def marks (ts : List (Token ι κ π)) : List (Mark κ) := ts.flatMap Token.marks

@[simp] theorem marks_nil : marks ([] : List (Token ι κ π)) = [] := rfl

@[simp] theorem marks_append (ts us : List (Token ι κ π)) :
    marks (ts ++ us) = marks ts ++ marks us :=
  List.flatMap_append

@[simp] theorem marks_cons_sep (s : κ) (ts : List (Token ι κ π)) :
    marks (.sep s :: ts) = .sep s :: marks ts := rfl

@[simp] theorem marks_cons_leaf (l : Leaf ι κ π) (ts : List (Token ι κ π)) :
    marks (.leaf l :: ts) = (l.entries.map fun e => .entry e.1) ++ marks ts := rfl

theorem entries_map_marks (ts : List (Token ι κ π)) :
    ((entries ts).map fun e => Mark.entry e.1).Sublist (marks ts) := by
  induction ts with
  | nil => simp
  | cons t ts ih =>
      cases t with
      | sep s => simpa using ih.cons _
      | leaf l => simpa using ih

section Order

variable [LinearOrder κ]

@[simp] theorem Mark.entry_lt_entry {a b : κ} : Mark.entry a < Mark.entry b ↔ a < b := by
  simp [entry, Prod.Lex.toLex_lt_toLex]

@[simp] theorem Mark.sep_lt_sep {a b : κ} : Mark.sep a < Mark.sep b ↔ a < b := by
  simp [sep, Prod.Lex.toLex_lt_toLex]

@[simp] theorem Mark.entry_lt_sep {a b : κ} : Mark.entry a < Mark.sep b ↔ a < b := by
  simp [entry, sep, Prod.Lex.toLex_lt_toLex]

@[simp] theorem Mark.sep_lt_entry {a b : κ} : Mark.sep a < Mark.entry b ↔ a ≤ b := by
  simp [entry, sep, Prod.Lex.toLex_lt_toLex, le_iff_lt_or_eq]

/-- Keys are in strict order, and every key is between the separators around it. -/
def Sorted (ts : List (Token ι κ π)) : Prop := (marks ts).Pairwise (· < ·)

theorem Sorted.sublist {ts us : List (Token ι κ π)} (h : Sorted us)
    (hsub : (marks ts).Sublist (marks us)) : Sorted ts :=
  List.Pairwise.sublist hsub h

theorem Sorted.of_within {ts us : List (Token ι κ π)} (h : Sorted us) (hwithin : ts <:+: us) :
    Sorted ts := by
  obtain ⟨before, after, rfl⟩ := hwithin
  refine h.sublist ?_
  rw [marks_append, marks_append]
  exact (List.sublist_append_right _ _).trans (List.sublist_append_left _ _)

theorem Sorted.entries {ts : List (Token ι κ π)} (h : Sorted ts) :
    (SearchTree.entries ts).Pairwise fun e e' => e.1 < e'.1 := by
  have hsub := List.Pairwise.sublist (entries_map_marks ts) h
  simpa [List.pairwise_map] using hsub

/-- The key `k` belongs between what comes before and what comes after. -/
structure Routes (k : κ) (before after : List (Token ι κ π)) : Prop where
  before_lt : ∀ m ∈ marks before, m < .entry k
  lt_after : ∀ m ∈ marks after, .entry k < m

theorem Routes.nil (k : κ) : Routes k ([] : List (Token ι κ π)) [] := ⟨by simp, by simp⟩

/-- The first separator above `k`, with the child left of it. -/
def Kids.separatorAbove (k : κ) (kids : Kids κ α) : Option (α × κ) :=
  kids.front.find? fun x => k < x.2

/-- The child between the separators around `k`. -/
def Kids.childFor (k : κ) (kids : Kids κ α) : α :=
  match kids.separatorAbove k with
  | some x => x.1
  | none => kids.last

/-- A frame whose separators leave `k` to the missing child. -/
structure Frame.Admits (k : κ) (fr : Frame κ α) : Prop where
  left_le : ∀ x ∈ fr.left, x.2 ≤ k
  lt_right : ∀ left s right, fr = .inner left s right → k < s

theorem Kids.exists_frame (k : κ) (kids : Kids κ α) :
    ∃ fr : Frame κ α, kids = fr.fill (kids.childFor k) ∧ fr.Admits k := by
  unfold Kids.childFor
  cases hfind : kids.separatorAbove k with
  | none =>
      refine ⟨.outer kids.front, rfl, fun x hx => ?_, fun _ _ _ h => by simp at h⟩
      simpa using List.find?_eq_none.mp hfind x hx
  | some x =>
      obtain ⟨hlt, left, right, hfront, hleft⟩ := List.find?_eq_some_iff_append.mp hfind
      refine ⟨.inner left x.2 ⟨right, kids.last⟩, ?_, fun y hy => ?_, ?_⟩
      · simp only [Frame.fill, ← hfront]
      · simpa using hleft y hy
      · rintro _ _ _ ⟨⟩
        simpa using hlt

private theorem marks_frontFlat_lt {f : α → List (Token ι κ π)} {k : κ} {left : List (α × κ)}
    (hsorted : Sorted (Kids.frontFlat f .sep left)) (hle : ∀ x ∈ left, x.2 ≤ k) :
    ∀ m ∈ marks (Kids.frontFlat f .sep left), m < .entry k := by
  induction left with
  | nil => simp
  | cons x left ih =>
      have hx : Mark.sep x.2 < Mark.entry k := Mark.sep_lt_entry.mpr (hle x (by simp))
      simp only [Sorted, Kids.frontFlat_cons, marks_append, marks_cons_sep,
        List.pairwise_append, List.pairwise_cons] at hsorted
      obtain ⟨-, ⟨-, hrest⟩, hcross⟩ := hsorted
      intro m hm
      simp only [Kids.frontFlat_cons, marks_append, marks_cons_sep, List.mem_append,
        List.mem_cons] at hm
      rcases hm with hm | rfl | hm
      · exact (hcross m hm _ (by simp)).trans hx
      · exact hx
      · exact ih hrest (fun y hy => hle y (by simp [hy])) m hm

/-- Going down to the child that the separators admit. -/
theorem Routes.under {h : Nat} {k : κ} {fr : Frame κ (Tree ι κ π h)} {t : Tree ι κ π h}
    {before after : List (Token ι κ π)} (hroutes : Routes k before after) (hadmits : fr.Admits k)
    (hsorted : Sorted (before ++ (fr.fill t).flat Tree.tokens .sep ++ after)) :
    Routes k (before ++ fr.leftFlat Tree.tokens .sep)
      (fr.rightFlat Tree.tokens .sep ++ after) := by
  rw [Frame.flat_fill] at hsorted
  constructor
  · intro m hm
    rw [marks_append, List.mem_append] at hm
    cases hm with
    | inl hm => exact hroutes.before_lt m hm
    | inr hm =>
        refine marks_frontFlat_lt (hsorted.sublist ?_) hadmits.left_le m hm
        simp only [marks_append, List.append_assoc]
        exact (List.sublist_append_left _ _).trans (List.sublist_append_right _ _)
  · intro m hm
    rw [marks_append, List.mem_append] at hm
    cases hm with
    | inr hm => exact hroutes.lt_after m hm
    | inl hm =>
        cases fr with
        | outer left => simp [Frame.rightFlat] at hm
        | inner left s right =>
            have hs : Mark.entry k < Mark.sep s :=
              Mark.entry_lt_sep.mpr (hadmits.lt_right left s right rfl)
            have hright : Sorted ((Frame.inner left s right).rightFlat Tree.tokens .sep) := by
              refine hsorted.sublist ?_
              simp only [marks_append, List.append_assoc]
              exact (List.sublist_append_left _ _).trans
                ((List.sublist_append_right _ _).trans ((List.sublist_append_right _ _).trans
                  (List.sublist_append_right _ _)))
            simp only [Sorted, Frame.rightFlat, marks_cons_sep, List.pairwise_cons] at hright
            simp only [Frame.rightFlat, marks_cons_sep, List.mem_cons] at hm
            cases hm with
            | inl hm => exact hm ▸ hs
            | inr hm => exact hs.trans (hright.1 m hm)

/-- One more mark between those below it and those above it. -/
theorem pairwise_insert {m : Mark κ} {below above : List (Mark κ)}
    (h : (below ++ above).Pairwise (· < ·)) (hbelow : ∀ x ∈ below, x < m)
    (habove : ∀ x ∈ above, m < x) : (below ++ m :: above).Pairwise (· < ·) := by
  rw [List.pairwise_append] at h
  rw [List.pairwise_append, List.pairwise_cons]
  refine ⟨h.1, ⟨habove, h.2.1⟩, fun x hx y hy => ?_⟩
  cases List.mem_cons.mp hy with
  | inl heq => exact heq ▸ hbelow x hx
  | inr hy => exact h.2.2 x hx y hy

/-- The key of an entry, put as a separator between that entry and the one before it. -/
theorem pairwise_separate {below above : List (Mark κ)} {a s : κ}
    (h : (below ++ Mark.entry a :: Mark.entry s :: above).Pairwise (· < ·)) :
    (below ++ Mark.entry a :: Mark.sep s :: Mark.entry s :: above).Pairwise (· < ·) := by
  have hsplit : below ++ Mark.entry a :: Mark.entry s :: above =
      (below ++ [Mark.entry a]) ++ Mark.entry s :: above := by simp
  rw [hsplit] at h
  have hinsert : ((below ++ [Mark.entry a]) ++ Mark.sep s :: Mark.entry s :: above).Pairwise (· < ·) := by
    have has : Mark.entry a < Mark.sep s :=
      Mark.entry_lt_sep.mpr (Mark.entry_lt_entry.mp
        ((List.pairwise_append.mp h).2.2 _ (by simp) _ (by simp)))
    refine pairwise_insert h (fun x hx => ?_) (fun x hx => ?_)
    · cases List.mem_append.mp hx with
      | inl hx =>
          exact ((List.pairwise_append.mp (List.pairwise_append.mp h).1).2.2 x hx _
            (by simp)).trans has
      | inr hx => exact List.mem_singleton.mp hx ▸ has
    · have hs : Mark.sep s < Mark.entry s := Mark.sep_lt_entry.mpr le_rfl
      cases List.mem_cons.mp hx with
      | inl heq => exact heq ▸ hs
      | inr hx =>
          exact hs.trans ((List.pairwise_cons.mp (List.pairwise_append.mp h).2.1).1 x hx)
  simpa using hinsert

end Order

end ChocoBase.Foundation.SearchTree
