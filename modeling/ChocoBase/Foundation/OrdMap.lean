import Mathlib.Data.List.Sort
import Mathlib.Order.Defs.LinearOrder

/-!
# Ordered maps

Finite maps with ordered keys, kept as the list of their entries in strictly
ascending order of the keys.  Two maps with the same entries are equal.
-/

namespace ChocoBase.Foundation

@[ext]
structure OrdMap (κ π : Type) [LinearOrder κ] where
  entries : List (κ × π)
  sorted : entries.Pairwise fun e e' => e.1 < e'.1

namespace OrdMap

variable {κ π : Type} [LinearOrder κ]

def empty : OrdMap κ π := ⟨[], List.Pairwise.nil⟩

instance : Membership (κ × π) (OrdMap κ π) := ⟨fun m e => e ∈ m.entries⟩

theorem mem_def {m : OrdMap κ π} {e : κ × π} : e ∈ m ↔ e ∈ m.entries := Iff.rfl

@[simp] theorem not_mem_empty (e : κ × π) : e ∉ (empty : OrdMap κ π) := List.not_mem_nil

private theorem eq_of_sorted {es : List (κ × π)} (h : es.Pairwise fun e e' => e.1 < e'.1)
    {e e' : κ × π} (he : e ∈ es) (he' : e' ∈ es) (hkey : e.1 = e'.1) : e = e' := by
  induction es with
  | nil => simp at he
  | cons x es ih =>
      obtain ⟨hx, hes⟩ := List.pairwise_cons.mp h
      rcases List.mem_cons.mp he with rfl | hmem <;>
        rcases List.mem_cons.mp he' with rfl | hmem'
      · rfl
      · exact absurd hkey (hx e' hmem').ne
      · exact absurd hkey.symm (hx e hmem).ne
      · exact ih hes hmem hmem'

/-- A key has one entry. -/
theorem eq_of_mem {m : OrdMap κ π} {k : κ} {v v' : π} (h : (k, v) ∈ m) (h' : (k, v') ∈ m) :
    v = v' :=
  (Prod.mk.inj (eq_of_sorted m.sorted h h' rfl)).2

theorem ext_mem {m m' : OrdMap κ π} (h : ∀ e, e ∈ m ↔ e ∈ m') : m = m' := by
  have hnodup (m : OrdMap κ π) : m.entries.Nodup :=
    m.sorted.imp fun hlt heq => hlt.ne (congrArg Prod.fst heq)
  have hperm : m.entries.Perm m'.entries :=
    (List.perm_ext_iff_of_nodup (hnodup m) (hnodup m')).mpr h
  ext1
  refine hperm.eq_of_pairwise (fun a b _ _ hab hba => ?_) m.sorted m'.sorted
  exact absurd (hab.trans hba) (lt_irrefl _)

def get (m : OrdMap κ π) (k : κ) : Option π :=
  (m.entries.find? fun e => e.1 = k).map Prod.snd

theorem get_eq_some {m : OrdMap κ π} {k : κ} {v : π} : m.get k = some v ↔ (k, v) ∈ m := by
  constructor
  · intro h
    obtain ⟨e, hfind, rfl⟩ := Option.map_eq_some_iff.mp h
    obtain rfl : e.1 = k := by simpa using List.find?_some hfind
    exact List.mem_of_find?_eq_some hfind
  · intro h
    cases hget : m.get k with
    | none =>
        have hnone := List.find?_eq_none.mp (Option.map_eq_none_iff.mp hget) _ h
        simp at hnone
    | some v' =>
        obtain ⟨e, hfind, rfl⟩ := Option.map_eq_some_iff.mp hget
        obtain rfl : e.1 = k := by simpa using List.find?_some hfind
        exact congrArg some (eq_of_mem (List.mem_of_find?_eq_some hfind) h)

theorem get_eq_none {m : OrdMap κ π} {k : κ} : m.get k = none ↔ ∀ v, (k, v) ∉ m := by
  constructor
  · exact fun h v hmem => by simp [get_eq_some.mpr hmem] at h
  · intro h
    cases hget : m.get k with
    | none => rfl
    | some v => exact absurd (get_eq_some.mp hget) (h v)

/-! ## Cutting a sorted list at a key -/

section Cut

variable {es : List (κ × π)} {k : κ}

/-- The entries before the first one that is not below `k` are those below `k`. -/
theorem takeWhile_lt (h : es.Pairwise fun e e' => e.1 < e'.1) {p : κ × π → Bool}
    (hp : ∀ e, p e = true ↔ e.1 < k) : es.takeWhile p = es.filter fun e => e.1 < k := by
  induction es with
  | nil => rfl
  | cons e es ih =>
      obtain ⟨he, hes⟩ := List.pairwise_cons.mp h
      by_cases hlt : e.1 < k
      · simp [(hp e).mpr hlt, hlt, ih hes]
      · have hrest : es.filter (fun e => e.1 < k) = [] := by
          refine List.filter_eq_nil_iff.mpr fun x hx => ?_
          simpa using (not_lt.mp hlt).trans (he x hx).le
        simp [mt (hp e).mp hlt, hlt, hrest]

theorem dropWhile_lt (h : es.Pairwise fun e e' => e.1 < e'.1) {p : κ × π → Bool}
    (hp : ∀ e, p e = true ↔ e.1 < k) : es.dropWhile p = es.filter fun e => k ≤ e.1 := by
  induction es with
  | nil => rfl
  | cons e es ih =>
      obtain ⟨he, hes⟩ := List.pairwise_cons.mp h
      by_cases hlt : e.1 < k
      · simp [(hp e).mpr hlt, hlt, ih hes]
      · have hrest : es.filter (fun e => k ≤ e.1) = es := by
          refine List.filter_eq_self.mpr fun x hx => ?_
          simpa using (not_lt.mp hlt).trans (he x hx).le
        simp [mt (hp e).mp hlt, not_lt.mp hlt, hrest]

theorem drop_takeWhile_lt (h : es.Pairwise fun e e' => e.1 < e'.1) {p : κ × π → Bool}
    (hp : ∀ e, p e = true ↔ e.1 < k) :
    es.drop (es.takeWhile p).length = es.filter fun e => k ≤ e.1 := by
  rw [← dropWhile_lt h hp]
  conv_lhs => arg 2; rw [← List.takeWhile_append_dropWhile (p := p) (l := es)]
  exact List.drop_left

/-- Between entries below `k` and entries above it. -/
theorem filter_ge_append {before after : List (κ × π)} (hbefore : ∀ e ∈ before, e.1 < k)
    (hafter : ∀ e ∈ after, k < e.1) :
    (before ++ es ++ after).filter (fun e => k ≤ e.1) =
      es.filter (fun e => k ≤ e.1) ++ after := by
  have hbefore : before.filter (fun e => k ≤ e.1) = [] :=
    List.filter_eq_nil_iff.mpr fun e he => by simpa using hbefore e he
  have hafter : after.filter (fun e => k ≤ e.1) = after :=
    List.filter_eq_self.mpr fun e he => by simpa using (hafter e he).le
  simp only [List.filter_append, hbefore, hafter, List.nil_append]

end Cut

def erase (m : OrdMap κ π) (k : κ) : OrdMap κ π where
  entries := m.entries.filter fun e => e.1 ≠ k
  sorted := m.sorted.filter _

@[simp] theorem mem_erase {m : OrdMap κ π} {k : κ} {e : κ × π} :
    e ∈ m.erase k ↔ e ∈ m ∧ e.1 ≠ k := by
  simp [mem_def, erase]

theorem erase_eq_self {m : OrdMap κ π} {k : κ} (h : m.get k = none) : m.erase k = m :=
  ext_mem fun e => by
    rw [mem_erase, and_iff_left_of_imp]
    rintro hmem rfl
    exact get_eq_none.mp h e.2 hmem

/-- The entries from `k` on. -/
def «from» (m : OrdMap κ π) (k : κ) : List (κ × π) := m.entries.filter fun e => k ≤ e.1

/-- Bind `v` to `k`, replacing what was bound to it. -/
def insert (m : OrdMap κ π) (k : κ) (v : π) : OrdMap κ π where
  entries := (m.entries.filter fun e => e.1 < k) ++ (k, v) :: m.entries.filter fun e => k < e.1
  sorted := by
    rw [List.pairwise_append, List.pairwise_cons]
    refine ⟨m.sorted.filter _, ⟨fun e he => ?_, m.sorted.filter _⟩, fun e he e' he' => ?_⟩
    · simpa using (List.mem_filter.mp he).2
    · have hlt : e.1 < k := by simpa using (List.mem_filter.mp he).2
      cases List.mem_cons.mp he' with
      | inl heq => exact heq ▸ hlt
      | inr he' => exact hlt.trans (by simpa using (List.mem_filter.mp he').2)

@[simp] theorem mem_insert {m : OrdMap κ π} {k : κ} {v : π} {e : κ × π} :
    e ∈ m.insert k v ↔ e = (k, v) ∨ e ∈ m ∧ e.1 ≠ k := by
  simp only [mem_def, insert, List.mem_append, List.mem_cons, List.mem_filter, decide_eq_true_eq]
  rw [ne_iff_lt_or_gt]
  tauto

/-! ## Looking up after a change -/

theorem ext_get {m m' : OrdMap κ π} (h : ∀ k, m.get k = m'.get k) : m = m' := by
  refine ext_mem fun e => ?_
  rw [← get_eq_some, ← get_eq_some, h]

@[simp] theorem get_empty (k : κ) : (empty : OrdMap κ π).get k = none := rfl

theorem get_insert (m : OrdMap κ π) (k : κ) (v : π) (k' : κ) :
    (m.insert k v).get k' = if k' = k then some v else m.get k' := by
  split
  · next h => exact get_eq_some.mpr (mem_insert.mpr (.inl (by rw [h])))
  · next h =>
      ext v'
      rw [get_eq_some, get_eq_some, mem_insert]
      exact ⟨fun hmem => (hmem.resolve_left fun heq => h (congrArg Prod.fst heq)).1,
        fun hmem => .inr ⟨hmem, h⟩⟩

theorem get_erase (m : OrdMap κ π) (k k' : κ) :
    (m.erase k).get k' = if k' = k then none else m.get k' := by
  split
  · next h =>
      refine get_eq_none.mpr fun v hmem => ?_
      exact (mem_erase.mp hmem).2 h
  · next h =>
      ext v'
      rw [get_eq_some, get_eq_some, mem_erase]
      exact ⟨fun hmem => hmem.1, fun hmem => ⟨hmem, h⟩⟩

theorem insert_erase (m : OrdMap κ π) (k : κ) (v : π) : (m.erase k).insert k v = m.insert k v := by
  refine ext_get fun k' => ?_
  rw [get_insert, get_insert, get_erase]
  split <;> rfl

end OrdMap

end ChocoBase.Foundation
