import ChocoBase.Foundation.Text

/-!
# File paths

A path by its components, as a file system resolves it: empty components and single dots
are none.  A path below another has more components, none of which leads up again.
-/

namespace ChocoBase.Foundation

open Text (Chars)

@[ext]
structure FilePath where
  absolute : Bool
  parts : List Chars
  deriving DecidableEq

namespace FilePath

/-- A component that names something. -/
abbrev Names (part : Chars) : Prop := part ≠ [] ∧ part ≠ ['.']

def ofText (s : Chars) : FilePath :=
  ⟨s.head? = some '/', (Text.splitOn '/' s).filter fun part => Names part⟩

/-- An absolute text takes the place of the path. -/
def join (path : FilePath) (s : Chars) : FilePath :=
  if (ofText s).absolute then ofText s else ⟨path.absolute, path.parts ++ (ofText s).parts⟩

/-- The path without its last component. -/
def parent (path : FilePath) : Option FilePath :=
  if path.parts = [] then none else some { path with parts := path.parts.dropLast }

/-- Strictly below `root`. -/
def Under (path root : FilePath) : Prop :=
  ∃ rest : List Chars, rest ≠ [] ∧ ['.', '.'] ∉ rest ∧ path = ⟨root.absolute, root.parts ++ rest⟩

/-- A text that stays below whatever it is joined to. -/
def Stays (s : Chars) : Prop := (ofText s).absolute = false ∧ ['.', '.'] ∉ (ofText s).parts

variable {path root : FilePath} {s t : Chars}

theorem join_of_stays (h : Stays s) (path : FilePath) :
    path.join s = ⟨path.absolute, path.parts ++ (ofText s).parts⟩ := by
  rw [join, h.1, if_neg Bool.false_ne_true]

theorem under_iff {rest : List Chars} (h : ['.', '.'] ∉ rest) :
    (⟨root.absolute, root.parts ++ rest⟩ : FilePath).Under root ↔ rest ≠ [] := by
  constructor
  · rintro ⟨rest', hne, -, heq⟩
    rwa [List.append_cancel_left (FilePath.mk.inj heq).2]
  · exact fun hne => ⟨rest, hne, h, rfl⟩

theorem join_under_iff (h : Stays s) : (root.join s).Under root ↔ (ofText s).parts ≠ [] := by
  rw [join_of_stays h, under_iff h.2]

theorem join_join_under_iff (hs : Stays s) (ht : Stays t) :
    ((root.join s).join t).Under root ↔ (ofText s).parts ++ (ofText t).parts ≠ [] := by
  have hrest : ['.', '.'] ∉ (ofText s).parts ++ (ofText t).parts := fun hmem =>
    (List.mem_append.mp hmem).elim hs.2 ht.2
  have hpath : (root.join s).join t =
      ⟨root.absolute, root.parts ++ ((ofText s).parts ++ (ofText t).parts)⟩ := by
    rw [join_of_stays ht, join_of_stays hs, List.append_assoc]
  rw [hpath, under_iff hrest]

/-- The parent of a path two components below. -/
theorem parent_under_iff {rest : List Chars} (h : ['.', '.'] ∉ rest) (hne : rest ≠ []) :
    (∀ up ∈ (⟨root.absolute, root.parts ++ rest⟩ : FilePath).parent, up.Under root) ↔
      2 ≤ rest.length := by
  have hparts : root.parts ++ rest ≠ [] := fun heq => hne (List.append_eq_nil_iff.mp heq).2
  have hrest : ['.', '.'] ∉ rest.dropLast := fun hmem => h (List.dropLast_subset _ hmem)
  rw [parent, if_neg hparts]
  simp only [Option.mem_some_iff, forall_eq', List.dropLast_append_of_ne_nil hne]
  rw [under_iff hrest, ← List.length_pos_iff_ne_nil, List.length_dropLast]
  omega

/-- Joining what names something with slashes. -/
theorem ofText_join {parts : List Chars} (h : ∀ part ∈ parts, '/' ∉ part ∧ Names part) :
    ofText (Text.join ['/'] parts) = ⟨false, parts⟩ := by
  cases parts with
  | nil => rfl
  | cons first parts =>
      have hne : first :: parts ≠ [] := List.cons_ne_nil _ _
      have hslash : ∀ part ∈ first :: parts, '/' ∉ part := fun part hpart => (h part hpart).1
      have hkept : (first :: parts).filter (fun part => Names part) = first :: parts :=
        List.filter_eq_self.mpr fun part hpart => decide_eq_true (h part hpart).2
      obtain ⟨hfirst, hnames⟩ := h first List.mem_cons_self
      obtain ⟨c, cs, rfl⟩ := List.exists_cons_of_ne_nil hnames.1
      obtain ⟨rest, hjoin⟩ := (Text.ends_join ['/'] hne).1 (c :: cs) rfl
      have hhead : (Text.join ['/'] ((c :: cs) :: parts)).head? = some c := by
        rw [← hjoin]
        rfl
      have hc : c ≠ '/' := fun heq => hfirst (heq ▸ List.mem_cons_self)
      rw [ofText, Text.splitOn_join hne hslash, hkept, hhead]
      simp [hc]

end FilePath

end ChocoBase.Foundation
