import Mathlib.Data.List.Basic
import Mathlib.Data.List.DropRight
import Mathlib.Data.List.Induction
import Mathlib.Data.List.TakeWhile

/-!
# Texts as lists of characters

The string functions that a program composes its texts with.
-/

namespace ChocoBase.Foundation.Text

abbrev Chars : Type := List Char

def trimStart (p : Char → Bool) (s : Chars) : Chars := s.dropWhile p

def trimEnd (p : Char → Bool) (s : Chars) : Chars := (s.reverse.dropWhile p).reverse

/-- `trim_matches` -/
def trim (p : Char → Bool) (s : Chars) : Chars := trimEnd p (trimStart p s)

theorem trimStart_cons (p : Char → Bool) (c : Char) (s : Chars) :
    trimStart p (c :: s) = if p c then trimStart p s else c :: s :=
  List.dropWhile_cons ..

theorem trimEnd_concat (p : Char → Bool) (c : Char) (s : Chars) :
    trimEnd p (s ++ [c]) = if p c then trimEnd p s else s ++ [c] := by
  rw [trimEnd, List.reverse_append, List.reverse_singleton, List.singleton_append,
    List.dropWhile_cons]
  split
  · rfl
  · simp

theorem trimEnd_eq_nil_iff {p : Char → Bool} {s : Chars} : trimEnd p s = [] ↔ ∀ c ∈ s, p c := by
  simp [trimEnd, List.dropWhile_eq_nil_iff]

theorem trim_eq_nil_iff {p : Char → Bool} {s : Chars} : trim p s = [] ↔ ∀ c ∈ s, p c := by
  induction s with
  | nil => simp [trim, trimStart, trimEnd]
  | cons c s ih =>
      rw [trim, trimStart_cons]
      by_cases hc : p c
      · rw [if_pos hc, ← trim, ih]
        simp [hc]
      · rw [if_neg hc, trimEnd_eq_nil_iff]

theorem trim_concat {p : Char → Bool} {c : Char} (hc : p c) (s : Chars) :
    trim p (s ++ [c]) = trim p s := by
  induction s with
  | nil => rw [List.nil_append, trim_eq_nil_iff.mpr (by simpa using hc)]; rfl
  | cons d s ih =>
      rw [List.cons_append, trim, trim, trimStart_cons, trimStart_cons]
      split
      · exact ih
      · rw [← List.cons_append, trimEnd_concat, if_pos hc]

theorem trim_append {p : Char → Bool} {front back : Chars} (hfront : ∀ c ∈ front, p c)
    (hback : ∀ c ∈ back, p c) (s : Chars) : trim p (front ++ (s ++ back)) = trim p s := by
  induction front with
  | nil =>
      induction back using List.reverseRecOn with
      | nil => rw [List.append_nil, List.nil_append]
      | append_singleton back c ih =>
          rw [List.nil_append, ← List.append_assoc, trim_concat (hback c (by simp))]
          exact ih fun d hd => hback d (by simp [hd])
  | cons c front ih =>
      rw [List.cons_append, trim, trimStart_cons, if_pos (hfront c List.mem_cons_self)]
      exact ih fun d hd => hfront d (List.mem_cons_of_mem _ hd)

/-- Nothing to trim at either end. -/
def Tight (p : Char → Bool) (s : Chars) : Prop :=
  (∀ c ∈ s.head?, p c = false) ∧ ∀ c ∈ s.getLast?, p c = false

theorem forall_mem_of_all {q : Char → Prop} [DecidablePred q] {s : Chars}
    (h : s.all (fun c => decide (q c)) = true) : ∀ c ∈ s, q c :=
  fun c hc => of_decide_eq_true (List.all_eq_true.mp h c hc)

theorem tight_of_ends {p : Char → Bool} {s : Chars} (hfirst : s.head?.all (fun c => !p c) = true)
    (hlast : s.getLast?.all (fun c => !p c) = true) : Tight p s := by
  constructor
  · intro c hc
    rw [Option.mem_def.mp hc] at hfirst
    simpa using hfirst
  · intro c hc
    rw [Option.mem_def.mp hc] at hlast
    simpa using hlast

theorem trim_infix (p : Char → Bool) (s : Chars) : trim p s <:+: s :=
  (List.rdropWhile_prefix p (l := trimStart p s)).isInfix.trans
    (List.dropWhile_suffix p (l := s)).isInfix

theorem tight_trim (p : Char → Bool) (s : Chars) : Tight p (trim p s) := by
  constructor
  · intro c hc
    obtain ⟨back, hback⟩ := List.rdropWhile_prefix p (l := trimStart p s)
    have hhead : (s.dropWhile p).head? = some c := by
      have hfront : (trim p s).head? = some c := hc
      obtain ⟨cs, hcs⟩ := List.head?_eq_some_iff.mp hfront
      change trim p s ++ back = s.dropWhile p at hback
      rw [← hback, hcs]
      rfl
    have hnot := List.head?_dropWhile_not p s
    rw [hhead] at hnot
    simpa using hnot
  · intro c hc
    have hne : trim p s ≠ [] := by
      intro h
      rw [h] at hc
      cases hc
    have hlast := List.rdropWhile_last_not p (trimStart p s) hne
    rw [List.getLast?_eq_some_getLast hne] at hc
    obtain rfl := Option.some.inj hc
    exact Bool.eq_false_iff.mpr hlast

theorem trim_eq_self_iff {p : Char → Bool} {s : Chars} : trim p s = s ↔ Tight p s := by
  refine ⟨fun h => h ▸ tight_trim p s, fun ⟨hhead, hlast⟩ => ?_⟩
  have hstart : trimStart p s = s := by
    cases s with
    | nil => rfl
    | cons c s => exact List.dropWhile_cons_of_neg (by simpa using hhead c rfl)
  rw [trim, hstart]
  refine List.rdropWhile_eq_self_iff.mpr fun hne => ?_
  simpa using hlast _ (List.getLast?_eq_some_getLast hne)

/-- What stands before the first occurrence. -/
def before (needle : Chars) : Chars → Option Chars
  | [] => if needle = [] then some [] else none
  | c :: s => if needle.isPrefixOf (c :: s) then some [] else (before needle s).map (c :: ·)

def contains (needle s : Chars) : Bool := (before needle s).isSome

/-- The loop of `replaceAll`; `skip` characters belong to the last occurrence. -/
def replaceFrom (needle value : Chars) : Nat → Chars → Chars
  | _, [] => []
  | 0, c :: s =>
      if needle.isPrefixOf (c :: s) then value ++ replaceFrom needle value (needle.length - 1) s
      else c :: replaceFrom needle value 0 s
  | skip + 1, _ :: s => replaceFrom needle value skip s

/-- `str::replace`, for a needle that is not empty -/
def replaceAll (needle value s : Chars) : Chars := replaceFrom needle value 0 s

/-- `str::split` at a character -/
def splitOn (sep : Char) : Chars → List Chars
  | [] => [[]]
  | c :: s =>
      if c = sep then [] :: splitOn sep s
      else match splitOn sep s with
        | [] => [[c]]
        | first :: rest => (c :: first) :: rest

/-- `str::lines`: a last empty line is none, and a line may end with `\r\n`. -/
def lines (s : Chars) : List Chars :=
  let parts := splitOn '\n' s
  let parts := if parts.getLast? = some [] then parts.dropLast else parts
  parts.map fun line => if line.getLast? = some '\r' then line.dropLast else line

/-- The text up to a byte, if a character starts there, and the rest. -/
def splitAtByte : Nat → Chars → Option (Chars × Chars)
  | 0, s => some ([], s)
  | _ + 1, [] => none
  | n + 1, c :: s =>
      if c.utf8Size ≤ n + 1 then
        (splitAtByte (n + 1 - c.utf8Size) s).map fun (first, rest) => (c :: first, rest)
      else none
termination_by _ s => s

/-- `&s[from..to]` panics where no character starts. -/
def byteSlice (start stop : Nat) (s : Chars) : Option Chars := do
  if stop < start then none
  else
    let (_, rest) ← splitAtByte start s
    let (middle, _) ← splitAtByte (stop - start) rest
    return middle

def join (sep : Chars) (parts : List Chars) : Chars := sep.intercalate parts

/-- A property of the characters of a text, checked on each of them. -/
theorem forall_of_all {p : Char → Prop} [DecidablePred p] {s : Chars}
    (h : s.all (fun c => decide (p c))) : ∀ c ∈ s, p c := by
  simpa using h

theorem before_prefix {needle s first : Chars} (h : before needle s = some first) :
    needle <+: s.drop first.length := by
  induction s generalizing first with
  | nil =>
      unfold before at h
      split at h
      · next hneedle => rw [hneedle]; exact List.nil_prefix
      · cases h
  | cons c s ih =>
      unfold before at h
      split at h
      · next hprefix =>
          cases h
          exact List.isPrefixOf_iff_prefix.mp hprefix
      · obtain ⟨first', hfirst, rfl⟩ := Option.map_eq_some_iff.mp h
        exact ih hfirst

/-! ## Splitting -/

theorem splitOn_of_notMem {sep : Char} {s : Chars} (h : sep ∉ s) : splitOn sep s = [s] := by
  induction s with
  | nil => rfl
  | cons c s ih =>
      rw [List.mem_cons, not_or] at h
      rw [splitOn, if_neg (Ne.symm h.1), ih h.2]

theorem splitOn_ne_nil (sep : Char) (s : Chars) : splitOn sep s ≠ [] := by
  cases s with
  | nil => exact List.cons_ne_nil _ _
  | cons c s =>
      rw [splitOn]
      split
      · exact List.cons_ne_nil _ _
      · split <;> exact List.cons_ne_nil _ _

/-- A separator parts what is before and behind it. -/
theorem splitOn_append (sep : Char) (s r : Chars) :
    splitOn sep (s ++ sep :: r) = splitOn sep s ++ splitOn sep r := by
  induction s with
  | nil => exact if_pos rfl
  | cons c s ih =>
      rw [List.cons_append, splitOn, splitOn, ih]
      split
      · rfl
      · obtain ⟨first, rest, hsplit⟩ := List.exists_cons_of_ne_nil (splitOn_ne_nil sep s)
        rw [hsplit]
        rfl

theorem join_cons {sep : Chars} {parts : List Chars} (h : parts ≠ []) (part : Chars) :
    join sep (part :: parts) = part ++ (sep ++ join sep parts) := by
  obtain ⟨next, parts, rfl⟩ := List.exists_cons_of_ne_nil h
  simp [join, List.intercalate]

theorem join_concat {sep : Chars} {parts : List Chars} (h : parts ≠ []) (part : Chars) :
    join sep (parts ++ [part]) = join sep parts ++ (sep ++ part) := by
  induction parts with
  | nil => exact absurd rfl h
  | cons first parts ih =>
      cases parts with
      | nil => simp [join, List.intercalate]
      | cons next parts =>
          have hne : next :: parts ≠ [] := List.cons_ne_nil _ _
          rw [List.cons_append, join_cons (by simp), ih hne, join_cons hne]
          simp only [List.append_assoc]

theorem mem_join {sep : Chars} {parts : List Chars} {c : Char} (h : c ∈ join sep parts) :
    c ∈ sep ∨ ∃ part ∈ parts, c ∈ part := by
  induction parts with
  | nil => cases h
  | cons part parts ih =>
      by_cases hne : parts = []
      · subst hne
        exact .inr ⟨part, List.mem_cons_self, by simpa [join, List.intercalate] using h⟩
      · rw [join_cons hne, List.mem_append, List.mem_append] at h
        rcases h with h | h | h
        · exact .inr ⟨part, List.mem_cons_self, h⟩
        · exact .inl h
        · rcases ih h with hsep | ⟨p, hp, hc⟩
          · exact .inl hsep
          · exact .inr ⟨p, List.mem_cons_of_mem _ hp, hc⟩

/-- The text of the first part, and that of the last one. -/
theorem ends_join (sep : Chars) {parts : List Chars} (h : parts ≠ []) :
    (∀ part ∈ parts.head?, part <+: join sep parts) ∧
      ∀ part ∈ parts.getLast?, part <:+ join sep parts := by
  constructor
  · intro part hpart
    obtain ⟨rest, rfl⟩ := List.head?_eq_some_iff.mp hpart
    cases rest with
    | nil => simp [join, List.intercalate]
    | cons next rest =>
        rw [join_cons (List.cons_ne_nil _ _)]
        exact List.prefix_append _ _
  · intro part hpart
    obtain ⟨front, rfl⟩ := List.getLast?_eq_some_iff.mp hpart
    cases front with
    | nil => simp [join, List.intercalate]
    | cons first front =>
        rw [join_concat (List.cons_ne_nil _ _), ← List.append_assoc]
        exact List.suffix_append _ _

/-- No part has the separator, and each is a part of the text. -/
theorem mem_splitOn {sep : Char} {s part : Chars} (h : part ∈ splitOn sep s) :
    sep ∉ part ∧ part <:+: s := by
  induction hlength : s.length using Nat.strong_induction_on generalizing s with
  | _ n ih =>
      by_cases hmem : sep ∈ s
      · obtain ⟨front, back, rfl, hfront⟩ := List.eq_append_cons_of_mem hmem
        rw [splitOn_append, splitOn_of_notMem hfront] at h
        rcases List.mem_cons.mp h with rfl | h
        · exact ⟨hfront, (List.prefix_append _ _).isInfix⟩
        · obtain ⟨hpart, hinfix⟩ := ih back.length (by simp [← hlength]; omega) h rfl
          exact ⟨hpart, hinfix.trans
            ((List.suffix_cons sep back).trans (List.suffix_append _ _)).isInfix⟩
      · rw [splitOn_of_notMem hmem, List.mem_singleton] at h
        subst h
        exact ⟨hmem, List.infix_refl _⟩

theorem length_splitOn (sep : Char) (s : Chars) :
    (splitOn sep s).length = s.count sep + 1 := by
  induction s with
  | nil => rfl
  | cons c s ih =>
      obtain ⟨first, rest, hsplit⟩ := List.exists_cons_of_ne_nil (splitOn_ne_nil sep s)
      rw [hsplit] at ih
      rw [splitOn, hsplit, List.count_cons]
      split
      · next heq => simp [heq, ← ih]
      · next hne => simp [hne, ← ih]

/-- Parts without the separator are found again. -/
theorem splitOn_join {sep : Char} {parts : List Chars} (hne : parts ≠ [])
    (h : ∀ part ∈ parts, sep ∉ part) : splitOn sep (join [sep] parts) = parts := by
  induction parts with
  | nil => exact absurd rfl hne
  | cons part parts ih =>
      have hpart := splitOn_of_notMem (h part List.mem_cons_self)
      cases parts with
      | nil => simpa [join, List.intercalate] using hpart
      | cons next parts =>
          have hrest := ih (List.cons_ne_nil _ _) fun p hp => h p (List.mem_cons_of_mem _ hp)
          rw [join_cons (List.cons_ne_nil _ _), List.singleton_append, splitOn_append, hpart, hrest]
          rfl

/-! ## Replacing -/

section Replace

variable {needle value s r : Chars}

theorem replaceFrom_skip (skipped : Chars) :
    replaceFrom needle value skipped.length (skipped ++ r) = replaceAll needle value r := by
  induction skipped with
  | nil => rfl
  | cons c skipped ih => exact ih

theorem replaceAll_needle (hne : needle ≠ []) (r : Chars) :
    replaceAll needle value (needle ++ r) = value ++ replaceAll needle value r := by
  obtain ⟨c, rest, rfl⟩ := List.exists_cons_of_ne_nil hne
  have hprefix : (c :: rest).isPrefixOf (c :: (rest ++ r)) = true :=
    List.isPrefixOf_iff_prefix.mpr ⟨r, rfl⟩
  rw [replaceAll, List.cons_append, replaceFrom, if_pos hprefix]
  exact congrArg (value ++ ·) (replaceFrom_skip rest)

/-- A part in which no occurrence starts stays. -/
theorem replaceAll_append (h : ∀ s', s' <:+ s → s' ≠ [] → ¬needle <+: s' ++ r) :
    replaceAll needle value (s ++ r) = s ++ replaceAll needle value r := by
  induction s with
  | nil => rfl
  | cons c s ih =>
      have hprefix : ¬needle.isPrefixOf (c :: (s ++ r)) = true := fun hprefix =>
        h (c :: s) (List.suffix_refl _) (by simp) (List.isPrefixOf_iff_prefix.mp hprefix)
      rw [replaceAll, List.cons_append, replaceFrom, if_neg hprefix, List.cons_append]
      exact congrArg (c :: ·) (ih fun s' hs' => h s' (hs'.trans (List.suffix_cons c s)))

end Replace

end ChocoBase.Foundation.Text
