import ChocoBase.Foundation.Panics
import ChocoBase.Server.Connections
import ChocoBase.Server.GraphQl
import ChocoBase.Sql.SplitStatements
import Mathlib.Data.List.Infix

/-!
# Slices of texts that clients send

Where the brackets of a GraphQL query stand in order, and the keyword of a `COPY`
statement is found where it stands, no slice is out of range.
-/

namespace ChocoBase.Server

open ChocoBase.Foundation ChocoBase.Engine ChocoBase.Sql ChocoBase.Types ChocoBase.Auth
open Text (Chars)

/-! ## Byte offsets -/

section Offsets

variable {a b s : Chars} {i j n : Nat} {c : Char}

/-- A character starts at the byte, or the text ends there. -/
def Boundary (n : Nat) (s : Chars) : Prop := ∃ a ∈ s.inits, utf8Length a = n

instance (n : Nat) (s : Chars) : Decidable (Boundary n s) := by unfold Boundary; infer_instance

theorem boundary_append (a b : Chars) : Boundary (utf8Length a) (a ++ b) :=
  ⟨a, (List.mem_inits _ _).mpr ⟨b, rfl⟩, rfl⟩

theorem utf8Length_eq_zero (h : utf8Length s = 0) : s = [] := by
  cases s with
  | nil => rfl
  | cons c s =>
      have hpos := c.utf8Size_pos
      rw [utf8Length_cons] at h
      omega

theorem splitAtByte_eq_some (h : Text.splitAtByte n s = some (a, b)) :
    s = a ++ b ∧ utf8Length a = n := by
  induction s generalizing n a b with
  | nil =>
      cases n with
      | zero =>
          rw [Text.splitAtByte] at h
          cases h
          exact ⟨rfl, rfl⟩
      | succ n => rw [Text.splitAtByte] at h; cases h
  | cons c s ih =>
      cases n with
      | zero =>
          rw [Text.splitAtByte] at h
          cases h
          exact ⟨rfl, rfl⟩
      | succ n =>
          rw [Text.splitAtByte] at h
          split at h
          · next hle =>
              obtain ⟨⟨first, rest⟩, hsplit, heq⟩ := Option.map_eq_some_iff.mp h
              cases heq
              obtain ⟨rfl, hlength⟩ := ih hsplit
              exact ⟨rfl, by rw [utf8Length_cons]; omega⟩
          · cases h

theorem splitAtByte_isSome_iff : (Text.splitAtByte n s).isSome ↔ Boundary n s := by
  constructor
  · intro h
    obtain ⟨⟨a, b⟩, hsplit⟩ := Option.isSome_iff_exists.mp h
    obtain ⟨rfl, rfl⟩ := splitAtByte_eq_some hsplit
    exact boundary_append a b
  · rintro ⟨a, ha, rfl⟩
    obtain ⟨b, rfl⟩ := (List.mem_inits _ _).mp ha
    rw [splitAtByte_append]
    rfl

theorem boundary_append_iff (h : utf8Length a ≤ n) :
    Boundary n (a ++ b) ↔ Boundary (n - utf8Length a) b := by
  constructor
  · rintro ⟨p, hp, rfl⟩
    have hp := (List.mem_inits _ _).mp hp
    rcases List.prefix_or_prefix_of_prefix hp ⟨b, rfl⟩ with hshort | hlong
    · obtain ⟨q, rfl⟩ := hshort
      rw [utf8Length_append] at h
      obtain rfl := utf8Length_eq_zero (by omega : utf8Length q = 0)
      rw [List.append_nil, Nat.sub_self]
      exact ⟨[], by simp, rfl⟩
    · obtain ⟨q, rfl⟩ := hlong
      rw [utf8Length_append, Nat.add_sub_cancel_left]
      exact ⟨q, (List.mem_inits _ _).mpr ((List.prefix_append_right_inj a).mp hp), rfl⟩
  · rintro ⟨q, hq, hlength⟩
    refine ⟨a ++ q, (List.mem_inits _ _).mpr ?_, by rw [utf8Length_append]; omega⟩
    exact (List.prefix_append_right_inj a).mpr ((List.mem_inits _ _).mp hq)

/-- `&s[i..j]` panics if and only if it ends before it starts or cuts a character. -/
theorem byteSlice_eq_none_iff :
    Text.byteSlice i j s = none ↔ j < i ∨ ¬Boundary i s ∨ ¬Boundary j s := by
  unfold Text.byteSlice
  split
  · next hlt => exact iff_of_true rfl (.inl hlt)
  next hle =>
  have hi := splitAtByte_isSome_iff (n := i) (s := s)
  cases hsplit : Text.splitAtByte i s with
  | none =>
      rw [hsplit] at hi
      exact iff_of_true rfl (.inr (.inl fun h => nomatch hi.mpr h))
  | some parts =>
      obtain ⟨a, b⟩ := parts
      obtain ⟨rfl, rfl⟩ := splitAtByte_eq_some hsplit
      have hj := (boundary_append_iff (b := b) (Nat.le_of_not_lt hle)).trans
        splitAtByte_isSome_iff.symm
      show (Text.splitAtByte (j - utf8Length a) b >>= fun parts => some parts.1) = none ↔ _
      cases hsplit' : Text.splitAtByte (j - utf8Length a) b with
      | none =>
          rw [hsplit'] at hj
          exact iff_of_true rfl (.inr (.inr fun h => nomatch hj.mp h))
      | some parts' =>
          rw [hsplit'] at hj
          refine iff_of_false nofun ?_
          rintro (h | h | h)
          · exact hle h
          · exact h (boundary_append a b)
          · exact h (hj.mpr rfl)

end Offsets

/-! ## Brackets -/

section Brackets

variable {a b s : Chars} {c x y : Char}

theorem takeWhile_ne_append (h : c ∉ a) : (a ++ c :: b).takeWhile (· ≠ c) = a := by
  induction a with
  | nil => simp
  | cons x a ih =>
      rw [List.mem_cons, not_or] at h
      rw [List.cons_append, List.takeWhile_cons_of_pos (by simpa using Ne.symm h.1), ih h.2]

theorem dropWhile_ne_append (h : c ∉ a) : (a ++ c :: b).dropWhile (· ≠ c) = c :: b := by
  induction a with
  | nil => simp
  | cons x a ih =>
      rw [List.mem_cons, not_or] at h
      rw [List.cons_append, List.dropWhile_cons_of_pos (by simpa using Ne.symm h.1), ih h.2]

theorem exists_last (h : c ∈ s) : ∃ a b, s = a ++ c :: b ∧ c ∉ b := by
  obtain ⟨b, a, hs, hb⟩ := List.eq_append_cons_of_mem (List.mem_reverse.mpr h)
  refine ⟨a.reverse, b.reverse, ?_, by simpa using hb⟩
  rw [← List.reverse_reverse s, hs]
  simp

theorem utf8Length_reverse (s : Chars) : utf8Length s.reverse = utf8Length s := by
  simp [utf8Length, List.sum_reverse]

namespace GraphQl

theorem find_append (h : c ∉ a) : find c (a ++ c :: b) = some (utf8Length a) := by
  rw [find, if_pos (by simp), takeWhile_ne_append h]

theorem rfind_append (h : c ∉ b) : rfind c (a ++ c :: b) = some (utf8Length a) := by
  have hreverse : (a ++ c :: b).reverse = b.reverse ++ c :: a.reverse := by simp
  rw [rfind, if_pos (by simp), hreverse, takeWhile_ne_append (by simpa using h),
    utf8Length_reverse, utf8Length_append, utf8Length_cons]
  congr 1
  omega

theorem slice_start (a b : Chars) : slice 0 (utf8Length a) (a ++ b) = .ok a := by
  have hslice := byteSlice_middle [] a b
  rw [List.nil_append] at hslice
  rw [slice, ← Nat.zero_add (utf8Length a)]
  exact congrArg Outcome.unwrap hslice

theorem slice_middle (a b r : Chars) :
    slice (utf8Length a) (utf8Length (a ++ b)) (a ++ (b ++ r)) = .ok b := by
  rw [slice, utf8Length_append]
  exact congrArg Outcome.unwrap (byteSlice_middle a b r)

theorem slice_backwards {i j : Nat} (h : j < i) : slice i j s = .stop .panic := by
  rw [slice, byteSlice_eq_none_iff.mpr (.inl h)]
  rfl

/-- The last `y` stands behind the first `x`, where both occur. -/
def Encloses (x y : Char) (s : Chars) : Prop := y ∈ s.dropWhile (· ≠ x)

instance (x y : Char) (s : Chars) : Decidable (Encloses x y s) := by
  unfold Encloses; infer_instance

/-- What is between the first `x` and the last `y`. -/
theorem slice_between (hx : x.utf8Size = 1) (hne : x ≠ y) (hfirst : x ∈ s) (hlast : y ∈ s) :
    ∃ i j, find x s = some i ∧ rfind y s = some j ∧
      (Encloses x y s → ∃ m, slice (i + 1) j s = .ok m) ∧
      (¬Encloses x y s → slice (i + 1) j s = .stop .panic) := by
  obtain ⟨p, q, rfl, hp⟩ := List.eq_append_cons_of_mem hfirst
  have hone : utf8Length (p ++ [x]) = utf8Length p + 1 := by
    rw [utf8Length_append, utf8Length_cons, hx]
    rfl
  have hencloses : Encloses x y (p ++ x :: q) ↔ y ∈ q := by
    rw [Encloses, dropWhile_ne_append hp, List.mem_cons, or_iff_right hne.symm]
  by_cases hq : y ∈ q
  · obtain ⟨m, z, rfl, hz⟩ := exists_last hq
    have hrfind : rfind y (p ++ x :: (m ++ y :: z)) = some (utf8Length (p ++ [x] ++ m)) := by
      have happend : p ++ x :: (m ++ y :: z) = p ++ [x] ++ m ++ y :: z := by simp
      rw [happend, rfind_append hz]
    refine ⟨_, _, find_append hp, hrfind, fun _ => ?_, fun h => absurd (hencloses.mpr hq) h⟩
    have hslice := slice_middle (p ++ [x]) m (y :: z)
    rw [List.append_assoc p [x] (m ++ y :: z), List.singleton_append, hone] at hslice
    exact ⟨m, hslice⟩
  · have hmem : y ∈ p := by
      rcases List.mem_append.mp hlast with h | h
      · exact h
      · rcases List.mem_cons.mp h with h | h
        · exact absurd h.symm hne
        · exact absurd h hq
    obtain ⟨p₁, p₂, rfl, hp₂⟩ := exists_last hmem
    have hrfind : rfind y (p₁ ++ y :: p₂ ++ x :: q) = some (utf8Length p₁) := by
      rw [List.append_assoc, List.cons_append]
      refine rfind_append ?_
      simp [hp₂, hq, hne.symm]
    refine ⟨_, _, find_append hp, hrfind, fun h => absurd (hencloses.mp h) hq, fun _ => ?_⟩
    refine slice_backwards ?_
    rw [utf8Length_append]
    omega

/-- What stands before the first `c`. -/
theorem slice_before (h : c ∈ s) :
    ∃ i, find c s = some i ∧ slice 0 i s = .ok (s.takeWhile (· ≠ c)) := by
  obtain ⟨a, b, rfl, ha⟩ := List.eq_append_cons_of_mem h
  refine ⟨_, find_append ha, ?_⟩
  rw [takeWhile_ne_append ha]
  exact slice_start a (c :: b)

/-! ## The parts of a query -/

variable (host : Host)

def cleanText (query : Chars) : Chars :=
  let cleaned := trimmed host query
  match Rest.stripPrefix "query".toList cleaned with
  | none => cleaned
  | some rest =>
      let cleaned := trimmed host rest
      if '{' ∈ cleaned then cleaned.dropWhile (· ≠ '{') else cleaned

/-- The text in the outer braces. -/
def insideText (query : Chars) : Option Chars :=
  let cleaned := cleanText host query
  if cleaned.head? = some '{' ∧ cleaned.getLast? = some '}' then
    some (trimmed host (cleaned.drop 1).dropLast)
  else none

/-- The first `)` of a header does not stand before its first `(`. -/
def HeaderInOrder (header : Chars) : Prop := '(' ∈ header → ')' ∉ header.takeWhile (· ≠ '(')

/-- The brackets of a query are in order, as far as there are any. -/
def InOrder (query : Chars) : Prop :=
  ∀ inside ∈ insideText host query, '{' ∈ inside → '}' ∈ inside →
    Encloses '{' '}' inside ∧ HeaderInOrder (trimmed host (inside.takeWhile (· ≠ '{')))

theorem cleanQuery_eq (query : Chars) : cleanQuery host query = .ok (cleanText host query) := by
  unfold cleanQuery cleanText
  dsimp only
  cases Rest.stripPrefix "query".toList (trimmed host query) with
  | none => rfl
  | some rest =>
      dsimp only
      by_cases hmem : '{' ∈ trimmed host rest
      · obtain ⟨a, b, hs, ha⟩ := List.eq_append_cons_of_mem hmem
        rw [if_pos hmem, hs, find_append ha, dropWhile_ne_append ha]
        have hslice := slice_middle a ('{' :: b) []
        rw [List.append_nil] at hslice
        exact hslice
      · rw [if_neg hmem, find, if_neg hmem]

theorem parseQuery_eq (query : Chars) :
    parseQuery host query = match insideText host query with
      | some inside => parseSelection host inside
      | none => .error "invalid GraphQL syntax: expected '\x7b ... \x7d'" := by
  unfold parseQuery
  rw [cleanQuery_eq]
  show (if _ then _ else _) = _
  unfold insideText
  dsimp only
  generalize cleanText host query = cleaned
  by_cases hends : cleaned.head? = some '{' ∧ cleaned.getLast? = some '}'
  · rw [if_neg (by tauto), if_pos hends]
    obtain ⟨rest, rfl⟩ := List.head?_eq_some_iff.mp hends.1
    have hlast : ∃ m, rest = m ++ ['}'] := by
      rcases List.eq_nil_or_concat rest with rfl | ⟨m, d, rfl⟩
      · exact absurd hends.2 (by decide)
      · refine ⟨m, ?_⟩
        have hd := hends.2
        rw [List.concat_eq_append, ← List.cons_append, List.getLast?_concat] at hd
        rw [Option.some.inj hd, List.concat_eq_append]
    obtain ⟨m, rfl⟩ := hlast
    have hslice := slice_middle ['{'] m ['}']
    have hwidth : utf8Length ('{' :: (m ++ ['}'])) - 1 = utf8Length (['{'] ++ m) := by
      rw [utf8Length_cons, utf8Length_append, utf8Length_append]
      show 1 + (utf8Length m + 1) - 1 = 1 + utf8Length m
      omega
    have hinside : (('{' :: (m ++ ['}'])).drop 1).dropLast = m := by simp
    rw [hwidth, hinside]
    show (slice (utf8Length ['{']) _ ('{' :: (m ++ ['}'])) >>= _) = _
    have hslice' : slice (utf8Length ['{']) (utf8Length (['{'] ++ m)) ('{' :: (m ++ ['}'])) = .ok m :=
      hslice
    rw [hslice']
    rfl
  · rw [if_pos (by tauto), if_neg hends]

theorem parseHeader_panics_iff (header : Chars) :
    parseHeader host header = .stop .panic ↔ ¬HeaderInOrder header := by
  unfold parseHeader
  by_cases hopen : '(' ∈ header
  · obtain ⟨p, q, rfl, hp⟩ := List.eq_append_cons_of_mem hopen
    have horder : HeaderInOrder (p ++ '(' :: q) ↔ ')' ∉ p := by
      rw [HeaderInOrder, takeWhile_ne_append hp]
      exact forall_prop_of_true hopen
    rw [horder, not_not, find_append hp]
    dsimp only
    by_cases hclose : ')' ∈ p
    · obtain ⟨p₁, p₂, rfl, hp₁⟩ := List.eq_append_cons_of_mem hclose
      have hbackwards : utf8Length p₁ < utf8Length (p₁ ++ ')' :: p₂) + 1 := by
        rw [utf8Length_append]
        omega
      refine iff_of_true ?_ hclose
      rw [slice_start, List.append_assoc, List.cons_append, find_append hp₁]
      show (slice (utf8Length (p₁ ++ ')' :: p₂) + 1) (utf8Length p₁) _ >>= _) = _
      rw [slice_backwards hbackwards]
      rfl
    · refine iff_of_false ?_ hclose
      by_cases hq : ')' ∈ q
      · obtain ⟨m, z, rfl, hm⟩ := List.eq_append_cons_of_mem hq
        have hfind : find ')' (p ++ '(' :: (m ++ ')' :: z)) = some (utf8Length (p ++ ['('] ++ m)) := by
          have happend : p ++ '(' :: (m ++ ')' :: z) = p ++ ['('] ++ m ++ ')' :: z := by simp
          rw [happend, find_append (by simp [hclose, hm])]
        have hslice := slice_middle (p ++ ['(']) m (')' :: z)
        rw [List.append_assoc p ['('] (m ++ ')' :: z), List.singleton_append,
          utf8Length_append p ['(']] at hslice
        rw [hfind, slice_start]
        show ¬(slice (utf8Length p + 1) _ _ >>= _) = _
        rw [show utf8Length p + 1 = utf8Length p + utf8Length ['('] from rfl, hslice]
        nofun
      · rw [find, if_neg (by simp [hclose, hq])]
        nofun
  · have horder : HeaderInOrder header := fun h => absurd h hopen
    rw [find, if_neg hopen]
    exact iff_of_false nofun (not_not.mpr horder)

theorem parseSelection_panics_iff (inside : Chars) :
    parseSelection host inside = .stop .panic ↔
      ¬('{' ∈ inside → '}' ∈ inside → Encloses '{' '}' inside ∧
        HeaderInOrder (trimmed host (inside.takeWhile (· ≠ '{')))) := by
  unfold parseSelection
  by_cases hopen : '{' ∈ inside
  swap
  · rw [find, if_neg hopen]
    exact iff_of_false nofun (not_not.mpr fun h => absurd h hopen)
  by_cases hclose : '}' ∈ inside
  swap
  · rw [find, if_pos hopen, rfind, if_neg hclose]
    exact iff_of_false nofun (not_not.mpr fun _ h => absurd h hclose)
  obtain ⟨i, hfind, hheader⟩ := slice_before hopen
  obtain ⟨i', j, hfind', hrfind, hinner, hbackwards⟩ :=
    slice_between (by decide : '{'.utf8Size = 1) (by decide : '{' ≠ '}') hopen hclose
  obtain rfl := Option.some.inj (hfind.symm.trans hfind')
  rw [hfind, hrfind]
  dsimp only
  rw [hheader, forall_prop_of_true hopen, forall_prop_of_true hclose]
  by_cases hencloses : Encloses '{' '}' inside
  · obtain ⟨m, hm⟩ := hinner hencloses
    rw [and_iff_right hencloses, ← parseHeader_panics_iff host]
    show (slice (i + 1) j inside >>= _) = _ ↔ _
    rw [hm]
    show (parseHeader host _ >>= _) = _ ↔ _
    cases parseHeader host (trimmed host (inside.takeWhile (· ≠ '{'))) with
    | ok parsed =>
        refine iff_of_false ?_ nofun
        show ¬(if _ then _ else _) = _
        split
        · nofun
        · nofun
    | error message => exact iff_of_false nofun nofun
    | stop why => exact ⟨fun h => by cases h; rfl, fun h => by cases h; rfl⟩
  · refine iff_of_true ?_ fun h => hencloses h.1
    show (slice (i + 1) j inside >>= _) = _
    rw [hbackwards hencloses]
    rfl

theorem parseQuery_panics_iff (query : Chars) :
    parseQuery host query = .stop .panic ↔ ¬InOrder host query := by
  rw [parseQuery_eq, InOrder]
  cases insideText host query with
  | none => exact iff_of_false nofun (not_not.mpr nofun)
  | some inside =>
      simp only [Option.mem_some_iff, forall_eq']
      exact parseSelection_panics_iff host inside

/-! ## The answer -/

/-- The rows of a result have as many values as it has columns. -/
def Wide : Except QueryError ExecResult → Prop
  | .ok (.rows columns rows) => ∀ row ∈ rows, columns.length ≤ row.length
  | _ => True

variable (ofFloat : Float → Json) (ofFloat32 : Float32 → Json)

theorem rowMembers_eq {row : Row} {idx : Nat} {columns : List String} (hidx : idx ≤ row.length)
    (members : OrdMap String Json) :
    if idx + columns.length ≤ row.length then
      ∃ members', rowMembers host ofFloat ofFloat32 row idx columns members = .ok members'
    else rowMembers host ofFloat ofFloat32 row idx columns members = .stop .panic := by
  induction columns generalizing idx members with
  | nil => rw [List.length_nil, Nat.add_zero, if_pos hidx]; exact ⟨members, rfl⟩
  | cons col rest ih =>
      rw [rowMembers, List.length_cons, ← Nat.add_assoc, Nat.add_right_comm]
      by_cases hlt : idx < row.length
      · rw [List.getElem?_eq_getElem hlt]
        exact ih hlt _
      · rw [if_neg (by omega), List.getElem?_eq_none (Nat.le_of_not_lt hlt)]
        rfl

theorem rowsJson_panics_iff (columns : List String) (rows : List Row) :
    rowsJson host ofFloat ofFloat32 columns rows = .stop .panic ↔
      ¬∀ row ∈ rows, columns.length ≤ row.length := by
  induction rows with
  | nil => exact iff_of_false (by rintro ⟨⟩) (not_not.mpr (List.forall_mem_nil _))
  | cons row rest ih =>
      have hrow := @rowMembers_eq host ofFloat ofFloat32 row 0 columns (Nat.zero_le row.length)
        .empty
      rw [List.forall_mem_cons, rowsJson, rowJson]
      rw [Nat.zero_add] at hrow
      by_cases hwide : columns.length ≤ row.length
      · rw [if_pos hwide] at hrow
        obtain ⟨members, hmembers⟩ := hrow
        rw [and_iff_right hwide, ← ih, hmembers]
        show (rowsJson host ofFloat ofFloat32 columns rest >>= _) = _ ↔ _
        cases rowsJson host ofFloat ofFloat32 columns rest with
        | ok json => exact iff_of_false (by rintro ⟨⟩) (by rintro ⟨⟩)
        | error message => exact iff_of_false (by rintro ⟨⟩) (by rintro ⟨⟩)
        | stop why => exact ⟨fun h => by cases h; rfl, fun h => by cases h; rfl⟩
      · rw [if_neg hwide] at hrow
        rw [hrow]
        exact iff_of_true rfl fun h => hwide h.1

theorem dataJson_panics_iff (table : Chars) (result : Except QueryError ExecResult) :
    dataJson host ofFloat ofFloat32 table result = .stop .panic ↔ ¬Wide result := by
  cases result with
  | error e => exact iff_of_false nofun (not_not.mpr trivial)
  | ok res =>
      cases res with
      | rows columns rows =>
          rw [Wide, ← rowsJson_panics_iff host ofFloat ofFloat32, dataJson]
          cases rowsJson host ofFloat ofFloat32 columns rows with
          | ok json => exact iff_of_false nofun nofun
          | error message => exact iff_of_false nofun nofun
          | stop why => exact ⟨fun h => by cases h; rfl, fun h => by cases h; rfl⟩
      | _ => exact iff_of_false nofun (not_not.mpr trivial)

variable {allowed : (op : Call) → Except IoErrorKind op.Res → Prop}

theorem answer_neverPanics_iff {α : Type} (x : Outcome String α) :
    (answer x).NeverPanics allowed ↔ x ≠ .stop .panic := by
  cases x with
  | ok value => exact iff_of_true trivial nofun
  | error message => exact iff_of_true trivial nofun
  | stop why => exact not_congr ⟨congrArg Outcome.stop, fun h => by cases h; rfl⟩

theorem inOrder_nil : InOrder host [] := by
  intro inside h
  cases h

/-- The database answers the query with rows that are wide enough. -/
def WideAnswers (allowed : (op : Call) → Except IoErrorKind op.Res → Prop) (query : Chars)
    (ctx : ExecutionContext) : Prop :=
  ∀ sel, parseQuery host query = .ok sel →
    ∀ result, allowed (.execute sel.sql ctx) (.ok result) → Wide result

theorem executeGraphql_neverPanics_iff (query : String) (ctx : ExecutionContext) :
    (executeGraphql host ofFloat ofFloat32 query ctx).NeverPanics allowed ↔
      InOrder host (trimmed host query.toList) ∧
        WideAnswers host allowed (trimmed host query.toList) ctx := by
  unfold executeGraphql
  dsimp only
  split
  · next hempty =>
      rw [hempty]
      exact iff_of_true trivial ⟨inOrder_nil host, nofun⟩
  · rw [← not_iff_not (b := _ ∧ _), not_and_or, ← parseQuery_panics_iff, WideAnswers]
    cases parseQuery host (trimmed host query.toList) with
    | error message => exact iff_of_false (not_not.mpr trivial) (by simp)
    | stop why =>
        have hvacuous : ¬¬∀ sel, (.stop why : Outcome String Selection) = .ok sel →
            ∀ result, allowed (.execute sel.sql ctx) (.ok result) → Wide result := not_not.mpr nofun
        rw [or_iff_left hvacuous]
        show ¬why ≠ .panic ↔ _
        rw [not_not]
        exact ⟨congrArg Outcome.stop, fun h => by cases h; rfl⟩
    | ok sel =>
        rw [or_iff_right nofun, not_iff_not]
        constructor
        · intro h sel' hsel result hallowed
          cases hsel
          refine not_not.mp fun hwide => ?_
          exact (answer_neverPanics_iff _).mp (h (.ok result) hallowed)
            ((dataJson_panics_iff host ofFloat ofFloat32 _ _).mpr hwide)
        · intro h
          refine Prog.NeverPanics.request_bind fun result hallowed => ?_
          refine (answer_neverPanics_iff _).mpr fun hpanic => ?_
          exact (dataJson_panics_iff host ofFloat ofFloat32 _ _).mp hpanic (h sel rfl result hallowed)

end GraphQl

end Brackets

/-! ## COPY -/

namespace PostgresWire

variable (host : Host) {a b clean target : Chars} {c : Char}

theorem before_append (h : c ∉ a) : Text.before [c] (a ++ c :: b) = some a := by
  induction a with
  | nil => simp [Text.before]
  | cons x a ih =>
      rw [List.mem_cons, not_or] at h
      have hne : [c].isPrefixOf (x :: (a ++ c :: b)) = false := by simp [List.isPrefixOf, h.1]
      rw [List.cons_append, Text.before, hne, ih h.2]
      rfl

theorem before_of_notMem (h : c ∉ a) : Text.before [c] a = none := by
  induction a with
  | nil => rfl
  | cons x a ih =>
      rw [List.mem_cons, not_or] at h
      have hne : [c].isPrefixOf (x :: a) = false := by simp [List.isPrefixOf, h.1]
      rw [Text.before, hne, ih h.2]
      rfl

/-- The keyword of the upper-cased text stands behind `COPY`, at a character of the text. -/
def KeywordInRange (keyword : String) (clean : Chars) : Prop :=
  ∀ start ∈ Text.before keyword.toList (upper host clean),
    4 ≤ utf8Length start ∧ Boundary 4 clean ∧ Boundary (utf8Length start) clean

theorem copyTarget_panics_iff {keyword : String} :
    copyTarget host keyword clean = some none ↔ ¬KeywordInRange host keyword clean := by
  rw [copyTarget, KeywordInRange]
  cases Text.before keyword.toList (upper host clean) with
  | none => exact iff_of_false nofun (not_not.mpr nofun)
  | some start =>
      simp only [Option.map_some, Option.some.injEq, Option.map_eq_none_iff, byteSlice_eq_none_iff,
        Option.mem_some_iff, forall_eq']
      rw [← Nat.not_le]
      tauto

/-- The last `)` does not stand before the first `(`. -/
def ColumnsInOrder (target : Chars) : Prop :=
  '(' ∈ target → ')' ∈ target → GraphQl.Encloses '(' ')' target

theorem copyColumns_panics_iff : copyColumns host target = none ↔ ¬ColumnsInOrder target := by
  unfold copyColumns ColumnsInOrder
  by_cases hopen : '(' ∈ target
  swap
  · rw [before_of_notMem hopen]
    exact iff_of_false nofun (not_not.mpr fun h => absurd h hopen)
  obtain ⟨p, q, rfl, hp⟩ := List.eq_append_cons_of_mem hopen
  rw [before_append hp, forall_prop_of_true hopen]
  dsimp only
  by_cases hclose : ')' ∈ p ++ '(' :: q
  swap
  · have hreverse : ')' ∉ (p ++ '(' :: q).reverse := fun h => hclose (List.mem_reverse.mp h)
    have hlength : ¬(p ++ '(' :: q).length < p.length + 1 := by
      rw [List.length_append, List.length_cons]
      omega
    rw [before_of_notMem hreverse, if_neg hlength]
    exact iff_of_false nofun (not_not.mpr fun h => absurd h hclose)
  obtain ⟨x, y, htarget, hy⟩ := exists_last hclose
  have hreverse : (p ++ '(' :: q).reverse = y.reverse ++ ')' :: x.reverse := by
    rw [htarget]
    simp
  have hlength := congrArg List.length htarget
  rw [List.length_append, List.length_append, List.length_cons, List.length_cons] at hlength
  rw [hreverse, before_append (by simpa using hy), forall_prop_of_true hclose, GraphQl.Encloses,
    dropWhile_ne_append hp]
  have hstop : (p ++ '(' :: q).length - y.reverse.length - 1 = x.length := by
    rw [List.length_append, List.length_cons, List.length_reverse]
    omega
  simp only [hstop, ite_eq_left_iff, reduceCtorEq, imp_false, not_not]
  rcases List.append_eq_append_iff.mp htarget with ⟨m, hx, hq⟩ | ⟨m, hp', hy'⟩
  · -- the last bracket stands behind the first
    cases m with
    | nil => cases hq
    | cons d m =>
        cases hq
        refine iff_of_false ?_ (not_not.mpr (by simp))
        rw [hx, List.length_append, List.length_cons]
        omega
  · cases m with
    | nil => cases hy'
    | cons d m =>
        cases hy'
        refine iff_of_true ?_ ?_
        · rw [hp', List.length_append]
          omega
        · exact fun h => hy (List.mem_append_right m h)

/-! ## The handlers -/

variable {allowed : (op : Call) → Except IoErrorKind op.Res → Prop}

theorem copyLines_neverPanics (csv : Bool) (table : Chars) (columns : List Chars)
    (ctx : ExecutionContext) (copied : Nat) (lines : List Chars) :
    (copyLines host csv table columns ctx copied lines).NeverPanics allowed := by
  induction lines generalizing copied with
  | nil => trivial
  | cons line rest ih =>
      rw [copyLines]
      refine Prog.NeverPanics.ite (ih copied) (Prog.NeverPanics.request_bind fun result _ => ?_)
      cases result with
      | ok res => exact ih (copied + 1)
      | error e => exact ih copied

theorem copyInLoop_neverPanics (csv : Bool) (table : Chars) (columns : List Chars)
    (ctx : ExecutionContext) (fuel copied : Nat) :
    (copyInLoop host csv table columns ctx fuel copied).NeverPanics allowed := by
  induction fuel generalizing copied with
  | zero => nofun
  | succ fuel ih =>
      rw [copyInLoop]
      refine Prog.NeverPanics.bind (Prog.neverPanics_attempt.mpr Prog.neverPanics_request)
        fun read => ?_
      cases read with
      | error e => exact Prog.neverPanics_request
      | ok type =>
          refine Prog.NeverPanics.bind (Prog.NeverPanics.request_bind fun len _ =>
            Prog.neverPanics_request) fun body => ?_
          exact .ite ((copyLines_neverPanics host csv table columns ctx copied _).bind ih)
            (.ite Prog.neverPanics_request Prog.neverPanics_request)

/-- The slices of a `COPY .. FROM` statement are in order. -/
def CopyInInOrder (sql : Chars) : Prop :=
  KeywordInRange host " FROM " (cleanSql host sql) ∧
    ∀ target, copyTarget host " FROM " (cleanSql host sql) = some (some target) →
      ColumnsInOrder target

theorem handleCopyIn_neverPanics_iff (fuel : Nat) (sql : Chars) (ctx : ExecutionContext) :
    (handleCopyIn host fuel sql ctx).NeverPanics allowed ↔ CopyInInOrder host sql := by
  have hrange := @copyTarget_panics_iff host (cleanSql host sql) " FROM "
  unfold handleCopyIn CopyInInOrder
  dsimp only
  cases htarget : copyTarget host " FROM " (cleanSql host sql) with
  | none =>
      rw [htarget] at hrange
      exact iff_of_true Prog.neverPanics_request ⟨not_not.mp fun h => (nomatch hrange.mpr h), nofun⟩
  | some target =>
      rw [htarget] at hrange
      cases target with
      | none => exact iff_of_false (fun h => h rfl) fun h => hrange.mp rfl h.1
      | some target =>
          have hin : KeywordInRange host " FROM " (cleanSql host sql) :=
            not_not.mp fun h => (nomatch hrange.mpr h)
          rw [and_iff_right hin]
          simp only [Option.some.injEq, forall_eq']
          rw [← not_iff_not, ← copyColumns_panics_iff host]
          show ¬Prog.NeverPanics allowed (Prog.bind (.unwrap (copyColumns host target) : Talk _) _) ↔ _
          cases copyColumns host target with
          | none => exact iff_of_true (fun h => h rfl) rfl
          | some parts =>
              refine iff_of_false (not_not.mpr ?_) nofun
              refine Prog.NeverPanics.request_bind fun schema _ => ?_
              cases schema with
              | none => exact Prog.neverPanics_request
              | some schema =>
                  exact Prog.NeverPanics.request_bind fun _ _ =>
                    Prog.NeverPanics.request_bind fun _ _ =>
                      copyInLoop_neverPanics host _ _ _ ctx fuel 0

/-- The slices of a `COPY .. TO` statement are in order. -/
def CopyOutInOrder (sql : Chars) : Prop := KeywordInRange host " TO " (cleanSql host sql)

theorem sendAll_neverPanics (messages : List BackendMessage) : (sendAll messages).NeverPanics allowed := by
  induction messages with
  | nil => trivial
  | cons message rest ih => exact Prog.NeverPanics.request_bind fun _ _ => ih

theorem handleCopyOut_neverPanics_iff (sql : Chars) (ctx : ExecutionContext) :
    (handleCopyOut host sql ctx).NeverPanics allowed ↔ CopyOutInOrder host sql := by
  have hrange := @copyTarget_panics_iff host (cleanSql host sql) " TO "
  unfold handleCopyOut CopyOutInOrder
  dsimp only
  cases htarget : copyTarget host " TO " (cleanSql host sql) with
  | none =>
      rw [htarget] at hrange
      exact iff_of_true Prog.neverPanics_request (not_not.mp fun h => (nomatch hrange.mpr h))
  | some target =>
      rw [htarget] at hrange
      cases target with
      | none => exact iff_of_false (fun h => h rfl) (hrange.mp rfl)
      | some source =>
          refine iff_of_true ?_ (not_not.mp fun h => (nomatch hrange.mpr h))
          exact Prog.NeverPanics.request_bind fun result _ => sendAll_neverPanics _

end PostgresWire

/-! ## The front ends -/

open PostgresWire

/--
None of them panics, whatever the calls are answered of what is allowed, if and only if the
brackets are in order, the keywords are found where they stand and no row is too short.
-/
theorem front_ends_neverPanic_iff (host : Host) (ofFloat : Float → Json)
    (ofFloat32 : Float32 → Json) (ctx : ExecutionContext)
    (allowed : (op : Call) → Except IoErrorKind op.Res → Prop) :
    (∀ query : String,
        (GraphQl.executeGraphql host ofFloat ofFloat32 query ctx).NeverPanics allowed ↔
          GraphQl.InOrder host (GraphQl.trimmed host query.toList) ∧
            GraphQl.WideAnswers host allowed (GraphQl.trimmed host query.toList) ctx) ∧
      (∀ (sql : Chars) (fuel : Nat),
        (handleCopyIn host fuel sql ctx).NeverPanics allowed ↔ CopyInInOrder host sql) ∧
      ∀ sql : Chars, (handleCopyOut host sql ctx).NeverPanics allowed ↔ CopyOutInOrder host sql :=
  ⟨fun query => GraphQl.executeGraphql_neverPanics_iff host ofFloat ofFloat32 query ctx,
    fun sql fuel => handleCopyIn_neverPanics_iff host fuel sql ctx,
    fun sql => handleCopyOut_neverPanics_iff host sql ctx⟩

/-- Brackets the wrong way round; no call is answered before the slices. -/
theorem front_ends_panic :
    (¬∀ query : String,
        (GraphQl.executeGraphql Running.plainHost (fun _ => .null) (fun _ => .null) query
          .anonymous).NeverPanics fun _ _ => False) ∧
      ¬∀ (sql : Chars) (fuel : Nat),
        (handleCopyIn Running.plainHost fuel sql .anonymous).NeverPanics fun _ _ => False := by
  constructor
  · intro h
    have horder := ((GraphQl.executeGraphql_neverPanics_iff _ _ _ _ _).mp (h "{ } { }")).1
    have hinside := horder "\x7d \x7b".toList (by decide +kernel) (by decide) (by decide)
    exact absurd hinside.1 (by decide)
  · intro h
    have horder := ((handleCopyIn_neverPanics_iff _ 0 _ _).mp (h "COPY t)( FROM STDIN".toList 0)).2
    have hslice : Text.byteSlice 4 (utf8Length "COPY T)(".toList) "COPY t)( FROM STDIN".toList =
        some " t)(".toList :=
      byteSlice_middle "COPY".toList " t)(".toList " FROM STDIN".toList
    have hclean : cleanSql Running.plainHost "COPY t)( FROM STDIN".toList =
        "COPY t)( FROM STDIN".toList := by decide +kernel
    have hbefore : Text.before " FROM ".toList
        (upper Running.plainHost "COPY t)( FROM STDIN".toList) = some "COPY T)(".toList := by
      have hupper : upper Running.plainHost "COPY t)( FROM STDIN".toList =
          "COPY T)( FROM STDIN".toList := by decide +kernel
      rw [hupper]
      decide
    have htarget : copyTarget Running.plainHost " FROM "
        (cleanSql Running.plainHost "COPY t)( FROM STDIN".toList) = some (some "t)(".toList) := by
      rw [hclean, copyTarget, hbefore, Option.map_some, hslice]
      decide +kernel
    have hcolumns := horder _ htarget (by decide) (by decide)
    exact absurd hcolumns (by decide)

end ChocoBase.Server
