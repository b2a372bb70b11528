import ChocoBase.Foundation.Separated
import ChocoBase.Http.Digits
import ChocoBase.Server.RestSql

/-!
# Pages of a table

A request on a table reads every row that its filters let through and answers a part of
them.  A `Range` header says which, and what it leaves open the parameters `offset` and
`limit` say.
-/

namespace ChocoBase.Http

open ChocoBase.Foundation ChocoBase.Sql
open Text (Chars)
open Plan (parseUsize)
open Server.Rest (splitOnce trimmed param Params)

/-! ## Answers -/

/-- `trim_start_matches` with a text, which is taken off as often as it stands there. -/
def trimStartWord (word : Chars) : Nat → Chars → Chars
  | 0, s => s
  | fuel + 1, s =>
      if word.isPrefixOf s then trimStartWord word fuel (s.drop word.length) else s

def addUsize (m n : Nat) : Outcome Empty Nat :=
  if m + n < 2 ^ 64 then .ok (m + n) else .stop .overflow

structure Page (Json : Type) where
  status : Nat
  rows : List Json
  contentRange : Option String
  deriving DecidableEq

def itemsRange (start stop total : Nat) : String :=
  toString start ++ "-" ++ toString stop ++ "/" ++ toString total

/-- `cr_opt` -/
def reportedRange (isRanged : Bool) (offset count total : Nat) : Outcome Empty (Option String) :=
  if isRanged then
    if total = 0 then .ok (some "*/0")
    else do
      let reached ← addUsize offset count
      return some (itemsRange offset (min (reached - 1) (total - 1)) total)
  else .ok none

section Requests

variable (text : TextLibrary)

/-- The two parts of a range of items, as they are written. -/
def rangeParts (rangeHeader : Chars) : Option (Chars × Chars) :=
  let clean := trimmed text (trimStartWord "items=".toList rangeHeader.length rangeHeader)
  (splitOnce '-' clean).map fun (start, stop) => (trimmed text start, trimmed text stop)

/-- `range_offset` and `range_limit` -/
def rangeWindow (rangeHeader : Option Chars) : Outcome Empty (Option Nat × Option Nat) :=
  match rangeHeader.bind (rangeParts text) with
  | some (start, stop) =>
      match parseUsize start, parseUsize stop with
      | some s, some e =>
          if s ≤ e then do
            let limit ← addUsize (e - s) 1
            return (some s, some limit)
          else .ok (none, none)
      | some s, none => .ok (some s, none)
      | none, _ => .ok (none, none)
  | none => .ok (none, none)

def isCount (preferences : Chars) (params : Params) : Bool :=
  Text.contains "count=exact".toList preferences
    || Text.contains "count=planned".toList preferences
    || Text.contains "count=estimated".toList preferences
    || (param params "count").isSome

variable {Row Json : Type} (toJson : Row → Json)

/-- The rows of the answer and its `Content-Range`; `toJson` is the object of a row with the
relations that it embeds, and `preferences` is the lowercased `Prefer` header. -/
def tablePage (rows : List Row) (params : Params) (rangeHeader : Option Chars)
    (preferences : Chars) : Outcome Empty (Page Json) := do
  let (rangeOffset, rangeLimit) ← rangeWindow text rangeHeader
  let offset := (rangeOffset.or ((param params "offset").bind parseUsize)).getD 0
  let limit := rangeLimit.or ((param params "limit").bind parseUsize)
  let total := rows.length
  let jsonRows := ((rows.drop offset).take (limit.getD (2 ^ 64 - 1))).map toJson
  let isRanged :=
    rangeHeader.isSome || isCount preferences params || decide (0 < offset) || limit.isSome
  let contentRange ← reportedRange isRanged offset jsonRows.length total
  let status := if rangeHeader.isSome && decide (jsonRows.length < total) then 206 else 200
  return ⟨status, jsonRows, contentRange⟩

/-! ## What a request asks for -/

/-- The rows of a result; a vector holds fewer than `isize` counts. -/
structure ResultSet (Row : Type) where
  rows : List Row
  length_lt : rows.length < 2 ^ 63

/-- The rows from `start` on, no more than `count` of them. -/
structure Window where
  start : Nat
  count : Option Nat

def Window.slice (window : Window) (rows : List Row) : List Row :=
  match window.count with
  | some count => (rows.drop window.start).take count
  | none => rows.drop window.start

/-- The first and the last row of a range, with numbers as `parse` reads them. -/
def rangeOf (parse : Chars → Option Nat) (rangeHeader : Option Chars) :
    Option (Nat × Option Nat) :=
  (rangeHeader.bind (rangeParts text)).bind fun (start, stop) =>
    (parse start).bind fun first =>
      match parse stop with
      | some last => if first ≤ last then some (first, some last) else none
      | none => some (first, none)

example : rangeOf asciiLibrary number (some "items=10-19".toList) = some (10, some 19) ∧
    rangeOf asciiLibrary number (some " 7-".toList) = some (7, none) ∧
    rangeOf asciiLibrary number (some "9-3".toList) = none := by decide +kernel

def Window.of (range : Option (Nat × Option Nat)) (offset limit : Option Nat) : Window :=
  match range with
  | some (first, some last) => ⟨first, some (last - first + 1)⟩
  | some (first, none) => ⟨first, limit⟩
  | none => ⟨offset.getD 0, limit⟩

/-- What is asked for, with numbers of any size. -/
def Window.asked (params : Params) (rangeHeader : Option Chars) : Window :=
  .of (rangeOf text number rangeHeader) ((param params "offset").bind number)
    ((param params "limit").bind number)

/-- A `Content-Range` that describes `count` rows from `start` on. -/
def Describes (start count total : Nat) (range : String) : Prop :=
  if count = 0 then range = "*/" ++ toString total
  else range = itemsRange start (start + count - 1) total

/-- The page holds the rows of the window and describes them. -/
def Page.Serves (page : Page Json) (window : Window) (rows : List Row) : Prop :=
  page.rows = (window.slice rows).map toJson ∧
    ∀ range, page.contentRange = some range →
      Describes window.start page.rows.length rows.length range

/-- The last row of the range is beyond what the code can read, so that a `limit` counts. -/
def limitCuts (params : Params) (rangeHeader : Option Chars) (total : Nat) : Prop :=
  ∃ first last limit, rangeOf text number rangeHeader = some (first, some last) ∧
    2 ^ 64 ≤ last ∧ (param params "limit").bind number = some limit ∧ first + limit < total

/-! ## What the code reads -/

/-- The numbers that the code can read. -/
def isWord (n : Nat) : Bool := n < 2 ^ 64

/-- What the code reads of a range: nothing where it starts beyond its words. -/
def clipped (range : Nat × Option Nat) : Option (Nat × Option Nat) :=
  if isWord range.1 then some (range.1, range.2.filter isWord) else none

theorem parseUsize_eq_filter (s : Chars) : parseUsize s = (number s).filter isWord := by
  ext n
  simp [parseUsize_eq_some_iff, Option.filter_eq_some_iff, isWord]

theorem rangeOf_parseUsize (rangeHeader : Option Chars) :
    rangeOf text parseUsize rangeHeader = (rangeOf text number rangeHeader).bind clipped := by
  simp only [rangeOf, parseUsize_eq_filter]
  cases rangeHeader.bind (rangeParts text) with
  | none => rfl
  | some parts =>
      obtain ⟨start, stop⟩ := parts
      simp only [Option.bind_some]
      cases number start with
      | none => rfl
      | some first =>
          cases number stop with
          | none => by_cases hfirst : isWord first <;> simp [clipped, Option.filter_some, hfirst]
          | some last =>
              by_cases hfirst : isWord first
              · by_cases hle : first ≤ last
                · by_cases hlast : isWord last <;>
                    simp [clipped, Option.filter_some, hfirst, hlast, hle]
                · have hlast : isWord last := by
                    simp only [isWord, decide_eq_true_eq] at hfirst ⊢
                    omega
                  simp [Option.filter_some, hfirst, hlast, hle]
              · by_cases hle : first ≤ last <;> simp [clipped, Option.filter_some, hfirst, hle]

theorem rangeWindow_eq (rangeHeader : Option Chars) :
    rangeWindow text rangeHeader = match rangeOf text parseUsize rangeHeader with
      | some (first, some last) => do
          let limit ← addUsize (last - first) 1
          return (some first, some limit)
      | some (first, none) => .ok (some first, none)
      | none => .ok (none, none) := by
  simp only [rangeWindow, rangeOf]
  cases rangeHeader.bind (rangeParts text) with
  | none => rfl
  | some parts =>
      obtain ⟨start, stop⟩ := parts
      simp only [Option.bind_some]
      cases parseUsize start with
      | none => rfl
      | some first =>
          cases parseUsize stop with
          | none => rfl
          | some last => by_cases hle : first ≤ last <;> simp [hle]

/-- The window that the code takes the rows from. -/
def Window.read (params : Params) (rangeHeader : Option Chars) : Window :=
  .of (rangeOf text parseUsize rangeHeader) ((param params "offset").bind parseUsize)
    ((param params "limit").bind parseUsize)

theorem Window.length_slice_le (window : Window) (rows : List Row) :
    (window.slice rows).length ≤ rows.length - window.start := by
  cases hcount : window.count <;> simp [Window.slice, hcount]

theorem Window.take_getD_eq (window : Window) {rows : List Row} (hlength : rows.length < 2 ^ 63) :
    (rows.drop window.start).take (window.count.getD (2 ^ 64 - 1)) = window.slice rows := by
  cases hcount : window.count with
  | some count => simp [Window.slice, hcount]
  | none =>
      have hshort : (rows.drop window.start).length ≤ 2 ^ 64 - 1 := by
        rw [List.length_drop]
        omega
      rw [Window.slice, hcount, Option.getD_none, List.take_of_length_le hshort]

theorem rangeOf_parseUsize_word {rangeHeader : Option Chars} {first : Nat} {last : Option Nat}
    (h : rangeOf text parseUsize rangeHeader = some (first, last)) :
    first < 2 ^ 64 ∧ ∀ n, last = some n → n < 2 ^ 64 ∧ first ≤ n ∧
      rangeOf text number rangeHeader = some (first, some n) := by
  rw [rangeOf_parseUsize, Option.bind_eq_some_iff] at h
  obtain ⟨⟨first', last'⟩, hrange, hclipped⟩ := h
  obtain ⟨hfirst, heq⟩ := Option.ite_none_right_eq_some.mp hclipped
  obtain ⟨rfl, rfl⟩ := Prod.mk.inj (Option.some.inj heq)
  refine ⟨by simpa [isWord] using hfirst, ?_⟩
  intro n hn
  obtain ⟨rfl, hword⟩ := Option.filter_eq_some_iff.mp hn
  refine ⟨by simpa [isWord] using hword, ?_, hrange⟩
  obtain ⟨parts, -, hparts⟩ := Option.bind_eq_some_iff.mp hrange
  obtain ⟨start, -, hstart⟩ := Option.bind_eq_some_iff.mp hparts
  grind

theorem Window.read_start_lt (params : Params) (rangeHeader : Option Chars) :
    (Window.read text params rangeHeader).start < 2 ^ 64 := by
  cases hrange : rangeOf text parseUsize rangeHeader with
  | some range =>
      obtain ⟨first, last⟩ := range
      have hfirst := (rangeOf_parseUsize_word text hrange).1
      cases last <;> simpa [Window.read, Window.of, hrange] using hfirst
  | none =>
      cases hoffset : (param params "offset").bind parseUsize with
      | none => simp [Window.read, Window.of, hrange, hoffset]
      | some offset =>
          obtain ⟨s, -, hs⟩ := Option.bind_eq_some_iff.mp hoffset
          simpa [Window.read, Window.of, hrange, hoffset] using (parseUsize_eq_some_iff.mp hs).2

theorem rangeWindow_read (params : Params) {rangeHeader : Option Chars}
    (hrange : rangeOf text number rangeHeader ≠ some (0, some (2 ^ 64 - 1))) :
    ∃ rangeOffset rangeLimit,
      rangeWindow text rangeHeader = .ok (rangeOffset, rangeLimit) ∧
      Window.read text params rangeHeader =
        ⟨(rangeOffset.or ((param params "offset").bind parseUsize)).getD 0,
          rangeLimit.or ((param params "limit").bind parseUsize)⟩ := by
  rw [rangeWindow_eq, Window.read]
  cases hread : rangeOf text parseUsize rangeHeader with
  | none => exact ⟨none, none, rfl, rfl⟩
  | some range =>
      obtain ⟨first, last⟩ := range
      cases last with
      | none => exact ⟨some first, none, rfl, by simp [Window.of]⟩
      | some last =>
          obtain ⟨hlast, -, hnumber⟩ := (rangeOf_parseUsize_word text hread).2 last rfl
          have hfits : last - first + 1 < 2 ^ 64 := by
            by_contra hover
            obtain ⟨rfl, rfl⟩ : first = 0 ∧ last = 2 ^ 64 - 1 := by omega
            exact hrange hnumber
          refine ⟨some first, some (last - first + 1), ?_, by simp [Window.of]⟩
          simp only [addUsize, if_pos hfits]
          rfl

theorem rangeWindow_overflow {rangeHeader : Option Chars}
    (hrange : rangeOf text number rangeHeader = some (0, some (2 ^ 64 - 1))) :
    rangeWindow text rangeHeader = .stop .overflow := by
  rw [rangeWindow_eq, rangeOf_parseUsize, hrange]
  rfl

/-- The range that is reported where nothing overflows. -/
def rangeText (isRanged : Bool) (offset count total : Nat) : Option String :=
  if isRanged then
    if total = 0 then some "*/0"
    else some (itemsRange offset (min (offset + count - 1) (total - 1)) total)
  else none

theorem reportedRange_eq (isRanged : Bool) {offset count : Nat} (total : Nat)
    (hreach : offset + count < 2 ^ 64) :
    reportedRange isRanged offset count total = .ok (rangeText isRanged offset count total) := by
  simp only [reportedRange, rangeText, addUsize, if_pos hreach]
  split
  · split <;> rfl
  · rfl

/-- The page of a window that is read. -/
def readPage (rows : List Row) (params : Params) (rangeHeader : Option Chars)
    (preferences : Chars) (window : Window) : Page Json :=
  let jsonRows := (window.slice rows).map toJson
  { status := if rangeHeader.isSome && decide (jsonRows.length < rows.length) then 206 else 200
    rows := jsonRows
    contentRange := rangeText (rangeHeader.isSome || isCount preferences params ||
      decide (0 < window.start) || window.count.isSome) window.start jsonRows.length rows.length }

/-- Every page is that of the window that is read, unless the range is that of all the numbers
of a word. -/
theorem tablePage_eq (result : ResultSet Row) (params : Params) (rangeHeader : Option Chars)
    (preferences : Chars)
    (hrange : rangeOf text number rangeHeader ≠ some (0, some (2 ^ 64 - 1))) :
    tablePage text toJson result.rows params rangeHeader preferences =
      .ok (readPage toJson result.rows params rangeHeader preferences
        (Window.read text params rangeHeader)) := by
  obtain ⟨rangeOffset, rangeLimit, hwindow, hread⟩ := rangeWindow_read text params hrange
  generalize hw : Window.read text params rangeHeader = window at hread ⊢
  have hreach : window.start + ((window.slice result.rows).map toJson).length < 2 ^ 64 := by
    have hstart : window.start < 2 ^ 64 := hw ▸ Window.read_start_lt text params rangeHeader
    have hslice := window.length_slice_le result.rows
    have hlength := result.length_lt
    rw [List.length_map]
    omega
  have hstart : (rangeOffset.or ((param params "offset").bind parseUsize)).getD 0 = window.start :=
    (congrArg Window.start hread).symm
  have hcount : rangeLimit.or ((param params "limit").bind parseUsize) = window.count :=
    (congrArg Window.count hread).symm
  refine Outcome.bind_eq_ok.mpr ⟨_, hwindow, ?_⟩
  dsimp only
  rw [hstart, hcount, window.take_getD_eq result.length_lt]
  exact Outcome.bind_eq_ok.mpr ⟨_, reportedRange_eq _ _ hreach, rfl⟩

theorem tablePage_overflow (rows : List Row) (params : Params) {rangeHeader : Option Chars}
    (preferences : Chars)
    (hrange : rangeOf text number rangeHeader = some (0, some (2 ^ 64 - 1))) :
    tablePage text toJson rows params rangeHeader preferences = .stop .overflow := by
  rw [tablePage, rangeWindow_overflow text hrange]
  rfl

/-! ## The window that is read against the one that is asked for -/

theorem bind_parseUsize (o : Option Chars) : o.bind parseUsize = (o.bind number).filter isWord := by
  cases o with
  | none => rfl
  | some s => exact parseUsize_eq_filter s

theorem Window.read_eq (params : Params) (rangeHeader : Option Chars) :
    Window.read text params rangeHeader =
      .of ((rangeOf text number rangeHeader).bind clipped)
        (((param params "offset").bind number).filter isWord)
        (((param params "limit").bind number).filter isWord) := by
  rw [Window.read, rangeOf_parseUsize, bind_parseUsize, bind_parseUsize]

/-- A count beyond a word takes every row, as no count does. -/
theorem Window.slice_filter (start : Nat) (count : Option Nat) {rows : List Row}
    (hlength : rows.length < 2 ^ 63) :
    (Window.mk start (count.filter isWord)).slice rows = (Window.mk start count).slice rows := by
  cases count with
  | none => rfl
  | some count =>
      by_cases hcount : isWord count
      · rw [Option.filter_some, if_pos hcount]
      · rw [Option.filter_some, if_neg hcount]
        have hshort : (rows.drop start).length ≤ count := by
          simp only [isWord, decide_eq_true_eq] at hcount
          rw [List.length_drop]
          omega
        simp [Window.slice, List.take_of_length_le hshort]

theorem getD_filter_isWord {o : Option Nat} (h : o.getD 0 < 2 ^ 64) :
    (o.filter isWord).getD 0 = o.getD 0 := by
  cases o with
  | none => rfl
  | some n =>
      have hn : isWord n := by simpa [isWord] using h
      rw [Option.filter_some, if_pos hn]

/-- Where the window starts within a word, it is read from the same row. -/
theorem Window.read_start (params : Params) (rangeHeader : Option Chars)
    (hstart : (Window.asked text params rangeHeader).start < 2 ^ 64) :
    (Window.read text params rangeHeader).start = (Window.asked text params rangeHeader).start := by
  rw [Window.read_eq]
  rw [Window.asked] at hstart ⊢
  cases hrange : rangeOf text number rangeHeader with
  | none =>
      rw [hrange] at hstart
      exact getD_filter_isWord hstart
  | some range =>
      obtain ⟨first, last⟩ := range
      rw [hrange] at hstart
      have hfirst : isWord first := by cases last <;> simpa [isWord, Window.of] using hstart
      rw [Option.bind_some, clipped, if_pos hfirst]
      cases last with
      | none => rfl
      | some last => by_cases hlast : isWord last <;> simp [Window.of, Option.filter_some, hlast]

/-- A range that reaches beyond a word is read without its end, so that the limit counts. -/
theorem Window.slice_read_beyond (params : Params) {rangeHeader : Option Chars} {first last : Nat}
    (hrange : rangeOf text number rangeHeader = some (first, some last)) (hfirst : first < 2 ^ 64)
    (hlast : 2 ^ 64 ≤ last) (result : ResultSet Row) :
    (Window.read text params rangeHeader).slice result.rows =
      (Window.mk first ((param params "limit").bind number)).slice result.rows := by
  have hword : isWord first := by simpa [isWord] using hfirst
  have hbeyond : ¬isWord last := by simpa [isWord] using hlast
  have hwords : clipped (first, some last) = some (first, none) := by
    simp [clipped, hword, Option.filter_some, hbeyond]
  rw [Window.read_eq, hrange, Option.bind_some, hwords]
  exact Window.slice_filter _ _ result.length_lt

theorem Window.slice_none (start : Nat) {count : Option Nat} {rows : List Row}
    (h : ∀ n, count = some n → rows.length ≤ start + n) :
    (Window.mk start count).slice rows = rows.drop start := by
  cases count with
  | none => rfl
  | some n =>
      have hshort : (rows.drop start).length ≤ n := by
        have hn := h n rfl
        rw [List.length_drop]
        omega
      exact List.take_of_length_le hshort

theorem Window.slice_asked_beyond (params : Params) {rangeHeader : Option Chars} {first last : Nat}
    (hrange : rangeOf text number rangeHeader = some (first, some last)) (hlast : 2 ^ 64 ≤ last)
    (result : ResultSet Row) :
    (Window.asked text params rangeHeader).slice result.rows = result.rows.drop first := by
  have hlength := result.length_lt
  rw [Window.asked, hrange]
  refine Window.slice_none first fun n hn => ?_
  have hn : last - first + 1 = n := Option.some.inj hn
  omega

theorem Window.slice_read (params : Params) (rangeHeader : Option Chars) (result : ResultSet Row)
    (hstart : (Window.asked text params rangeHeader).start < 2 ^ 64)
    (hcuts : ¬limitCuts text params rangeHeader result.rows.length) :
    (Window.read text params rangeHeader).slice result.rows =
      (Window.asked text params rangeHeader).slice result.rows := by
  cases hrange : rangeOf text number rangeHeader with
  | none =>
      rw [Window.asked, hrange] at hstart ⊢
      rw [Window.read_eq, hrange]
      have hoffset := getD_filter_isWord hstart
      exact (congrArg (fun start => (Window.mk start _).slice result.rows) hoffset).trans
        (Window.slice_filter _ _ result.length_lt)
  | some range =>
      obtain ⟨first, last⟩ := range
      have hfirst : first < 2 ^ 64 := by
        rw [Window.asked, hrange] at hstart
        cases last <;> exact hstart
      have hword : isWord first := by simpa [isWord] using hfirst
      cases last with
      | none =>
          rw [Window.asked, Window.read_eq, hrange, Option.bind_some, clipped, if_pos hword]
          exact Window.slice_filter _ _ result.length_lt
      | some last =>
          by_cases hlast : last < 2 ^ 64
          · have hlast : isWord last := by simpa [isWord] using hlast
            rw [Window.asked, Window.read_eq, hrange, Option.bind_some, clipped, if_pos hword,
              Option.filter_some, if_pos hlast]
            rfl
          · have hlast : 2 ^ 64 ≤ last := by omega
            rw [Window.slice_read_beyond text params hrange hfirst hlast,
              Window.slice_asked_beyond text params hrange hlast]
            refine Window.slice_none first fun limit hlimit => ?_
            by_contra hshort
            exact hcuts ⟨first, last, limit, hrange, hlast, hlimit, by omega⟩

/-- A limit that cuts a range leaves rows of it out. -/
theorem Window.length_slice_read_lt (params : Params) (rangeHeader : Option Chars)
    (result : ResultSet Row) (hcuts : limitCuts text params rangeHeader result.rows.length) :
    ((Window.read text params rangeHeader).slice result.rows).length <
      ((Window.asked text params rangeHeader).slice result.rows).length := by
  obtain ⟨first, last, limit, hrange, hlast, hlimit, hshort⟩ := hcuts
  have hlength := result.length_lt
  have hfirst : first < 2 ^ 64 := by omega
  rw [Window.slice_read_beyond text params hrange hfirst hlast,
    Window.slice_asked_beyond text params hrange hlast, hlimit]
  have htaken := List.length_take_le limit (result.rows.drop first)
  have hdropped : (result.rows.drop first).length = result.rows.length - first := List.length_drop
  exact Nat.lt_of_le_of_lt htaken (by omega)

/-! ## Pages that serve their request -/

theorem itemsRange_ne (start stop total : Nat) :
    itemsRange start stop total ≠ "*/" ++ toString total := by
  intro h
  have hmem : '*' ∈ (itemsRange start stop total).toList := by
    rw [h, String.toList_append]
    exact List.mem_append_left _ (by decide)
  have hdigits : ∀ n, '*' ∉ (toString n).toList := Separated.notMem_toString rfl
  simp only [itemsRange, String.toList_append, List.mem_append] at hmem
  rcases hmem with (((hmem | hmem) | hmem) | hmem) | hmem
  · exact hdigits start hmem
  · exact absurd hmem (by decide)
  · exact hdigits stop hmem
  · exact absurd hmem (by decide)
  · exact hdigits total hmem

/-- The rows that are asked for are there, and the code can read how many they are. -/
def Reachable (params : Params) (rangeHeader : Option Chars) (rows : List Row) : Prop :=
  rangeOf text number rangeHeader ≠ some (0, some (2 ^ 64 - 1)) ∧
    (rows = [] ∨ (Window.asked text params rangeHeader).slice rows ≠ [] ∧
      ¬limitCuts text params rangeHeader rows.length)

theorem serves_of_nil (params : Params) (rangeHeader : Option Chars) (preferences : Chars)
    (window asked : Window) :
    (readPage toJson [] params rangeHeader preferences window).Serves toJson asked [] := by
  have hnil : ∀ window : Window, window.slice ([] : List Row) = [] := by
    intro window
    cases hcount : window.count <;> simp [Window.slice, hcount]
  refine ⟨by simp only [readPage, hnil], fun range hrange => ?_⟩
  simp only [readPage, hnil, rangeText, List.map_nil, List.length_nil, if_pos]
    at hrange ⊢
  obtain ⟨-, htext⟩ := Option.ite_none_right_eq_some.mp hrange
  obtain rfl := Option.some.inj htext
  rfl

/-- An empty page of a result is described as rows of it. -/
theorem slice_ne_nil_of_serves {rows : List Row} (hrows : rows ≠ []) (params : Params)
    (rangeHeader : Option Chars) (preferences : Chars) {window asked : Window}
    (hserves : (readPage toJson rows params rangeHeader preferences window).Serves toJson asked rows) :
    asked.slice rows ≠ [] := by
  intro hslice
  obtain ⟨hpage, hdescribes⟩ := hserves
  have hempty : window.slice rows = [] := by
    rw [hslice] at hpage
    exact List.map_eq_nil_iff.mp hpage
  have hlength : rows.length ≠ 0 := fun h => hrows (List.length_eq_zero_iff.mp h)
  simp only [readPage, hempty, rangeText, List.map_nil, List.length_nil, if_neg hlength]
    at hdescribes
  by_cases hranged : (rangeHeader.isSome || isCount preferences params ||
      decide (0 < window.start) || window.count.isSome) = true
  · rw [if_pos hranged] at hdescribes
    have htext := hdescribes _ rfl
    rw [Describes, if_pos rfl] at htext
    exact itemsRange_ne _ _ _ htext
  · have hall : window.start = 0 ∧ window.count = none := by
      simp only [Bool.not_eq_true, Bool.or_eq_false_iff, decide_eq_false_iff_not,
        Option.isSome_eq_false_iff, Option.isNone_iff_eq_none] at hranged
      exact ⟨by omega, hranged.2⟩
    rw [Window.slice, hall.2, hall.1] at hempty
    exact hrows hempty

theorem serves_of_slice {rows : List Row} {params : Params} {rangeHeader : Option Chars}
    (preferences : Chars) {window asked : Window} (hstart : window.start = asked.start)
    (hslice : window.slice rows = asked.slice rows) (hne : asked.slice rows ≠ []) :
    (readPage toJson rows params rangeHeader preferences window).Serves toJson asked rows := by
  refine ⟨congrArg (List.map toJson) hslice, fun range hrange => ?_⟩
  have hpos : 0 < (asked.slice rows).length := List.length_pos_iff.mpr hne
  have hle := asked.length_slice_le rows
  simp only [readPage, hstart, hslice, List.length_map] at hrange ⊢
  obtain ⟨-, htext⟩ := Option.ite_none_right_eq_some.mp hrange
  rw [if_neg (by omega)] at htext
  rw [Describes, if_neg (by omega), ← Option.some.inj htext]
  congr 1
  omega

theorem table_page_iff (result : ResultSet Row) (params : Params) (rangeHeader : Option Chars)
    (preferences : Chars) :
    (∃ page, tablePage text toJson result.rows params rangeHeader preferences = .ok page ∧
      page.Serves toJson (Window.asked text params rangeHeader) result.rows) ↔
      Reachable text params rangeHeader result.rows := by
  by_cases hrange : rangeOf text number rangeHeader = some (0, some (2 ^ 64 - 1))
  · rw [tablePage_overflow text toJson _ params preferences hrange, Reachable]
    simp [hrange]
  · rw [tablePage_eq text toJson result params rangeHeader preferences hrange, Reachable]
    simp only [Outcome.ok.injEq, exists_eq_left', ne_eq, hrange, not_false_eq_true, true_and]
    obtain hnil | hrows := eq_or_ne result.rows []
    · simpa [hnil] using serves_of_nil toJson params rangeHeader preferences _ _
    simp only [hrows, false_or]
    constructor
    · intro hserves
      refine ⟨slice_ne_nil_of_serves toJson hrows params rangeHeader preferences hserves, ?_⟩
      intro hcuts
      have hshort := Window.length_slice_read_lt text params rangeHeader result hcuts
      have hlength := congrArg List.length hserves.1
      simp only [readPage, List.length_map] at hlength
      omega
    · rintro ⟨hne, hcuts⟩
      have hstart : (Window.asked text params rangeHeader).start < 2 ^ 64 := by
        have hpos := List.length_pos_iff.mpr hne
        have hle := (Window.asked text params rangeHeader).length_slice_le result.rows
        have hlength := result.length_lt
        omega
      exact serves_of_slice toJson preferences (Window.read_start text params rangeHeader hstart)
        (Window.slice_read text params rangeHeader result hstart hcuts) hne

end Requests

/-- An offset past the end of three rows is answered with the range `5-2/3`. -/
theorem offset_past_end :
    let params : Params := [("offset".toList, "5".toList)]
    tablePage asciiLibrary id [1, 2, 3] params none [] = .ok ⟨200, [], some "5-2/3"⟩ ∧
      ¬∃ page, tablePage asciiLibrary id [1, 2, 3] params none [] = .ok page ∧
        page.Serves id (Window.asked asciiLibrary params none) [1, 2, 3] := by
  intro params
  have hpage : tablePage asciiLibrary id [1, 2, 3] params none [] =
      .ok ⟨200, [], some "5-2/3"⟩ := by decide +kernel
  refine ⟨hpage, ?_⟩
  rintro ⟨page, h, -, hdescribes⟩
  obtain rfl := Outcome.ok.inj (hpage.symm.trans h)
  exact absurd (hdescribes _ rfl) (by decide : ¬("5-2/3" = "*/" ++ toString 3))

end ChocoBase.Http
