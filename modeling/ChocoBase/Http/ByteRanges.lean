import ChocoBase.Foundation.Separated
import ChocoBase.Http.Digits
import ChocoBase.Server.RestSql

/-!
# Byte ranges

Both download routes read a `Range` header in the same way.  The bounds of a range are
numbers of any size; without a first bound it asks for the last bytes.
-/

namespace ChocoBase.Http

open ChocoBase.Foundation ChocoBase.Types
open Text (Chars)
open Plan (parseUsize)
open Server.Rest (stripPrefix)

/-! ## Answers -/

/-- `bytes[start..=end]` -/
def sliceInclusive (bytes : Bytes) (start stop : Nat) : Outcome Empty Bytes :=
  if start ≤ stop + 1 ∧ stop < bytes.length then .ok ((bytes.drop start).take (stop + 1 - start))
  else .stop .panic

def contentRange (start stop total : Nat) : String :=
  "bytes " ++ toString start ++ "-" ++ toString stop ++ "/" ++ toString total

/-- `start` and `end`, as they are read from the parts of a range. -/
def rangeBounds (rangeVal : Chars) (totalLen : Nat) : Nat × Nat :=
  let parts := Text.splitOn '-' rangeVal
  let start := (parseUsize (parts.headD [])).getD 0
  let stop := match parts[1]? with
    | some part =>
        if part ≠ [] then min ((parseUsize part).getD (totalLen - 1)) (totalLen - 1)
        else totalLen - 1
    | none => totalLen - 1
  (start, stop)

/-- Status, body and `Content-Range`. -/
def rangeAnswer (bytes : Bytes) (rangeHeader : Option Chars) :
    Outcome Empty (Nat × Bytes × Option String) :=
  match rangeHeader.bind (stripPrefix "bytes=".toList) with
  | some rangeVal =>
      let totalLen := bytes.length
      let (start, stop) := rangeBounds rangeVal totalLen
      if start < totalLen ∧ start ≤ stop then do
        let slice ← sliceInclusive bytes start stop
        return (206, slice, some (contentRange start stop totalLen))
      else .ok (200, bytes, none)
  | none => .ok (200, bytes, none)

structure Download where
  status : Nat
  body : Bytes
  contentType : String
  contentRange : Option String
  etag : String

def endsWith (key : Chars) (ending : String) : Bool := ending.toList.isSuffixOf key

def objectContentType (objectKey : Chars) : String :=
  if endsWith objectKey ".png" then "image/png"
  else if endsWith objectKey ".jpg" ∨ endsWith objectKey ".jpeg" then "image/jpeg"
  else if endsWith objectKey ".json" then "application/json"
  else if endsWith objectKey ".txt" then "text/plain"
  else "application/octet-stream"

section Routes

variable (sha256Hex : Bytes → String)

def download (contentType : String) (bytes : Bytes) (rangeHeader : Option Chars) :
    Outcome Empty Download := do
  let (status, body, range) ← rangeAnswer bytes rangeHeader
  return ⟨status, body, contentType, range, "\"" ++ sha256Hex bytes ++ "\""⟩

def s3Get (bytes : Bytes) (rangeHeader : Option Chars) : Outcome Empty Download :=
  download sha256Hex "application/octet-stream" bytes rangeHeader

def objectGet (objectKey : Chars) (bytes : Bytes) (rangeHeader : Option Chars) :
    Outcome Empty Download :=
  download sha256Hex (objectContentType objectKey) bytes rangeHeader

end Routes

/-! ## What a range asks for -/

inductive RangeSpec where
  | between (first last : Digits)
  | onwards (first : Digits)
  | suffix (count : Digits)

namespace RangeSpec

def header : RangeSpec → Chars
  | between first last => "bytes=".toList ++ (first.text ++ '-' :: last.text)
  | onwards first => "bytes=".toList ++ (first.text ++ ['-'])
  | suffix count => "bytes=".toList ++ '-' :: count.text

/-- The first and the last byte that are asked for, where the range can be satisfied. -/
def bounds (len : Nat) : RangeSpec → Option (Nat × Nat)
  | between first last =>
      if first.value ≤ last.value ∧ first.value < len then
        some (first.value, min last.value (len - 1))
      else none
  | onwards first => if first.value < len then some (first.value, len - 1) else none
  | suffix count => if 0 < count.value ∧ 0 < len then some (len - count.value, len - 1) else none

/-- The range is answered as the protocol says. -/
def Answers (spec : RangeSpec) (bytes : Bytes) (answer : Download) : Prop :=
  match spec.bounds bytes.length with
  | some (first, last) => answer.status = 206 ∧
      answer.body = (bytes.drop first).take (last + 1 - first) ∧
      answer.contentRange = some (Http.contentRange first last bytes.length)
  | none => answer.status = 416 ∨
      answer.status = 200 ∧ answer.body = bytes ∧ answer.contentRange = none

/-- A first bound that the code can read, or a suffix of at least the whole. -/
def Read (len : Nat) : RangeSpec → Prop
  | between first _ | onwards first => len = 0 ∨ first.value < 2 ^ 64
  | suffix count => len ≤ count.value

end RangeSpec

/-! ## Reading a range -/

/-- What stands behind `bytes=`. -/
def RangeSpec.rangeVal : RangeSpec → Chars
  | between first last => first.text ++ '-' :: last.text
  | onwards first => first.text ++ ['-']
  | suffix count => '-' :: count.text

theorem RangeSpec.header_eq (spec : RangeSpec) : spec.header = "bytes=".toList ++ spec.rangeVal := by
  cases spec <;> rfl

theorem rangeBounds_between (first last : Digits) (len : Nat) :
    rangeBounds (RangeSpec.between first last).rangeVal len =
      (if first.value < 2 ^ 64 then first.value else 0,
        min (if last.value < 2 ^ 64 then last.value else len - 1) (len - 1)) := by
  have hsplit : Text.splitOn '-' (first.text ++ '-' :: last.text) = [first.text, last.text] := by
    rw [Text.splitOn_append, Text.splitOn_of_notMem first.dash_notMem,
      Text.splitOn_of_notMem last.dash_notMem]
    rfl
  simp [rangeBounds, RangeSpec.rangeVal, hsplit, last.text_ne_nil, Digits.getD_parseUsize]

theorem rangeBounds_onwards (first : Digits) (len : Nat) :
    rangeBounds (RangeSpec.onwards first).rangeVal len =
      (if first.value < 2 ^ 64 then first.value else 0, len - 1) := by
  have hsplit : Text.splitOn '-' (first.text ++ ['-']) = [first.text, []] := by
    rw [Text.splitOn_append, Text.splitOn_of_notMem first.dash_notMem]
    rfl
  simp [rangeBounds, RangeSpec.rangeVal, hsplit, Digits.getD_parseUsize]

/-- Where there is no first bound, zero takes its place. -/
theorem rangeBounds_suffix (count : Digits) (len : Nat) :
    rangeBounds (RangeSpec.suffix count).rangeVal len =
      (0, min (if count.value < 2 ^ 64 then count.value else len - 1) (len - 1)) := by
  have hsplit : Text.splitOn '-' ('-' :: count.text) = [[], count.text] := by
    rw [Text.splitOn, if_pos rfl, Text.splitOn_of_notMem count.dash_notMem]
  have hempty : (parseUsize []).getD 0 = 0 := rfl
  simp [rangeBounds, RangeSpec.rangeVal, hsplit, hempty, count.text_ne_nil, Digits.getD_parseUsize]

/-- The answer to a range, by the bounds that the code takes. -/
theorem download_header (sha256Hex : Bytes → String) (contentType : String) (bytes : Bytes)
    (spec : RangeSpec) {start stop : Nat}
    (hbounds : rangeBounds spec.rangeVal bytes.length = (start, stop))
    (hstop : stop ≤ bytes.length - 1) :
    ∃ answer, download sha256Hex contentType bytes (some spec.header) = .ok answer ∧
      if start < bytes.length ∧ start ≤ stop then
        answer.status = 206 ∧ answer.body = (bytes.drop start).take (stop + 1 - start) ∧
          answer.contentRange = some (contentRange start stop bytes.length)
      else answer.status = 200 ∧ answer.body = bytes ∧ answer.contentRange = none := by
  have hstrip : stripPrefix "bytes=".toList spec.header = some spec.rangeVal := by
    rw [spec.header_eq, stripPrefix,
      if_pos (List.isPrefixOf_iff_prefix.mpr (List.prefix_append _ _)), List.drop_left]
  rw [download, rangeAnswer, Option.bind_some, hstrip]
  dsimp only
  rw [hbounds]
  dsimp only
  by_cases hfits : start < bytes.length ∧ start ≤ stop
  · have hslice : sliceInclusive bytes start stop =
        .ok ((bytes.drop start).take (stop + 1 - start)) :=
      if_pos ⟨by omega, by omega⟩
    rw [if_pos hfits, hslice]
    refine ⟨_, rfl, ?_⟩
    rw [if_pos hfits]
    exact ⟨rfl, rfl, rfl⟩
  · rw [if_neg hfits]
    refine ⟨_, rfl, ?_⟩
    rw [if_neg hfits]
    exact ⟨rfl, rfl, rfl⟩

/-! ## Ranges that are answered right -/

/-- What a vector of bytes can hold. -/
structure Contents where
  bytes : Bytes
  fits : bytes.length < 2 ^ 63

/-- With the right bounds, or with none where there are none, the answer is right. -/
theorem answers_of_bounds {spec : RangeSpec} {bytes : Bytes} {answer : Download} {start stop : Nat}
    (h : if start < bytes.length ∧ start ≤ stop then
        answer.status = 206 ∧ answer.body = (bytes.drop start).take (stop + 1 - start) ∧
          answer.contentRange = some (contentRange start stop bytes.length)
      else answer.status = 200 ∧ answer.body = bytes ∧ answer.contentRange = none)
    (hbounds : spec.bounds bytes.length =
      if start < bytes.length ∧ start ≤ stop then some (start, stop) else none) :
    spec.Answers bytes answer := by
  rw [RangeSpec.Answers, hbounds]
  by_cases hfits : start < bytes.length ∧ start ≤ stop
  · rw [if_pos hfits] at h ⊢
    exact h
  · rw [if_neg hfits] at h ⊢
    exact .inr h

/-- A part of the object answers nothing that cannot be satisfied. -/
theorem not_answers_of_partial {spec : RangeSpec} {bytes : Bytes} {answer : Download}
    (hstatus : answer.status = 206) (hbounds : spec.bounds bytes.length = none) :
    ¬spec.Answers bytes answer := by
  rw [RangeSpec.Answers, hbounds]
  rintro (h | h)
  · exact absurd (hstatus.symm.trans h) (by decide)
  · exact absurd (hstatus.symm.trans h.1) (by decide)

theorem contentRange_start_ne {start stop start' stop' total : Nat} (h : start ≠ start') :
    contentRange start stop total ≠ contentRange start' stop' total := by
  intro heq
  have hlists := congrArg String.toList heq
  simp only [contentRange, String.toList_append, List.append_assoc] at hlists
  have hrest := List.append_cancel_left hlists
  have hdash : ∀ n : Nat, '-' ∉ (toString n).toList := Separated.notMem_toString (by decide)
  have hsplit := congrArg (fun s => (Text.splitOn '-' s).headD []) hrest
  have hfirst : ∀ (n : Nat) (rest : Chars),
      (Text.splitOn '-' ((toString n).toList ++ ("-".toList ++ rest))).headD [] =
        (toString n).toList := by
    intro n rest
    rw [show "-".toList ++ rest = '-' :: rest from rfl, Text.splitOn_append,
      Text.splitOn_of_notMem (hdash n)]
    rfl
  rw [hfirst, hfirst] at hsplit
  exact h (Separated.toString_inj hsplit)

variable {sha256Hex : Bytes → String} {contentType : String}

theorem download_between_iff (contents : Contents) (first last : Digits) :
    (∃ answer, download sha256Hex contentType contents.bytes
        (some (RangeSpec.between first last).header) = .ok answer ∧
      (RangeSpec.between first last).Answers contents.bytes answer) ↔
        contents.bytes.length = 0 ∨ first.value < 2 ^ 64 := by
  have hfits := contents.fits
  have hstop : min (if last.value < 2 ^ 64 then last.value else contents.bytes.length - 1)
      (contents.bytes.length - 1) = min last.value (contents.bytes.length - 1) := by
    split <;> omega
  have hbounds := rangeBounds_between first last contents.bytes.length
  rw [hstop] at hbounds
  obtain ⟨answer, hanswer, hright⟩ := download_header sha256Hex contentType contents.bytes _ hbounds
    (Nat.min_le_right _ _)
  constructor
  · rintro ⟨answer', hanswer', hanswers⟩
    obtain rfl := Outcome.ok.inj (hanswer.symm.trans hanswer')
    by_contra hunread
    obtain ⟨hsome, hbig⟩ := not_or.mp hunread
    rw [if_neg hbig, if_pos ⟨Nat.pos_of_ne_zero hsome, Nat.zero_le _⟩] at hright
    refine not_answers_of_partial hright.1 ?_ hanswers
    exact if_neg fun hboth => hbig (by omega)
  · intro hread
    refine ⟨answer, hanswer, answers_of_bounds hright ?_⟩
    rw [RangeSpec.bounds]
    rcases hread with hzero | hsmall
    · rw [if_neg (by omega), if_neg (by omega)]
    · rw [if_pos hsmall]
      by_cases hboth : first.value ≤ last.value ∧ first.value < contents.bytes.length
      · rw [if_pos hboth, if_pos (by omega)]
      · rw [if_neg hboth, if_neg (by omega)]

theorem download_onwards_iff (contents : Contents) (first : Digits) :
    (∃ answer, download sha256Hex contentType contents.bytes
        (some (RangeSpec.onwards first).header) = .ok answer ∧
      (RangeSpec.onwards first).Answers contents.bytes answer) ↔
        contents.bytes.length = 0 ∨ first.value < 2 ^ 64 := by
  have hfits := contents.fits
  obtain ⟨answer, hanswer, hright⟩ := download_header sha256Hex contentType contents.bytes _
    (rangeBounds_onwards first contents.bytes.length) (Nat.le_refl _)
  constructor
  · rintro ⟨answer', hanswer', hanswers⟩
    obtain rfl := Outcome.ok.inj (hanswer.symm.trans hanswer')
    by_contra hunread
    obtain ⟨hsome, hbig⟩ := not_or.mp hunread
    rw [if_neg hbig, if_pos ⟨Nat.pos_of_ne_zero hsome, Nat.zero_le _⟩] at hright
    refine not_answers_of_partial hright.1 ?_ hanswers
    exact if_neg fun hsmall => hbig (by omega)
  · intro hread
    refine ⟨answer, hanswer, answers_of_bounds hright ?_⟩
    rw [RangeSpec.bounds]
    rcases hread with hzero | hsmall
    · rw [if_neg (by omega), if_neg (by omega)]
    · rw [if_pos hsmall]
      by_cases hfirst : first.value < contents.bytes.length
      · rw [if_pos hfirst, if_pos (by omega)]
      · rw [if_neg hfirst, if_neg (by omega)]

theorem download_suffix_iff (contents : Contents) (count : Digits) :
    (∃ answer, download sha256Hex contentType contents.bytes
        (some (RangeSpec.suffix count).header) = .ok answer ∧
      (RangeSpec.suffix count).Answers contents.bytes answer) ↔
        contents.bytes.length ≤ count.value := by
  have hfits := contents.fits
  have hstop : min (if count.value < 2 ^ 64 then count.value else contents.bytes.length - 1)
      (contents.bytes.length - 1) = min count.value (contents.bytes.length - 1) := by
    split <;> omega
  have hbounds := rangeBounds_suffix count contents.bytes.length
  rw [hstop] at hbounds
  obtain ⟨answer, hanswer, hright⟩ := download_header sha256Hex contentType contents.bytes _ hbounds
    (Nat.min_le_right _ _)
  constructor
  · rintro ⟨answer', hanswer', hanswers⟩
    obtain rfl := Outcome.ok.inj (hanswer.symm.trans hanswer')
    by_contra hshort
    rw [if_pos ⟨by omega, Nat.zero_le _⟩] at hright
    by_cases hnone : count.value = 0
    · refine not_answers_of_partial hright.1 ?_ hanswers
      exact if_neg fun hboth => absurd hboth.1 (by omega)
    · have hasked : (RangeSpec.suffix count).bounds contents.bytes.length =
          some (contents.bytes.length - count.value, contents.bytes.length - 1) :=
        if_pos ⟨by omega, by omega⟩
      rw [RangeSpec.Answers, hasked] at hanswers
      have hsame := Option.some.inj (hright.2.2.symm.trans hanswers.2.2)
      exact contentRange_start_ne (by omega) hsame
  · intro hlong
    refine ⟨answer, hanswer, answers_of_bounds hright ?_⟩
    rw [RangeSpec.bounds]
    by_cases hzero : contents.bytes.length = 0
    · rw [if_neg (by omega), if_neg (by omega)]
    · rw [if_pos (by omega), if_pos (by omega), Nat.sub_eq_zero_of_le hlong,
        Nat.min_eq_right (by omega)]

theorem download_iff (contents : Contents) (spec : RangeSpec) :
    (∃ answer, download sha256Hex contentType contents.bytes (some spec.header) = .ok answer ∧
      spec.Answers contents.bytes answer) ↔ spec.Read contents.bytes.length := by
  cases spec with
  | between first last => exact download_between_iff contents first last
  | onwards first => exact download_onwards_iff contents first
  | suffix count => exact download_suffix_iff contents count

/-- Both routes answer a range right, or both do not. -/
theorem byte_ranges_iff (sha256Hex : Bytes → String) (objectKey : Chars) (contents : Contents)
    (spec : RangeSpec) :
    ((∃ answer, s3Get sha256Hex contents.bytes (some spec.header) = .ok answer ∧
        spec.Answers contents.bytes answer) ↔ spec.Read contents.bytes.length) ∧
      ((∃ answer, objectGet sha256Hex objectKey contents.bytes (some spec.header) = .ok answer ∧
        spec.Answers contents.bytes answer) ↔ spec.Read contents.bytes.length) :=
  ⟨download_iff contents spec, download_iff contents spec⟩

/-- The last two bytes of ten are asked for, and the first three come. -/
theorem byte_range_suffix :
    let spec := RangeSpec.suffix ⟨['2'], by decide, Text.forall_mem_of_all (by decide)⟩
    spec.header = "bytes=-2".toList ∧
      rangeAnswer [0, 1, 2, 3, 4, 5, 6, 7, 8, 9] (some spec.header) =
        .ok (206, [0, 1, 2], some "bytes 0-2/10") ∧
      ∀ sha256Hex objectKey, ¬(∃ answer, objectGet sha256Hex objectKey [0, 1, 2, 3, 4, 5, 6, 7, 8, 9]
        (some spec.header) = .ok answer ∧ spec.Answers [0, 1, 2, 3, 4, 5, 6, 7, 8, 9] answer) := by
  intro spec
  refine ⟨by decide, by decide +kernel, fun sha256Hex objectKey h => ?_⟩
  have hread := (download_iff ⟨[0, 1, 2, 3, 4, 5, 6, 7, 8, 9], by decide⟩ spec).mp h
  exact absurd hread (show ¬10 ≤ 2 by decide)

end ChocoBase.Http
