import ChocoBase.Foundation.Bytes
import ChocoBase.Foundation.Exec
import ChocoBase.Types.Value
import Mathlib.Data.List.Infix

/-!
# WebSocket frames

A frame is a header of 2 to 14 bytes and a payload.  The header gives the length of
the payload in 7, 16 or 64 bits and the mask, if there is one.
-/

namespace ChocoBase.Server.WebSocket

open ChocoBase.Foundation ChocoBase.Types

/-- The most bytes that a slice or a vector holds, `isize::MAX`. -/
def maxBytes : Nat := 2 ^ 63 - 1

/-- The key of a masked frame, 4 bytes. -/
abbrev Mask := Vector UInt8 4

def Mask.byte (m : Mask) (i : Nat) : UInt8 := m.get ⟨i % 4, Nat.mod_lt i (by decide)⟩

def Mask.apply (m : Mask) (payload : Bytes) : Bytes := payload.mapIdx fun i b => b ^^^ m.byte i

def applyMask : Option Mask → Bytes → Bytes
  | none, payload => payload
  | some m, payload => m.apply payload

/-! ## Encoding and decoding -/

def encodeTextFrame (text : String) : Bytes :=
  let payload := utf8 text
  let len := payload.length
  0x81 ::
    (if len < 126 then [UInt8.ofNat len]
    else if len ≤ 65535 then 126 :: beBytes 2 len
    else 127 :: beBytes 8 len) ++ payload

section Decode

/-- `buf[i]` -/
def index (buf : Bytes) (i : Nat) : Outcome Empty UInt8 := .unwrap buf[i]?

/-- `[buf[start], buf[start + 1], ..]`, `count` bytes -/
def indexed (buf : Bytes) (start : Nat) : Nat → Outcome Empty Bytes
  | 0 => .ok []
  | count + 1 => do
      let b ← index buf start
      let bs ← indexed buf (start + 1) count
      return b :: bs

/-- `buf[start..stop]` -/
def range (buf : Bytes) (start stop : Nat) : Outcome Empty Bytes :=
  if start ≤ stop ∧ stop ≤ buf.length then .ok ((buf.drop start).take (stop - start))
  else .stop .panic

/-- `a + b` of type `usize`; it wraps around where the build has no overflow checks. -/
def addUsize (checks : Bool) (a b : Nat) : Outcome Empty Nat :=
  if a + b < 2 ^ 64 then .ok (a + b)
  else if checks then .stop .overflow
  else .ok ((a + b) % 2 ^ 64)

/-- The length of the payload and the cursor after it, if the buffer has all of it. -/
def readLength (buf : Bytes) (code : Nat) : Outcome Empty (Option (Nat × Nat)) :=
  if code = 126 then
    if buf.length < 2 + 2 then .ok none
    else do
      let bs ← indexed buf 2 2
      return some (beValue bs, 2 + 2)
  else if code = 127 then
    if buf.length < 2 + 8 then .ok none
    else do
      let bs ← indexed buf 2 8
      return some (beValue bs, 2 + 8)
  else .ok (some (code, 2))

def readMask (buf : Bytes) (masked : Bool) (cursor : Nat) :
    Outcome Empty (Option (Option Mask × Nat)) :=
  if masked then
    if buf.length < cursor + 4 then .ok none
    else do
      let a ← index buf cursor
      let b ← index buf (cursor + 1)
      let c ← index buf (cursor + 2)
      let d ← index buf (cursor + 3)
      return some (some #v[a, b, c, d], cursor + 4)
  else .ok (some (none, cursor))

variable (checks : Bool)

/-- The header is all there; `payloadLen` is whatever the peer wrote. -/
def readPayload (buf : Bytes) (opcode : UInt8) (mask : Option Mask) (cursor payloadLen : Nat) :
    Outcome Empty (Option (UInt8 × Bytes × Nat)) := do
  let stop ← addUsize checks cursor payloadLen
  if buf.length < stop then return none
  else
    let payload ← range buf cursor stop
    return some (opcode, applyMask mask payload, stop)

/-- The opcode, the payload and the length of the frame at the start of a buffer. -/
def decodeFrame (buf : Bytes) : Outcome Empty (Option (UInt8 × Bytes × Nat)) :=
  if buf.length < 2 then .ok none
  else do
    let first ← index buf 0
    let second ← index buf 1
    match ← readLength buf (second &&& 0x7F).toNat with
    | none => return none
    | some (payloadLen, cursor) =>
        match ← readMask buf (second &&& 0x80 ≠ 0) cursor with
        | none => return none
        | some (mask, cursor) => readPayload checks buf (first &&& 0x0F) mask cursor payloadLen

end Decode

/-! ## What a buffer says at its start -/

section Header

def lengthCode (buf : Bytes) : Nat := (buf.getD 1 0 &&& 0x7F).toNat

/-- The bytes that the length takes up in addition to the code. -/
def lengthWidth (code : Nat) : Nat := if code = 126 then 2 else if code = 127 then 8 else 0

def isMasked (buf : Bytes) : Bool := buf.getD 1 0 &&& 0x80 ≠ 0

def headerLength (buf : Bytes) : Nat :=
  2 + lengthWidth (lengthCode buf) + if isMasked buf then 4 else 0

def claimedLength (buf : Bytes) : Nat :=
  if lengthWidth (lengthCode buf) = 0 then lengthCode buf
  else beValue ((buf.drop 2).take (lengthWidth (lengthCode buf)))

def maskAt (buf : Bytes) (i : Nat) : Mask :=
  #v[buf.getD i 0, buf.getD (i + 1) 0, buf.getD (i + 2) 0, buf.getD (i + 3) 0]

def maskOf (buf : Bytes) : Option Mask :=
  if isMasked buf then some (maskAt buf (2 + lengthWidth (lengthCode buf))) else none

/-- The header is complete, and its end and the length it claims add up to 2^64 or more. -/
def Overflows (buf : Bytes) : Prop :=
  2 ≤ buf.length ∧ headerLength buf ≤ buf.length ∧ 2 ^ 64 ≤ headerLength buf + claimedLength buf

instance (buf : Bytes) : Decidable (Overflows buf) := by unfold Overflows; infer_instance

variable {buf rest : Bytes}

theorem index_eq {i : Nat} (h : i < buf.length) : index buf i = .ok (buf.getD i 0) := by
  rw [index, List.getD_eq_getElem?_getD, List.getElem?_eq_getElem h]
  rfl

theorem indexed_eq {start count : Nat} (h : start + count ≤ buf.length) :
    indexed buf start count = .ok ((buf.drop start).take count) := by
  induction count generalizing start with
  | zero => simp [indexed]
  | succ count ih =>
      have hstart : start < buf.length := by omega
      rw [indexed, index_eq hstart, ih (by omega), List.drop_eq_getElem_cons hstart,
        List.take_succ_cons, List.getD_eq_getElem?_getD, List.getElem?_eq_getElem hstart]
      rfl

theorem readLength_eq (buf : Bytes) :
    readLength buf (lengthCode buf) =
      .ok (if buf.length < 2 + lengthWidth (lengthCode buf) ∧ lengthWidth (lengthCode buf) ≠ 0
        then none
        else some (claimedLength buf, 2 + lengthWidth (lengthCode buf))) := by
  unfold readLength claimedLength lengthWidth
  split
  · split
    · next h => rw [if_pos ⟨h, by decide⟩]
    · next h =>
        rw [if_neg fun hlt => h hlt.1, indexed_eq (by omega)]
        rfl
  · split
    · split
      · next h => rw [if_pos ⟨h, by decide⟩]
      · next h =>
          rw [if_neg fun hlt => h hlt.1, indexed_eq (by omega)]
          rfl
    · simp

theorem readMask_eq (buf : Bytes) (masked : Bool) (cursor : Nat) :
    readMask buf masked cursor =
      .ok (if masked then
          if buf.length < cursor + 4 then none else some (some (maskAt buf cursor), cursor + 4)
        else some (none, cursor)) := by
  unfold readMask
  split
  · split
    · rfl
    · next h =>
        rw [index_eq (by omega), index_eq (by omega), index_eq (by omega), index_eq (by omega)]
        rfl
  · rfl

theorem range_eq {start stop : Nat} (hstart : start ≤ stop) (hstop : stop ≤ buf.length) :
    range buf start stop = .ok ((buf.drop start).take (stop - start)) := if_pos ⟨hstart, hstop⟩

theorem lengthWidth_le (code : Nat) : lengthWidth code ≤ 8 := by
  unfold lengthWidth
  split
  · decide
  · split <;> decide

theorem headerLength_le (buf : Bytes) : headerLength buf ≤ 14 := by
  have hwidth := lengthWidth_le (lengthCode buf)
  unfold headerLength
  split <;> omega

theorem addUsize_eq {checks : Bool} {a b : Nat} (h : a + b < 2 ^ 64) :
    addUsize checks a b = .ok (a + b) := if_pos h

theorem addUsize_wraps {a b : Nat} (ha : a < 2 ^ 64) (hb : b < 2 ^ 64) (h : 2 ^ 64 ≤ a + b) :
    ∃ sum, sum < a ∧ addUsize false a b = .ok sum := by
  refine ⟨a + b - 2 ^ 64, by omega, ?_⟩
  rw [addUsize, if_neg (by omega), if_neg Bool.false_ne_true, Nat.mod_eq_sub_mod h,
    Nat.mod_eq_of_lt (by omega)]

theorem claimedLength_lt (buf : Bytes) : claimedLength buf < 2 ^ 64 := by
  unfold claimedLength
  split
  · have hcode := (buf.getD 1 0 &&& 0x7F).toNat_lt
    unfold lengthCode
    omega
  · have hlength : ((buf.drop 2).take (lengthWidth (lengthCode buf))).length ≤ 8 :=
      (List.length_take_le ..).trans (lengthWidth_le _)
    calc beValue _ < 256 ^ _ := beValue_lt _
      _ ≤ 256 ^ 8 := Nat.pow_le_pow_right (by decide) hlength
      _ = 2 ^ 64 := by decide

theorem readPayload_eq {checks : Bool} {opcode : UInt8} {mask : Option Mask} {cursor length : Nat}
    (hcursor : cursor ≤ buf.length) (hsmall : cursor ≤ 14) (hlength : length < 2 ^ 64) :
    readPayload checks buf opcode mask cursor length =
      if 2 ^ 64 ≤ cursor + length then .stop (if checks then .overflow else .panic)
      else if buf.length < cursor + length then .ok none
      else .ok (some (opcode, applyMask mask ((buf.drop cursor).take length),
        cursor + length)) := by
  unfold readPayload
  split
  · next hover =>
      cases checks with
      | true =>
          rw [addUsize, if_neg (by omega)]
          rfl
      | false =>
          -- the wrapped sum ends before the payload starts
          obtain ⟨stop, hstop, hsum⟩ := addUsize_wraps (by omega) hlength hover
          have hempty : ¬(cursor ≤ stop ∧ stop ≤ buf.length) := by omega
          rw [hsum]
          show (if buf.length < stop then _ else _) = _
          rw [if_neg (by omega), range, if_neg hempty]
          rfl
  · next hover =>
      rw [addUsize_eq (by omega)]
      show (if buf.length < cursor + length then _ else _) = _
      split
      · rfl
      · next hstop =>
          rw [range_eq (by omega) (by omega), Nat.add_sub_cancel_left]
          rfl

/-- Decoding in terms of what the header says. -/
theorem decodeFrame_eq (checks : Bool) (buf : Bytes) :
    decodeFrame checks buf =
      if buf.length < 2 ∨ buf.length < headerLength buf then .ok none
      else if 2 ^ 64 ≤ headerLength buf + claimedLength buf then
        .stop (if checks then .overflow else .panic)
      else if buf.length < headerLength buf + claimedLength buf then .ok none
      else .ok (some (buf.getD 0 0 &&& 0x0F,
        applyMask (maskOf buf) ((buf.drop (headerLength buf)).take (claimedLength buf)),
        headerLength buf + claimedLength buf)) := by
  have hsmall := headerLength_le buf
  have hlength := claimedLength_lt buf
  unfold decodeFrame
  by_cases htwo : buf.length < 2
  · rw [if_pos htwo, if_pos (.inl htwo)]
  rw [if_neg htwo, index_eq (by omega), index_eq (by omega)]
  show (readLength buf (lengthCode buf) >>= fun read => _) = _
  rw [readLength_eq]
  by_cases hwidth : buf.length < 2 + lengthWidth (lengthCode buf) ∧ lengthWidth (lengthCode buf) ≠ 0
  · have hheader : buf.length < headerLength buf := by unfold headerLength; omega
    rw [if_pos hwidth, if_pos (.inr hheader)]
    rfl
  rw [if_neg hwidth]
  show (readMask buf (isMasked buf) _ >>= fun read => _) = _
  rw [readMask_eq]
  cases hmasked : isMasked buf with
  | false =>
      have hheader : headerLength buf = 2 + lengthWidth (lengthCode buf) := by
        simp [headerLength, hmasked]
      have hmask : maskOf buf = none := by simp [maskOf, hmasked]
      rw [if_neg (by omega : ¬(buf.length < 2 ∨ buf.length < headerLength buf)), hheader, hmask]
      exact readPayload_eq (by omega) (by omega) hlength
  | true =>
      have hheader : headerLength buf = 2 + lengthWidth (lengthCode buf) + 4 := by
        simp [headerLength, hmasked]
      have hmask : maskOf buf = some (maskAt buf (2 + lengthWidth (lengthCode buf))) := by
        simp [maskOf, hmasked]
      rw [if_pos rfl]
      by_cases hkey : buf.length < 2 + lengthWidth (lengthCode buf) + 4
      · rw [if_pos hkey, if_pos (.inr (hheader ▸ hkey))]
        rfl
      · rw [if_neg hkey, if_neg (by omega : ¬(buf.length < 2 ∨ buf.length < headerLength buf)),
          hheader, hmask]
        exact readPayload_eq (by omega) (by omega) hlength

end Header

/-! ## Any bytes -/

/-- A decoded frame lies inside the buffer. -/
def Inside (buf : Bytes) : Option (UInt8 × Bytes × Nat) → Prop
  | none => True
  | some (_, payload, consumed) =>
      consumed ≤ buf.length ∧ payload.length ≤ consumed ∧
        payload = applyMask (maskOf buf)
          ((buf.drop (consumed - payload.length)).take payload.length)

@[simp] theorem applyMask_length (mask : Option Mask) (payload : Bytes) :
    (applyMask mask payload).length = payload.length := by
  cases mask <;> simp [applyMask, Mask.apply]

theorem decodeFrame_inside_iff (checks : Bool) (buf : Bytes) :
    (∃ result, decodeFrame checks buf = .ok result ∧ Inside buf result) ↔ ¬Overflows buf := by
  rw [decodeFrame_eq]
  by_cases hheader : buf.length < 2 ∨ buf.length < headerLength buf
  · rw [if_pos hheader]
    refine iff_of_true ⟨none, rfl, trivial⟩ fun h => ?_
    obtain ⟨htwo, hcomplete, -⟩ := h
    omega
  rw [if_neg hheader]
  by_cases hover : 2 ^ 64 ≤ headerLength buf + claimedLength buf
  · rw [if_pos hover]
    refine iff_of_false (fun ⟨result, h, _⟩ => nomatch h) (not_not.mpr ⟨?_, ?_, hover⟩)
    · omega
    · omega
  rw [if_neg hover]
  refine iff_of_true ?_ fun h => hover h.2.2
  split
  · exact ⟨none, rfl, trivial⟩
  · next hstop =>
      refine ⟨_, rfl, by omega, ?_⟩
      have hlength : (applyMask (maskOf buf)
          ((buf.drop (headerLength buf)).take (claimedLength buf))).length = claimedLength buf := by
        rw [applyMask_length, List.length_take, List.length_drop]
        omega
      rw [hlength, Nat.add_sub_cancel]
      exact ⟨Nat.le_add_left .., rfl⟩

/-- A header that claims 2^64 - 1 bytes. -/
theorem decodeFrame_not_inside :
    ¬∃ checks : Bool, ∀ buf : Bytes,
      ∃ result, decodeFrame checks buf = .ok result ∧ Inside buf result := by
  rintro ⟨checks, h⟩
  have hover : Overflows [0x81, 127, 255, 255, 255, 255, 255, 255, 255, 255] := by decide
  obtain ⟨result, hresult, -⟩ := h [0x81, 127, 255, 255, 255, 255, 255, 255, 255, 255]
  rw [decodeFrame_eq, if_neg (by decide), if_pos hover.2.2] at hresult
  cases hresult

/-! ## Frames on the wire -/

inductive LengthForm where
  | short
  | medium
  | long
  deriving DecidableEq

namespace LengthForm

def bound : LengthForm → Nat
  | short => 126
  | medium => 2 ^ 16
  | long => 2 ^ 64

def code : LengthForm → Nat → UInt8
  | short, len => UInt8.ofNat len
  | medium, _ => 126
  | long, _ => 127

def width : LengthForm → Nat
  | short => 0
  | medium => 2
  | long => 8

end LengthForm

/-- A frame, with or without a mask.  The length may be written in more bytes than it needs. -/
structure Frame where
  first : UInt8
  form : LengthForm
  mask : Option Mask
  payload : Bytes
  fits : payload.length < form.bound

namespace Frame

variable (f : Frame)

def second : UInt8 := f.form.code f.payload.length ||| if f.mask.isSome then 0x80 else 0

def maskBytes : Bytes := (f.mask.map Vector.toList).getD []

def header : Bytes := f.first :: f.second :: beBytes f.form.width f.payload.length ++ f.maskBytes

def bytes : Bytes := f.header ++ applyMask f.mask f.payload

/-- The same frame with a mask. -/
def masked (m : Mask) : Frame := { f with mask := some m }

end Frame

section Codec

theorem code_bits :
    ∀ i : Fin 128, (UInt8.ofNat i ||| 0) &&& 0x7F = UInt8.ofNat i ∧
      (UInt8.ofNat i ||| 0x80) &&& 0x7F = UInt8.ofNat i ∧
      (UInt8.ofNat i ||| 0) &&& 0x80 = 0 ∧ (UInt8.ofNat i ||| 0x80) &&& 0x80 ≠ 0 := by
  decide

theorem Mask.apply_apply (m : Mask) (payload : Bytes) : m.apply (m.apply payload) = payload := by
  refine List.ext_getElem (by simp [apply]) fun i _ _ => ?_
  simp only [apply, List.getElem_mapIdx]
  rw [UInt8.xor_assoc, UInt8.xor_self, UInt8.xor_zero]

theorem applyMask_applyMask (mask : Option Mask) (payload : Bytes) :
    applyMask mask (applyMask mask payload) = payload := by
  cases mask with
  | none => rfl
  | some m => exact m.apply_apply payload

variable (f : Frame) (rest : Bytes)

theorem Frame.exists_code :
    ∃ i : Fin 128, f.form.code f.payload.length = UInt8.ofNat i ∧
      lengthWidth i = f.form.width ∧ (f.form.width = 0 → i = f.payload.length) := by
  have hfits := f.fits
  cases hform : f.form with
  | short =>
      rw [hform] at hfits
      have hlt : f.payload.length < 126 := hfits
      refine ⟨⟨f.payload.length, by omega⟩, rfl, ?_, fun _ => rfl⟩
      rw [lengthWidth, if_neg (by dsimp only; omega), if_neg (by dsimp only; omega)]
      rfl
  | medium => exact ⟨126, rfl, rfl, nofun⟩
  | long => exact ⟨127, rfl, rfl, nofun⟩

theorem lengthCode_frame :
    lengthWidth (lengthCode (f.bytes ++ rest)) = f.form.width ∧
      (f.form.width = 0 → lengthCode (f.bytes ++ rest) = f.payload.length) ∧
      isMasked (f.bytes ++ rest) = f.mask.isSome := by
  obtain ⟨i, hcode, hwidth, hshort⟩ := f.exists_code
  obtain ⟨hlow, hlow', hhigh, hhigh'⟩ := code_bits i
  have hi : (UInt8.ofNat i).toNat = i := by
    rw [UInt8.toNat_ofNat']
    omega
  have hsecond : (f.bytes ++ rest).getD 1 0 = f.second := rfl
  rw [lengthCode, isMasked, hsecond, Frame.second, hcode]
  cases f.mask with
  | none =>
      show lengthWidth ((UInt8.ofNat i ||| 0) &&& 0x7F).toNat = _ ∧
        (_ → ((UInt8.ofNat i ||| 0) &&& 0x7F).toNat = _) ∧
        decide ((UInt8.ofNat i ||| 0) &&& 0x80 ≠ 0) = false
      rw [hlow, hhigh, hi]
      exact ⟨hwidth, hshort, rfl⟩
  | some m =>
      show lengthWidth ((UInt8.ofNat i ||| 0x80) &&& 0x7F).toNat = _ ∧
        (_ → ((UInt8.ofNat i ||| 0x80) &&& 0x7F).toNat = _) ∧
        decide ((UInt8.ofNat i ||| 0x80) &&& 0x80 ≠ 0) = true
      rw [hlow', hi]
      exact ⟨hwidth, hshort, decide_eq_true hhigh'⟩

theorem headerLength_frame : headerLength (f.bytes ++ rest) = f.header.length := by
  obtain ⟨hwidth, -, hmasked⟩ := lengthCode_frame f rest
  rw [headerLength, hwidth, hmasked]
  cases hmask : f.mask <;> simp [Frame.header, Frame.maskBytes, hmask] <;> omega

theorem claimedLength_frame : claimedLength (f.bytes ++ rest) = f.payload.length := by
  obtain ⟨hwidth, hshort, -⟩ := lengthCode_frame f rest
  rw [claimedLength, hwidth]
  split
  · next hzero => exact hshort hzero
  · next hlong =>
      have hlength : ((f.bytes ++ rest).drop 2).take f.form.width =
          beBytes f.form.width f.payload.length := by
        simp [Frame.bytes, Frame.header]
      rw [hlength, beValue_beBytes]
      have hfits := f.fits
      refine Nat.mod_eq_of_lt ?_
      cases hform : f.form with
      | short => rw [hform] at hlong; exact absurd rfl hlong
      | medium => rw [hform] at hfits; exact hfits
      | long => rw [hform] at hfits; exact hfits

theorem maskAt_eq {buf : Bytes} {start : Nat} {m : Mask} {tail : Bytes}
    (h : buf.drop start = m.toList ++ tail) : maskAt buf start = m := by
  have hbyte (k : Nat) (hk : k < 4) : buf.getD (start + k) 0 = m[k] := by
    have hlt : k < m.toList.length := by rw [Vector.length_toList]; exact hk
    rw [List.getD_eq_getElem?_getD, ← List.getElem?_drop, h, List.getElem?_append_left hlt,
      List.getElem?_eq_getElem hlt]
    rfl
  refine Vector.ext fun k hk => ?_
  rw [← hbyte k hk]
  match k, hk with
  | 0, _ => rfl
  | 1, _ => rfl
  | 2, _ => rfl
  | 3, _ => rfl

theorem maskOf_frame : maskOf (f.bytes ++ rest) = f.mask := by
  obtain ⟨hwidth, -, hmasked⟩ := lengthCode_frame f rest
  rw [maskOf, hmasked, hwidth]
  cases hmask : f.mask with
  | none => rfl
  | some m =>
      have hdrop : (f.bytes ++ rest).drop (2 + f.form.width) =
          m.toList ++ (applyMask f.mask f.payload ++ rest) := by
        rw [Nat.add_comm]
        simp [Frame.bytes, Frame.header, Frame.maskBytes, hmask]
      exact congrArg some (maskAt_eq hdrop)

theorem Frame.bytes_length : f.bytes.length = f.header.length + f.payload.length := by
  simp [Frame.bytes]

/-- Decoding a frame, whatever follows it. -/
theorem decodeFrame_frame (checks : Bool) (hsize : f.bytes.length ≤ maxBytes) :
    decodeFrame checks (f.bytes ++ rest) =
      .ok (some (f.first &&& 0x0F, f.payload, f.bytes.length)) := by
  have hlength := f.bytes_length
  have htotal : (f.bytes ++ rest).length = f.bytes.length + rest.length := List.length_append
  have htwo : 2 ≤ f.header.length := by simp [Frame.header]
  have hpayload : ((f.bytes ++ rest).drop f.header.length).take f.payload.length =
      applyMask f.mask f.payload := by
    rw [Frame.bytes, List.append_assoc, List.drop_left, List.take_left' (applyMask_length ..)]
  unfold maxBytes at hsize
  rw [decodeFrame_eq, headerLength_frame, claimedLength_frame, maskOf_frame, hpayload,
    applyMask_applyMask, if_neg (by omega), if_neg (by omega), if_neg (by omega), hlength]
  rfl

variable {f}

/-- The header of a buffer stays the same when more bytes arrive. -/
theorem header_append {buf : Bytes} (htwo : 2 ≤ buf.length) :
    headerLength (buf ++ rest) = headerLength buf ∧
      (headerLength buf ≤ buf.length → claimedLength (buf ++ rest) = claimedLength buf) := by
  have hget (i : Nat) (hi : i < buf.length) : (buf ++ rest).getD i 0 = buf.getD i 0 := by
    rw [List.getD_eq_getElem?_getD, List.getD_eq_getElem?_getD, List.getElem?_append_left hi]
  have hcode : lengthCode (buf ++ rest) = lengthCode buf := by
    rw [lengthCode, lengthCode, hget 1 (by omega)]
  have hmasked : isMasked (buf ++ rest) = isMasked buf := by
    rw [isMasked, isMasked, hget 1 (by omega)]
  refine ⟨by rw [headerLength, headerLength, hcode, hmasked], fun hheader => ?_⟩
  have hwidth : lengthWidth (lengthCode buf) ≤ (buf.drop 2).length := by
    rw [List.length_drop]
    unfold headerLength at hheader
    omega
  rw [claimedLength, claimedLength, hcode, List.drop_append_of_le_length htwo,
    List.take_append_of_le_length hwidth]

/-- A proper part of a frame is incomplete. -/
theorem decodeFrame_prefix (checks : Bool) (hsize : f.bytes.length ≤ maxBytes) {part : Bytes}
    (hpart : part <+: f.bytes) (hproper : part ≠ f.bytes) : decodeFrame checks part = .ok none := by
  obtain ⟨tail, htail⟩ := hpart
  have hlength := f.bytes_length
  have hshort : part.length < f.bytes.length := by
    refine lt_of_le_of_ne ?_ fun heq => hproper ?_
    · rw [← htail, List.length_append]
      omega
    · exact List.IsPrefix.eq_of_length ⟨tail, htail⟩ heq
  rw [decodeFrame_eq]
  by_cases hheader : part.length < 2 ∨ part.length < headerLength part
  · rw [if_pos hheader]
  obtain ⟨hstart, hclaimed⟩ := header_append tail (show 2 ≤ part.length by omega)
  have hstart' : headerLength part = f.header.length := by
    rw [← hstart, htail, ← List.append_nil f.bytes, headerLength_frame]
  have hclaimed' : claimedLength part = f.payload.length := by
    rw [← hclaimed (by omega), htail, ← List.append_nil f.bytes, claimedLength_frame]
  unfold maxBytes at hsize
  rw [if_neg hheader, hstart', hclaimed', ← hlength, if_neg (by omega), if_pos hshort]

end Codec

/-! ## Texts -/

/-- The form that the server writes a length in. -/
def formOf (len : Nat) : LengthForm :=
  if len < 126 then .short else if len ≤ 65535 then .medium else .long

/-- The frame of a text, which a slice is long enough for. -/
def textFrame (text : String) (h : (utf8 text).length ≤ maxBytes) : Frame where
  first := 0x81
  form := formOf (utf8 text).length
  mask := none
  payload := utf8 text
  fits := by
    unfold formOf
    split
    · assumption
    · split
      · exact Nat.lt_succ_of_le (by assumption)
      · exact Nat.lt_of_le_of_lt h (by decide)

theorem textFrame_bytes {text : String} (h : (utf8 text).length ≤ maxBytes) :
    (textFrame text h).bytes = encodeTextFrame text := by
  have hcode (code : UInt8) : code ||| 0 = code := UInt8.or_zero
  unfold encodeTextFrame Frame.bytes Frame.header Frame.second textFrame formOf
  dsimp only [Frame.maskBytes, applyMask]
  split
  · simp [LengthForm.code, LengthForm.width, beBytes, leBytes]
  · split
    · simp [LengthForm.code, LengthForm.width]
    · simp [LengthForm.code, LengthForm.width]

theorem utf8_length_le (text : String) : (utf8 text).length ≤ (encodeTextFrame text).length := by
  simp only [encodeTextFrame, List.cons_append, List.length_cons, List.length_append]
  omega

/--
Texts come back as they were sent, a part of a frame is incomplete, and a mask changes
nothing.
-/
theorem frame_round_trip (checks : Bool) :
    (∀ (text : String) (rest : Bytes), (encodeTextFrame text ++ rest).length ≤ maxBytes →
      decodeFrame checks (encodeTextFrame text ++ rest) =
        .ok (some (1, utf8 text, (encodeTextFrame text).length))) ∧
    (∀ (text : String) (part : Bytes), (encodeTextFrame text).length ≤ maxBytes →
      part <+: encodeTextFrame text → part ≠ encodeTextFrame text →
      decodeFrame checks part = .ok none) ∧
    (∀ (f : Frame) (part : Bytes), f.bytes.length ≤ maxBytes →
      part <+: f.bytes → part ≠ f.bytes → decodeFrame checks part = .ok none) ∧
    (∀ (f : Frame) (m : Mask) (rest : Bytes), f.mask = none →
      ((f.masked m).bytes ++ rest).length ≤ maxBytes →
      decodeFrame checks ((f.masked m).bytes ++ rest) =
          .ok (some (f.first &&& 0x0F, f.payload, (f.masked m).bytes.length)) ∧
        decodeFrame checks (f.bytes ++ rest) =
          .ok (some (f.first &&& 0x0F, f.payload, f.bytes.length))) := by
  have htext {text : String} (hsize : (encodeTextFrame text).length ≤ maxBytes) :
      ∃ f : Frame, f.bytes = encodeTextFrame text ∧ f.first = 0x81 ∧ f.payload = utf8 text :=
    ⟨textFrame text ((utf8_length_le text).trans hsize), textFrame_bytes _, rfl, rfl⟩
  have hleft {part rest : Bytes} (hsize : (part ++ rest).length ≤ maxBytes) :
      part.length ≤ maxBytes :=
    (List.length_append ▸ Nat.le_add_right ..).trans hsize
  refine ⟨fun text rest hsize => ?_, fun text part hsize hpart hproper => ?_,
    fun f part hsize => decodeFrame_prefix checks hsize, fun f m rest hmask hsize => ⟨?_, ?_⟩⟩
  · obtain ⟨f, hbytes, hfirst, hpayload⟩ := htext (hleft hsize)
    rw [← hbytes] at hsize ⊢
    rw [decodeFrame_frame f rest checks (hleft hsize), hfirst, hpayload]
    rfl
  · obtain ⟨f, hbytes, -⟩ := htext hsize
    rw [← hbytes] at hsize hpart hproper
    exact decodeFrame_prefix checks hsize hpart hproper
  · exact decodeFrame_frame (f.masked m) rest checks (hleft hsize)
  · refine decodeFrame_frame f rest checks (le_trans ?_ (hleft hsize))
    -- the mask only makes the header longer
    rw [Frame.bytes_length, Frame.bytes_length]
    simp [Frame.masked, Frame.header, Frame.maskBytes, hmask]

theorem frame_round_trip_hi :
    decodeFrame true (encodeTextFrame "hi" ++ [7]) =
      .ok (some (1, utf8 "hi", (encodeTextFrame "hi").length)) :=
  (frame_round_trip true).1 "hi" [7] (by decide +kernel)

end ChocoBase.Server.WebSocket
