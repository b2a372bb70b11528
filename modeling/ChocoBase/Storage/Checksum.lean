import ChocoBase.Storage.Journal

/-!
# What a checksum detects

One step of the CRC-32 loses nothing: the top bit of what it leaves is the low bit that it
took.  So two byte strings of one length have different checksums if they differ in one byte,
or in their last four.
-/

namespace ChocoBase.Storage

open ChocoBase.Foundation

/-! ## One bit -/

theorem getLsbD_crc32Bit (x : UInt32) (i : Nat) (hi : i < 32) :
    (crc32Bit x).toBitVec.getLsbD i =
      (x.toBitVec.getLsbD (i + 1) ^^ (0xEDB88320#32).getLsbD i && x.toBitVec.getLsbD 0) := by
  have hmask : (0 - (x &&& 1)).toBitVec.getLsbD i = x.toBitVec.getLsbD 0 := by
    have hbit : (x &&& 1).toBitVec = BitVec.setWidth 32 (BitVec.ofBool (x.toBitVec.getLsbD 0)) := by
      rw [← BitVec.and_one_eq_setWidth_ofBool_getLsbD]
      rfl
    rw [UInt32.toBitVec_sub, hbit]
    cases x.toBitVec.getLsbD 0 with
    | false => simp
    | true =>
        change (BitVec.allOnes 32).getLsbD i = true
        rw [BitVec.getLsbD_allOnes, decide_eq_true hi]
  have hshift : (x >>> 1).toBitVec.getLsbD i = x.toBitVec.getLsbD (i + 1) := by
    rw [UInt32.toBitVec_shiftRight]
    change (x.toBitVec >>> 1).getLsbD i = _
    rw [BitVec.getLsbD_ushiftRight, Nat.add_comm]
  unfold crc32Bit
  rw [UInt32.toBitVec_xor, UInt32.toBitVec_and, BitVec.getLsbD_xor, BitVec.getLsbD_and, hmask,
    hshift]
  rfl

theorem crc32Bit_injective : Function.Injective crc32Bit := by
  intro x y h
  have hbit (i : Nat) (hi : i < 32) : (crc32Bit x).toBitVec.getLsbD i =
      (crc32Bit y).toBitVec.getLsbD i := by rw [h]
  -- the polynomial has the top bit, and the shifted value has not
  have hlow : x.toBitVec.getLsbD 0 = y.toBitVec.getLsbD 0 := by
    have htop := hbit 31 (by omega)
    rw [getLsbD_crc32Bit x 31 (by omega), getLsbD_crc32Bit y 31 (by omega)] at htop
    simpa using htop
  refine UInt32.eq_of_toBitVec_eq (BitVec.eq_of_getLsbD_eq fun i hi => ?_)
  cases i with
  | zero => exact hlow
  | succ i =>
      have hstep := hbit i (by omega)
      rw [getLsbD_crc32Bit x i (by omega), getLsbD_crc32Bit y i (by omega), hlow] at hstep
      simpa using hstep

/-- Taking in `y` before the step, one place up, is taking it in after the step. -/
theorem crc32Bit_xor_double {x y : UInt32} (hy : y.toBitVec.getLsbD 31 = false) :
    crc32Bit (x ^^^ (y <<< 1)) = crc32Bit x ^^^ y := by
  refine UInt32.eq_of_toBitVec_eq (BitVec.eq_of_getLsbD_eq fun i hi => ?_)
  have hdouble (j : Nat) : (x ^^^ (y <<< 1)).toBitVec.getLsbD j = (x.toBitVec.getLsbD j ^^
      (decide (j < 32) && !decide (j < 1) && y.toBitVec.getLsbD (j - 1))) := by
    rw [UInt32.toBitVec_xor, UInt32.toBitVec_shiftLeft, BitVec.getLsbD_xor]
    change (_ ^^ (y.toBitVec <<< 1).getLsbD j) = _
    rw [BitVec.getLsbD_shiftLeft]
  rw [getLsbD_crc32Bit _ i hi, hdouble, hdouble, UInt32.toBitVec_xor, BitVec.getLsbD_xor,
    getLsbD_crc32Bit x i hi]
  by_cases htop : i = 31
  · subst htop
    rw [BitVec.getLsbD_of_ge _ (31 + 1) (by omega)]
    simp [show y.toBitVec[31] = false from hy]
  · have hlt : i + 1 < 32 := by omega
    simp [hlt, Bool.xor_comm, Bool.xor_left_comm]

theorem xor_left_cancel {x y z : UInt32} (h : x ^^^ y = x ^^^ z) : y = z := by
  have hcancel := congrArg (x ^^^ ·) h
  simpa only [← UInt32.xor_assoc, UInt32.xor_self, UInt32.zero_xor] using hcancel

/-! ## Bytes -/

theorem crc32Byte_eq (crc : UInt32) (byte : UInt8) :
    crc32Byte crc byte = crc32Bit^[8] (crc ^^^ byte.toUInt32) := rfl

theorem crc32Byte_left_injective (byte : UInt8) : Function.Injective (crc32Byte · byte) := by
  intro crc crc' h
  dsimp only at h
  rw [crc32Byte_eq, crc32Byte_eq] at h
  have hxor := (crc32Bit_injective.iterate 8) h
  rw [UInt32.xor_comm crc, UInt32.xor_comm crc'] at hxor
  exact xor_left_cancel hxor

theorem crc32Byte_right_injective (crc : UInt32) : Function.Injective (crc32Byte crc) := by
  intro byte byte' h
  rw [crc32Byte_eq, crc32Byte_eq] at h
  exact UInt8.toUInt32_inj.mp (xor_left_cancel ((crc32Bit_injective.iterate 8) h))

theorem foldl_crc32Byte_injective (data : Bytes) :
    Function.Injective fun crc => data.foldl crc32Byte crc := by
  induction data with
  | nil => exact fun _ _ h => h
  | cons byte data ih => exact fun crc crc' h => crc32Byte_left_injective byte (ih h)

theorem crc32_inj {data data' : Bytes} :
    crc32 data = crc32 data' ↔
      data.foldl crc32Byte 0xFFFFFFFF = data'.foldl crc32Byte 0xFFFFFFFF :=
  UInt32.not_inj

/-- A checksum detects a change of one byte. -/
theorem crc32_set_ne {data : Bytes} {i : Nat} {old new : UInt8} (h : data[i]? = some old)
    (hne : old ≠ new) : crc32 (data.set i new) ≠ crc32 data := by
  obtain ⟨hlt, hold⟩ := List.getElem?_eq_some_iff.mp h
  have hsplit : data = data.take i ++ old :: data.drop (i + 1) := by
    rw [← hold, List.getElem_cons_drop, List.take_append_drop]
  intro hcrc
  rw [crc32_inj, List.set_eq_take_append_cons_drop, if_pos hlt] at hcrc
  conv at hcrc => rhs; rw [hsplit]
  rw [List.foldl_append, List.foldl_append, List.foldl_cons, List.foldl_cons] at hcrc
  exact hne (crc32Byte_right_injective _ (foldl_crc32Byte_injective _ hcrc)).symm

/-! ## Four bytes -/

/-- `k` places up. -/
def upBy (k : Nat) (y : UInt32) : UInt32 := (fun x : UInt32 => x <<< 1)^[k] y

theorem getLsbD_upBy (k : Nat) (y : UInt32) (i : Nat) (hi : i < 32) :
    (upBy k y).toBitVec.getLsbD i = (!decide (i < k) && y.toBitVec.getLsbD (i - k)) := by
  induction k generalizing i with
  | zero => simp [upBy]
  | succ k ih =>
      rw [upBy, Function.iterate_succ_apply', UInt32.toBitVec_shiftLeft]
      change ((upBy k y).toBitVec <<< 1).getLsbD i = _
      rw [BitVec.getLsbD_shiftLeft, decide_eq_true hi]
      cases i with
      | zero => simp
      | succ i => simp [ih i (by omega)]

theorem iterate_crc32Bit_xor {k : Nat} {x y : UInt32}
    (hy : ∀ i, 32 ≤ i + k → y.toBitVec.getLsbD i = false) (hk : k ≤ 32) :
    crc32Bit^[k] (x ^^^ upBy k y) = crc32Bit^[k] x ^^^ y := by
  induction k generalizing x with
  | zero => rfl
  | succ k ih =>
      have htop : (upBy k y).toBitVec.getLsbD 31 = false := by
        rw [getLsbD_upBy k y 31 (by omega), hy (31 - k) (by omega), Bool.and_false]
      have hup : upBy (k + 1) y = upBy k y <<< 1 := Function.iterate_succ_apply' _ k y
      rw [hup, Function.iterate_succ_apply, crc32Bit_xor_double htop,
        ih (fun i hi => hy i (by omega)) (by omega), Function.iterate_succ_apply]

theorem getLsbD_byte (byte : UInt8) (i : Nat) :
    byte.toUInt32.toBitVec.getLsbD i = byte.toBitVec.getLsbD i := by
  rw [UInt8.toBitVec_toUInt32, BitVec.getLsbD_setWidth]
  by_cases hi : i < 32
  · simp [hi]
  · rw [BitVec.getLsbD_of_ge _ i (by omega)]
    simp

theorem crc32Byte_upBy {k : Nat} (hk : k ≤ 24) (crc : UInt32) (byte : UInt8) :
    crc32Bit^[k] crc ^^^ byte.toUInt32 = crc32Bit^[k] (crc ^^^ upBy k byte.toUInt32) := by
  refine (iterate_crc32Bit_xor (fun i hi => ?_) (by omega)).symm
  rw [getLsbD_byte, BitVec.getLsbD_of_ge _ i (by omega)]

/-- Four bytes are taken in as one word. -/
theorem foldl_four (crc : UInt32) (a b c d : UInt8) :
    [a, b, c, d].foldl crc32Byte crc = crc32Bit^[32] (crc ^^^ (a.toUInt32 ^^^
      upBy 8 b.toUInt32 ^^^ upBy 16 c.toUInt32 ^^^ upBy 24 d.toUInt32)) := by
  simp only [List.foldl_cons, List.foldl_nil, crc32Byte_eq]
  rw [crc32Byte_upBy (show 8 ≤ 24 by omega) _ b, ← Function.iterate_add_apply,
    crc32Byte_upBy (show 8 + 8 ≤ 24 by omega) _ c, ← Function.iterate_add_apply,
    crc32Byte_upBy (show 8 + (8 + 8) ≤ 24 by omega) _ d, ← Function.iterate_add_apply]
  simp only [UInt32.xor_assoc]

theorem four_injective {a b c d a' b' c' d' : UInt8}
    (h : a.toUInt32 ^^^ upBy 8 b.toUInt32 ^^^ upBy 16 c.toUInt32 ^^^ upBy 24 d.toUInt32 =
      a'.toUInt32 ^^^ upBy 8 b'.toUInt32 ^^^ upBy 16 c'.toUInt32 ^^^ upBy 24 d'.toUInt32) :
    a = a' ∧ b = b' ∧ c = c' ∧ d = d' := by
  have hbit (i : Nat) (hi : i < 32) := congrArg (fun x : UInt32 => x.toBitVec.getLsbD i) h
  simp only [UInt32.toBitVec_xor, BitVec.getLsbD_xor] at hbit
  refine ⟨?_, ?_, ?_, ?_⟩ <;>
    refine UInt8.eq_of_toBitVec_eq (BitVec.eq_of_getLsbD_eq fun i hi => ?_)
  · have hi' := hbit i (by omega)
    simp only [getLsbD_upBy _ _ i (show i < 32 by omega), getLsbD_byte] at hi'
    simpa [show i < 8 by omega, show i < 16 by omega, show i < 24 by omega] using hi'
  · have hi' := hbit (i + 8) (by omega)
    simp only [getLsbD_upBy _ _ (i + 8) (show i + 8 < 32 by omega), getLsbD_byte] at hi'
    simpa [show i < 8 by omega, show i + 8 < 16 by omega, show i + 8 < 24 by omega] using hi'
  · have hi' := hbit (i + 16) (by omega)
    simp only [getLsbD_upBy _ _ (i + 16) (show i + 16 < 32 by omega), getLsbD_byte] at hi'
    simpa [show i < 8 by omega, show i + 16 < 24 by omega] using hi'
  · have hi' := hbit (i + 24) (by omega)
    simp only [getLsbD_upBy _ _ (i + 24) (show i + 24 < 32 by omega), getLsbD_byte] at hi'
    simpa using hi'

/-- A checksum detects a change within the last four bytes. -/
theorem crc32_append_four {data word word' : Bytes} (hword : word.length = 4)
    (hword' : word'.length = 4) (h : crc32 (data ++ word) = crc32 (data ++ word')) :
    word = word' := by
  rw [crc32_inj, List.foldl_append, List.foldl_append] at h
  match word, word', hword, hword' with
  | [a, b, c, d], [a', b', c', d'], _, _ =>
      rw [foldl_four, foldl_four] at h
      have hsum := xor_left_cancel ((crc32Bit_injective.iterate 32) h)
      obtain ⟨rfl, rfl, rfl, rfl⟩ := four_injective hsum
      rfl

end ChocoBase.Storage
