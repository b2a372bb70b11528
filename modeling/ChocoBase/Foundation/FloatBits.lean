import Mathlib.Algebra.Group.Nat.Defs
import Mathlib.Logic.Basic
import Mathlib.Data.Nat.Log

/-!
# Floats as bits

A float is read back from its bits.
-/

namespace ChocoBase.Foundation

open Float.Model
open UnpackedFloat hiding unpack

private theorem toBitVec_ofBitVec (v : BitVec 1) : (Sign.ofBitVec v).toBitVec = v := by
  revert v; decide

private theorem packComponents_unpack {spec : Format} (b : BitVec spec.numBits) :
    packComponents spec (Sign.ofBitVec (unpackSign b)) (unpackExponent b) (unpackMantissa b) =
      b := by
  have := spec.hm
  have := spec.he
  rw [packComponents, toBitVec_ofBitVec]
  apply BitVec.eq_of_getLsbD_eq
  intro i hi
  delta unpackSign unpackExponent unpackMantissa
  simp only [BitVec.getLsbD_append, BitVec.getLsbD_cast, BitVec.getLsbD_extractLsb]
  split
  · simp
    omega
  · split
    · have h : spec.mantissaBitsWithoutImplicit + (i - spec.mantissaBitsWithoutImplicit) = i := by
        omega
      simp [h]
      omega
    · have h : spec.mantissaBitsWithoutImplicit + spec.exponentBits +
          (i - spec.mantissaBitsWithoutImplicit - spec.exponentBits) = i := by
        omega
      simp [h]
      omega

private theorem pack_finite {spec : Format} (s : Sign) (m : Nat) (e : Int) (h : 0 < m) {biased : Nat}
    (hbiased : (e + spec.exponentBias + spec.mantissaBitsWithoutImplicit).toNat = biased) :
    pack spec (.finite s m e h) = if 2 ^ spec.exponentBits ≤ biased + 1 then packedInfinity spec s
      else if m.log2 + 1 = spec.mantissaBits then
        packComponents spec s (BitVec.ofNat _ biased) (BitVec.ofNat _ m)
      else packComponents spec s 0#_ (BitVec.ofNat _ m) := by
  subst hbiased
  rfl

theorem pack_unpack {spec : Format} (hexponent : 2 ≤ spec.exponentBits) {b : BitVec spec.numBits}
    (hvalid : spec.Valid b) : pack spec (UnpackedFloat.unpack spec b) = b := by
  have hm := spec.hm
  have hparts := packComponents_unpack b
  have hpow : 2 ^ 2 ≤ 2 ^ spec.exponentBits := Nat.pow_le_pow_right (by decide) hexponent
  unfold UnpackedFloat.unpack
  by_cases hexp : unpackExponent b = -1#_
  · rw [if_pos hexp]
    by_cases hm : unpackMantissa b = 0#_
    · rw [if_pos hm]
      rw [hexp, hm] at hparts
      exact hparts
    · rw [if_neg hm]
      exact (hvalid.eq_packedNaN hexp hm).symm
  · rw [if_neg hexp]
    have hlt : (unpackExponent b).toNat + 1 < 2 ^ spec.exponentBits := by
      have h1 := (unpackExponent b).isLt
      by_contra h2
      refine hexp (BitVec.eq_of_toNat_eq ?_)
      rw [BitVec.neg_one_eq_allOnes, BitVec.toNat_allOnes]
      omega
    by_cases hzero : unpackExponent b = 0#_
    · rw [if_pos hzero]
      by_cases hm : unpackMantissa b = 0#_
      · rw [dif_pos hm]
        rw [hzero, hm] at hparts
        exact hparts
      · rw [dif_neg hm]
        have hmant := (unpackMantissa b).isLt
        have hpos : (unpackMantissa b).toNat ≠ 0 := fun h =>
          hm (BitVec.eq_of_toNat_eq (by simpa using h))
        have hlog : (unpackMantissa b).toNat.log2 < spec.mantissaBitsWithoutImplicit :=
          (Nat.log2_lt hpos).mpr hmant
        have hbiased : ((unpackExponent b).toNat -
            (spec.exponentBias + spec.mantissaBitsWithoutImplicit) + 1 + spec.exponentBias +
              spec.mantissaBitsWithoutImplicit : Int).toNat = 1 := by
          rw [hzero]
          simp
          omega
        rw [pack_finite _ _ _ _ hbiased, if_neg (by omega), if_neg (by unfold Format.mantissaBits; omega), BitVec.ofNat_toNat,
          BitVec.setWidth_eq]
        rw [hzero] at hparts
        exact hparts
    · rw [if_neg hzero]
      have hmant := (unpackMantissa b).isLt
      have hvalue : (1#1 ++ unpackMantissa b).toNat =
          2 ^ spec.mantissaBitsWithoutImplicit + (unpackMantissa b).toNat := by
        rw [BitVec.toNat_append, ← Nat.shiftLeft_add_eq_or_of_lt hmant]
        simp [Nat.shiftLeft_eq]
      have hlog : (1#1 ++ unpackMantissa b).toNat.log2 = spec.mantissaBitsWithoutImplicit := by
        rw [hvalue, Nat.log2_eq_iff (by omega)]
        omega
      have hbiased : ((unpackExponent b).toNat -
          (spec.exponentBias + spec.mantissaBitsWithoutImplicit) + spec.exponentBias +
            spec.mantissaBitsWithoutImplicit : Int).toNat = (unpackExponent b).toNat := by
        omega
      rw [pack_finite _ _ _ _ hbiased, if_neg (by omega), if_pos (by unfold Format.mantissaBits; omega), BitVec.ofNat_toNat,
        BitVec.setWidth_eq]
      have hm' : BitVec.ofNat spec.mantissaBitsWithoutImplicit
          (1#1 ++ unpackMantissa b).toNat = unpackMantissa b := by
        refine BitVec.eq_of_toNat_eq ?_
        rw [hvalue, BitVec.toNat_ofNat, Nat.add_mod_left, Nat.mod_eq_of_lt hmant]
      rw [hm']
      exact hparts

theorem ofBits_toBits (x : Float) : Float.ofBits x.toBits = x := by
  obtain ⟨⟨bits, hvalid⟩⟩ := x
  delta Float.ofBits Float.toBits Float.Model.ofBits Float.Model.pack
  congr
  rw [pack_unpack (by decide) hvalid]

theorem ofBits_toBits32 (x : Float32) : Float32.ofBits x.toBits = x := by
  obtain ⟨⟨bits, hvalid⟩⟩ := x
  delta Float32.ofBits Float32.toBits Float32.Model.ofBits Float32.Model.pack
  congr
  rw [pack_unpack (by decide) hvalid]

end ChocoBase.Foundation
