import Mathlib.Algebra.Group.Nat.Defs
import SmallLisp.Number.Binary

/-!
Floats and their bits.

A float is determined by its bits (`Binary.ofBits_toBits`), and every pattern of bits but those of
what is not a number is the bits of a float (`Binary.toNat_toBits_ofBits`).  Both rest on taking a
pattern apart into sign, exponent and mantissa and putting it together again
(`Binary.pack_unpack`).
-/

namespace SmallLisp.Binary

open Float.Model (Format)
open Float.Model.UnpackedFloat

/-! ## Patterns of bits -/

theorem toBitVec_signOf (b : BitVec 1) : (Sign.ofBitVec b).toBitVec = b := by
  revert b
  decide

/-- A pattern is its sign, its exponent and its mantissa. -/
theorem pack_parts (b : BitVec Format.binary64.numBits) :
    packComponents Format.binary64 (Sign.ofBitVec (unpackSign b)) (unpackExponent b)
      (unpackMantissa b) = b := by
  unfold packComponents unpackSign unpackExponent unpackMantissa
  rw [toBitVec_signOf]
  apply BitVec.eq_of_getLsbD_eq
  intro i hi
  have hi : i < 64 := hi
  simp only [BitVec.getLsbD_append, BitVec.getLsbD_cast, BitVec.getLsbD_extractLsb]
  by_cases hm : i < 52
  · simp [hm]
  · by_cases he : i < 63
    · have hlt : i - 52 < 11 := by omega
      have hi' : 52 + (i - 52) = i := by omega
      simp [hm, hlt, hi']
    · have hi' : i = 63 := by omega
      subst hi'
      simp
      exact BitVec.getLsbD_eq_getElem hi

/-- A normal significand without its leading one is the mantissa. -/
theorem ofNat_normal (m : BitVec 52) : BitVec.ofNat 52 (1#1 ++ m).toNat = m := by
  apply BitVec.eq_of_toNat_eq
  rw [BitVec.toNat_ofNat, BitVec.toNat_append, ← Nat.shiftLeft_add_eq_or_of_lt m.isLt,
    Nat.shiftLeft_eq, Nat.mul_add_mod_self_right, Nat.mod_eq_of_lt m.isLt]

theorem log2_normal (m : BitVec 52) : (1#1 ++ m).toNat.log2 = 52 := by
  have hm := m.isLt
  have h : (1#1 ++ m).toNat = 2 ^ 52 + m.toNat := by
    rw [BitVec.toNat_append, ← Nat.shiftLeft_add_eq_or_of_lt m.isLt, Nat.shiftLeft_eq]
    rfl
  rw [h, Nat.log2_eq_iff (by omega)]
  omega

theorem pack_subnormal (s : Sign) (m : BitVec 52) {e : Int} (he : e = -1074) (hpos : 0 < m.toNat) :
    pack Format.binary64 (.finite s m.toNat e hpos) = packComponents Format.binary64 s 0#11 m := by
  have hlt : m.toNat.log2 < 52 := by
    rw [Nat.log2_lt (by omega)]
    exact m.isLt
  subst he
  unfold pack
  dsimp only
  rw [if_neg (by decide), if_neg (by show ¬ m.toNat.log2 + 1 = 53; omega), BitVec.ofNat_toNat,
    BitVec.setWidth_eq]

theorem pack_normal (s : Sign) (x : BitVec 11) (m : BitVec 52) (hx : x ≠ -1#11)
    (hpos : 0 < (1#1 ++ m).toNat) :
    pack Format.binary64 (.finite s (1#1 ++ m).toNat (x.toNat - 1075 : Int) hpos) =
      packComponents Format.binary64 s x m := by
  have hlt := x.isLt
  have hne : x.toNat ≠ 2047 := by
    intro h
    exact hx (BitVec.eq_of_toNat_eq h)
  have hbiased : ((x.toNat - 1075 : Int) + Format.binary64.exponentBias +
      Format.binary64.mantissaBitsWithoutImplicit).toNat = x.toNat := by
    show ((x.toNat - 1075 : Int) + (1023 : Nat) + (52 : Nat)).toNat = x.toNat
    omega
  unfold pack
  dsimp only
  rw [hbiased, if_neg (by show ¬ 2048 ≤ x.toNat + 1; omega),
    if_pos (by rw [log2_normal]; rfl), ofNat_normal, BitVec.ofNat_toNat, BitVec.setWidth_eq]

/-- Unpacking loses nothing of a pattern that is a number. -/
theorem pack_unpack {b : BitVec Format.binary64.numBits}
    (h : unpackExponent b = -1#11 → unpackMantissa b = 0#52) :
    pack Format.binary64 (unpack Format.binary64 b) = b := by
  have hparts := pack_parts b
  unfold unpack
  dsimp only
  by_cases he : unpackExponent b = -1#11
  · rw [if_pos he, if_pos (h he)]
    rw [he, h he] at hparts
    exact hparts
  · rw [if_neg he]
    by_cases hz : unpackExponent b = 0#11
    · rw [if_pos hz]
      by_cases hm : unpackMantissa b = 0#52
      · rw [dif_pos hm]
        rw [hz, hm] at hparts
        exact hparts
      · have hexp : ((unpackExponent b).toNat : Int) - (Format.binary64.exponentBias +
            Format.binary64.mantissaBitsWithoutImplicit) + 1 = -1074 := by
          rw [hz]
          rfl
        rw [dif_neg hm]
        rw [hz] at hparts
        exact (pack_subnormal _ _ hexp _).trans hparts
    · rw [if_neg hz]
      exact (pack_normal _ _ _ he _).trans hparts

/-- Nor of a valid one, since there is one pattern of what is not a number. -/
theorem pack_unpack_of_valid {b : BitVec Format.binary64.numBits} (hvalid : Format.binary64.Valid b) :
    pack Format.binary64 (unpack Format.binary64 b) = b := by
  by_cases h : unpackExponent b = -1#11 → unpackMantissa b = 0#52
  · exact pack_unpack h
  · obtain ⟨he, hm⟩ := Classical.not_imp.1 h
    have hnan : unpack Format.binary64 b = .notANumber := by
      unfold unpack
      dsimp only
      rw [if_pos he, if_neg hm]
    rw [hnan, hvalid.eq_packedNaN he hm]
    rfl

theorem toNat_unpackExponent (b : BitVec Format.binary64.numBits) :
    (unpackExponent b).toNat = b.toNat / 2 ^ 52 % 2 ^ 11 := by
  unfold unpackExponent
  rw [BitVec.toNat_cast, BitVec.extractLsb_toNat, Nat.shiftRight_eq_div_pow]
  rfl

theorem toNat_unpackMantissa (b : BitVec Format.binary64.numBits) :
    (unpackMantissa b).toNat = b.toNat % 2 ^ 52 := by
  unfold unpackMantissa
  rw [BitVec.toNat_cast, BitVec.extractLsb_toNat, Nat.shiftRight_zero]
  rfl

/-! ## Floats -/

/-- A float is determined by its bits. -/
theorem ofBits_toBits (x : Float) : Float.ofBits x.toBits = x := by
  obtain ⟨⟨⟨b⟩, hvalid⟩⟩ := x
  have hpack := pack_unpack_of_valid hvalid
  show Float.ofModel ⟨UInt64.ofBitVec _, _⟩ = Float.ofModel ⟨UInt64.ofBitVec b, _⟩
  congr 3

theorem toNat_toBits_ofBits {b : Nat} (hb : b < 2 ^ 64) (h : b % 2 ^ 63 ≤ infinityBits) :
    (Float.ofBits (UInt64.ofNat b)).toBits.toNat = b := by
  have hnat : (UInt64.ofNat b).toBitVec.toNat = b := UInt64.toNat_ofNat_of_lt' hb
  have hpack : pack Format.binary64 (unpack Format.binary64 (UInt64.ofNat b).toBitVec) =
      (UInt64.ofNat b).toBitVec := by
    apply pack_unpack
    intro he
    have he := congrArg BitVec.toNat he
    apply BitVec.eq_of_toNat_eq
    rw [toNat_unpackExponent, hnat] at he
    rw [toNat_unpackMantissa, hnat]
    have he : b / 2 ^ 52 % 2 ^ 11 = 2047 := he
    have h : b % 2 ^ 63 ≤ 2047 * 2 ^ 52 := h
    show b % 2 ^ 52 = 0
    omega
  show (pack Format.binary64 (unpack Format.binary64 (UInt64.ofNat b).toBitVec)).toNat = b
  rw [hpack, hnat]

theorem toNat_toBits_floatOfBits (negative : Bool) (bits : Nat) :
    (floatOfBits negative bits).toBits.toNat =
      min bits infinityBits + if negative then signBit else 0 := by
  have hinf : infinityBits = 2047 * 2 ^ 52 := rfl
  have hsign : signBit = 2 ^ 63 := rfl
  unfold floatOfBits
  apply toNat_toBits_ofBits
  · split <;> omega
  · split <;> omega

/-- A float from its sign and its magnitude bits. -/
theorem floatOfBits_eq {x : Float} {negative : Bool} {bits : Nat} (hbits : bits ≤ infinityBits)
    (h : x.toBits.toNat = bits + if negative then signBit else 0) :
    floatOfBits negative bits = x := by
  unfold floatOfBits
  rw [Nat.min_eq_left hbits, ← h, UInt64.ofNat_toNat, ofBits_toBits]

end SmallLisp.Binary
