import Mathlib
import SmallScheme.Decimal.Nearest

/-!
# The bits of floating-point numbers

A number and its bits determine each other, and the bits without the sign tell the kind of number.

1. `pack_unpack`: taking valid bits apart and putting them together again gives the same bits, so
   `ofBits_toBits`.
2. `isInf_iff` and `isNaN_iff`: the infinite numbers have the bits `infinityBits` below the sign, and
   what is not a number has greater ones.
3. `toNat_toBits_ofBits`: all other bits are those of a number.
4. Equality is symmetric and transitive, and reflexive exactly on the numbers (`beq_symm`, `beq_trans`,
   `beq_self_iff`).
-/

namespace SmallScheme.Decimal

open Float.Model (Format UnpackedFloat)
open Float.Model.UnpackedFloat

/-! ## Taking bits apart and putting them together -/

theorem toBitVec_ofBitVec (s : BitVec 1) : (Sign.ofBitVec s).toBitVec = s := by
  revert s
  decide

/-- Bits consist of the sign, the exponent and the mantissa. -/
theorem packComponents_parts (b : BitVec (Format.numBits .binary64)) :
    packComponents .binary64 (.ofBitVec (unpackSign b)) (unpackExponent b) (unpackMantissa b) = b := by
  rw [packComponents, toBitVec_ofBitVec]
  apply BitVec.eq_of_getLsbD_eq
  intro i hi
  simp only [unpackMantissa, unpackExponent, unpackSign, BitVec.getLsbD_append, BitVec.getLsbD_cast,
    BitVec.getLsbD_extractLsb]
  by_cases hm : i < 52
  · simp [hm]
  by_cases he : i < 63
  · simp [hm, show i - 52 < 11 by omega, show 52 + (i - 52) = i by omega]
  · have hi : i < 64 := hi
    obtain rfl : i = 63 := by omega
    rfl

/-- A mantissa without its leading bit is put back as it was, under the exponent zero. -/
theorem pack_subnormal {s : Sign} {m : BitVec 52} (hm : 0 < m.toNat) :
    pack .binary64 (.finite s m.toNat (-1074) hm) = packComponents .binary64 s 0 m := by
  have hlog : m.toNat.log2 < 52 := (Nat.log2_lt (by omega)).mpr m.isLt
  rw [pack]
  dsimp only
  rw [if_neg (by decide), if_neg (by rw [show Format.binary64.mantissaBits = 53 from rfl]; omega), BitVec.ofNat_toNat,
    BitVec.setWidth_eq]
  rfl

/-- A mantissa with its leading bit is put back without it, under its exponent. -/
theorem pack_normal {s : Sign} {e : BitVec 11} {m : BitVec 52} (he : e ≠ -1#11)
    (hm : 0 < (1#1 ++ m).toNat) :
    pack .binary64 (.finite s (1#1 ++ m).toNat (e.toNat - 1075) hm) =
      packComponents .binary64 s e m := by
  have hlast : e.toNat ≠ 2 ^ 11 - 1 := fun h => he (BitVec.eq_of_toNat_eq h)
  have hlt : e.toNat < 2 ^ 11 := e.isLt
  have hvalue : (1#1 ++ m).toNat = 2 ^ 52 + m.toNat := by
    rw [BitVec.toNat_append, ← Nat.shiftLeft_add_eq_or_of_lt m.isLt]
    rfl
  have hlog : (2 ^ 52 + m.toNat).log2 = 52 := by
    have := m.isLt
    rw [Nat.log2_eq_iff (by omega)]
    omega
  have hbias : ((e.toNat : ℤ) - 1075 + (Format.binary64.exponentBias : ℕ) + (52 : ℕ)).toNat =
      e.toNat := by
    rw [show Format.binary64.exponentBias = 1023 from rfl]
    omega
  rw [pack]
  dsimp only
  rw [hvalue, hlog, hbias, if_neg (by omega), if_pos (by rfl), BitVec.ofNat_toNat, BitVec.setWidth_eq,
    BitVec.ofNat_add, BitVec.ofNat_toNat, BitVec.setWidth_eq, show BitVec.ofNat 52 (2 ^ 52) = 0#52 from rfl,
    BitVec.zero_add]

theorem pack_unpack {b : BitVec (Format.numBits .binary64)} (h : Format.binary64.Valid b) :
    pack .binary64 (unpack .binary64 b) = b := by
  have hb := packComponents_parts b
  unfold unpack
  dsimp only
  split_ifs with hlast hm hzero hm
  · rw [hlast, hm] at hb
    exact hb
  · exact (h.eq_packedNaN hlast hm).symm
  · rw [hzero, hm] at hb
    exact hb
  · rw [hzero] at hb ⊢
    exact (pack_subnormal _).trans hb
  · exact (pack_normal hlast _).trans hb

/-- Bits determine the number. -/
theorem ofBits_toBits (x : Float) : Float.ofBits x.toBits = x := by
  obtain ⟨⟨bits, valid⟩⟩ := x
  show Float.ofModel ⟨.ofBitVec (pack .binary64 (unpack .binary64 bits.toBitVec)), _⟩ = _
  simp only [pack_unpack valid]

/-! ## Kinds of numbers -/

theorem infinityBits_eq : infinityBits = 2047 * 2 ^ 52 := rfl

theorem toNat_unpackExponent (b : BitVec (Format.numBits .binary64)) :
    (unpackExponent b).toNat = b.toNat / 2 ^ 52 % 2 ^ 11 := by
  rw [unpackExponent, BitVec.toNat_cast, BitVec.extractLsb_toNat, Nat.shiftRight_eq_div_pow]
  rfl

theorem toNat_unpackMantissa (b : BitVec (Format.numBits .binary64)) :
    (unpackMantissa b).toNat = b.toNat % 2 ^ 52 := by
  rw [unpackMantissa, BitVec.toNat_cast, BitVec.extractLsb_toNat, Nat.shiftRight_zero]
  rfl

/-- The greatest exponent belongs to infinite numbers and to what is not a number. -/
theorem unpackExponent_eq_last_iff (b : BitVec (Format.numBits .binary64)) :
    unpackExponent b = -1#11 ↔ infinityBits ≤ b.toNat % 2 ^ 63 := by
  rw [← BitVec.toNat_inj, toNat_unpackExponent, show (-1#11).toNat = 2047 from rfl,
    infinityBits_eq]
  have := b.isLt
  omega

theorem unpackMantissa_eq_zero_iff {b : BitVec (Format.numBits .binary64)}
    (h : unpackExponent b = -1#11) : unpackMantissa b = 0#52 ↔ b.toNat % 2 ^ 63 = infinityBits := by
  rw [unpackExponent_eq_last_iff] at h
  rw [← BitVec.toNat_inj, toNat_unpackMantissa, show (0#52).toNat = 0 from rfl]
  rw [infinityBits_eq] at h ⊢
  have := b.isLt
  omega

theorem unpack_isInf (b : BitVec (Format.numBits .binary64)) :
    (unpack .binary64 b).isInf = true ↔ b.toNat % 2 ^ 63 = infinityBits := by
  unfold unpack
  dsimp only
  split_ifs with hlast hm hzero hm
  · exact iff_of_true rfl ((unpackMantissa_eq_zero_iff hlast).mp hm)
  · exact iff_of_false Bool.false_ne_true fun h => hm ((unpackMantissa_eq_zero_iff hlast).mpr h)
  all_goals
    refine iff_of_false Bool.false_ne_true fun h => hlast ?_
    rw [unpackExponent_eq_last_iff, h]

theorem unpack_isNaN (b : BitVec (Format.numBits .binary64)) :
    (unpack .binary64 b).isNaN = true ↔ infinityBits < b.toNat % 2 ^ 63 := by
  unfold unpack
  dsimp only
  split_ifs with hlast hm hzero hm
  · refine iff_of_false Bool.false_ne_true ?_
    rw [(unpackMantissa_eq_zero_iff hlast).mp hm]
    exact Nat.lt_irrefl _
  · refine iff_of_true rfl (Nat.lt_of_le_of_ne ((unpackExponent_eq_last_iff b).mp hlast) fun h => ?_)
    exact hm ((unpackMantissa_eq_zero_iff hlast).mpr h.symm)
  all_goals
    refine iff_of_false Bool.false_ne_true fun h => hlast ?_
    exact (unpackExponent_eq_last_iff b).mpr (Nat.le_of_lt h)

/-- The infinite numbers, by their bits below the sign. -/
theorem isInf_iff (x : Float) : x.isInf = true ↔ x.toBits.toNat % 2 ^ 63 = infinityBits :=
  unpack_isInf _

/-- What is not a number, by its bits below the sign. -/
theorem isNaN_iff (x : Float) : x.isNaN = true ↔ infinityBits < x.toBits.toNat % 2 ^ 63 :=
  unpack_isNaN _

/-- Bits up to those of the infinite numbers, with either sign, are the bits of a number. -/
theorem toNat_toBits_ofBits {n : ℕ} (hn : n < 2 ^ 64) (h : n % 2 ^ 63 ≤ infinityBits) :
    (Float.ofBits (UInt64.ofNat n)).toBits.toNat = n := by
  have hbits : (UInt64.ofNat n).toBitVec.toNat = n := by
    rw [UInt64.toNat_toBitVec, UInt64.toNat_ofNat_of_lt' hn]
  have hvalid : Format.binary64.Valid (UInt64.ofNat n).toBitVec := by
    refine ⟨fun hlast hm => absurd ?_ hm⟩
    rw [unpackMantissa_eq_zero_iff hlast, hbits]
    rw [unpackExponent_eq_last_iff, hbits] at hlast
    exact Nat.le_antisymm h hlast
  show (pack .binary64 (unpack .binary64 (UInt64.ofNat n).toBitVec)).toNat = n
  rw [pack_unpack hvalid, hbits]

/-! ## Equality -/

theorem compare_sign_eq_iff (s t : Sign) : compare s t = .eq ↔ s = t := by
  cases s <;> cases t <;> simp <;> decide

/-- What is not a number compares as equal to nothing, and numbers compare as equal if they are the same or
both zero. -/
theorem compare_eq_iff {u v : UnpackedFloat} :
    u.compare v = some .eq ↔ u.isNaN = false ∧ (u = v ∨ ∃ s t, u = .zero s ∧ v = .zero t) := by
  cases u with
  | notANumber => simp [UnpackedFloat.compare, UnpackedFloat.isNaN]
  | infinity s =>
    cases v <;> cases s <;> simp [UnpackedFloat.compare, UnpackedFloat.isNaN, compare_sign_eq_iff]
  | zero s =>
    rcases v with (_ | _) | _ | _ | ⟨_ | _⟩ <;> simp [UnpackedFloat.compare, UnpackedFloat.isNaN]
  | finite s m e hm =>
    rcases v with (_ | _) | _ | _ | ⟨_ | _⟩ <;> cases s <;>
      simp [UnpackedFloat.compare, UnpackedFloat.isNaN, Ordering.then_eq_eq, and_comm]

theorem beq_iff (x y : Float) :
    (x == y) = true ↔ x.isNaN = false ∧ (x.toModel.unpack = y.toModel.unpack ∨
      ∃ s t, x.toModel.unpack = .zero s ∧ y.toModel.unpack = .zero t) := by
  show (x.toModel.unpack.compare y.toModel.unpack == some .eq) = true ↔ _
  rw [beq_iff_eq, compare_eq_iff]
  rfl

/-- Exactly the numbers are equal to themselves. -/
theorem beq_self_iff (x : Float) : (x == x) = true ↔ x.isNaN = false := by
  rw [beq_iff]
  exact and_iff_left (.inl rfl)

theorem beq_symm {x y : Float} (h : (x == y) = true) : (y == x) = true := by
  rw [beq_iff] at h ⊢
  obtain ⟨hx, h | ⟨s, t, hs, ht⟩⟩ := h
  · have hy : y.toModel.unpack.isNaN = false := h ▸ hx
    exact ⟨hy, .inl h.symm⟩
  · refine ⟨?_, .inr ⟨t, s, ht, hs⟩⟩
    show y.toModel.unpack.isNaN = false
    rw [ht]
    rfl

theorem beq_trans {x y z : Float} (hxy : (x == y) = true) (hyz : (y == z) = true) :
    (x == z) = true := by
  rw [beq_iff] at hxy hyz ⊢
  obtain ⟨hx, hxy⟩ := hxy
  refine ⟨hx, ?_⟩
  rcases hxy with hxy | ⟨s, t, hs, ht⟩
  · rw [hxy]
    exact hyz.2
  · rcases hyz.2 with hyz | ⟨t', r, -, hr⟩
    · exact .inr ⟨s, t, hs, hyz ▸ ht⟩
    · exact .inr ⟨s, r, hs, hr⟩

end SmallScheme.Decimal
