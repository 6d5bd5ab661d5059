import Mathlib.Algebra.Order.Field.Power
import Mathlib.Data.Int.Log
import Mathlib.Data.Rat.Floor
import Mathlib.Tactic.Linarith
import Mathlib.Tactic.NormNum
import Mathlib.Tactic.Positivity
import Mathlib.Tactic.Ring
import SmallScheme.Decimal.Shortest
import SmallScheme.Proofs.FloatBits

/-!
# Rounding decimals

`Binary.HasBits.nearestBits_eq`: a decimal within the interval of a positive finite number is read as
that number. The interval reaches half way to the two neighbours; its ends belong to it if the mantissa
is even.

1. `roundDiv_eq` and `lastBit_eq` say exactly what the integer arithmetic computes.
2. `Binary.HasBits` lists what holds of the parts of a number, and `Binary.Rounds` is the interval.
3. `Binary.HasBits.fractionBits_eq` has two cases. A decimal below a power of two can belong to it: then
   its last bit has half the weight, and its mantissa is rounded up to `2 ^ 53`.
-/

namespace SmallScheme.Decimal

/-! ## Rounding a quotient -/

/-- A quotient is rounded to `m` if it is within one half of it, and strictly so if `m` is odd. -/
theorem roundDiv_eq {n d m : ℕ} (hd : 0 < d) (hlow : 2 * (m * d) ≤ 2 * n + d)
    (hhigh : 2 * n ≤ 2 * (m * d) + d)
    (hodd : m % 2 = 1 → 2 * (m * d) < 2 * n + d ∧ 2 * n < 2 * (m * d) + d) : roundDiv n d = m := by
  have hn : d * (n / d) + n % d = n := Nat.div_add_mod n d
  have hr : n % d < d := Nat.mod_lt n hd
  rw [Nat.mul_comm] at hn
  unfold roundDiv
  dsimp only
  generalize n / d = low at hn ⊢
  generalize n % d = r at hn hr ⊢
  -- the quotient is `m` or the number before it
  have hm : m = low ∨ m = low + 1 := by
    by_contra hm
    rcases (by omega : m + 1 ≤ low ∨ low + 2 ≤ m) with h | h
    · have := Nat.mul_le_mul_right d h
      rw [Nat.add_mul] at this
      omega
    · have := Nat.mul_le_mul_right d h
      rw [Nat.add_mul] at this
      omega
  rcases hm with rfl | rfl
  · split_ifs <;> omega
  · rw [Nat.add_mul] at hlow hhigh hodd
    split_ifs <;> omega

theorem roundDiv_of_div {n d m : ℕ} (hd : 0 < d) (hlow : (m : ℚ) - 1 / 2 ≤ n / d)
    (hhigh : (n : ℚ) / d ≤ m + 1 / 2)
    (hodd : m % 2 = 1 → (m : ℚ) - 1 / 2 < n / d ∧ (n : ℚ) / d < m + 1 / 2) : roundDiv n d = m := by
  have hdq : (0 : ℚ) < d := by exact_mod_cast hd
  rw [le_div_iff₀ hdq] at hlow
  rw [div_le_iff₀ hdq] at hhigh
  rw [lt_div_iff₀ hdq, div_lt_iff₀ hdq] at hodd
  have cast_le {a b : ℕ} (h : (a : ℚ) ≤ b) : a ≤ b := by exact_mod_cast h
  have cast_lt {a b : ℕ} (h : (a : ℚ) < b) : a < b := by exact_mod_cast h
  refine roundDiv_eq hd (cast_le ?_) (cast_le ?_) fun hm => ⟨cast_lt ?_, cast_lt ?_⟩
  · push_cast; linarith
  · push_cast; linarith
  · push_cast; linarith [(hodd hm).1]
  · push_cast; linarith [(hodd hm).2]

theorem scaleDown_spec (num : ℕ) {den : ℕ} (hd : 0 < den) (e : ℤ) :
    0 < (scaleDown num den e).2 ∧
      ((scaleDown num den e).1 : ℚ) / (scaleDown num den e).2 = num / den / 2 ^ e := by
  unfold scaleDown twoTo
  split_ifs with he
  · obtain ⟨k, rfl⟩ : ∃ k : ℕ, e = -k := ⟨(-e).toNat, by omega⟩
    refine ⟨hd, ?_⟩
    rw [neg_neg, Int.toNat_natCast, Nat.pow_eq, zpow_neg, zpow_natCast, div_inv_eq_mul]
    push_cast
    ring
  · obtain ⟨k, rfl⟩ : ∃ k : ℕ, e = k := ⟨e.toNat, by omega⟩
    refine ⟨Nat.mul_pos hd (Nat.pow_pos (by decide)), ?_⟩
    rw [Int.toNat_natCast, Nat.pow_eq, zpow_natCast, div_div]
    push_cast
    rfl

/-- The weight of the last bit is 52 places below the leading bit of the fraction. -/
theorem lastBit_eq {num den : ℕ} (hn : 0 < num) (hd : 0 < den) :
    lastBit num den = max (-1074) (Int.log 2 ((num : ℚ) / den) - 52) := by
  have hnq : (0 : ℚ) < num := by exact_mod_cast hn
  have hdq : (0 : ℚ) < den := by exact_mod_cast hd
  have hq : (0 : ℚ) < num / den := div_pos hnq hdq
  obtain ⟨hpos, hscaled⟩ := scaleDown_spec num hd ((num.log2 : ℤ) - den.log2 - 52)
  unfold lastBit
  dsimp only
  generalize scaleDown num den ((num.log2 : ℤ) - den.log2 - 52) = nd at hpos hscaled ⊢
  obtain ⟨n, d⟩ := nd
  have hposq : (0 : ℚ) < d := by exact_mod_cast hpos
  have htwo : (0 : ℚ) < 2 := by norm_num
  -- the scaled fraction has its leading bit at place 52 or 51
  have hcompare : n < d * twoTo 52 ↔ (num : ℚ) / den < 2 ^ ((num.log2 : ℤ) - den.log2) := by
    have : ((d * twoTo 52 : ℕ) : ℚ) = 2 ^ (52 : ℤ) * d := by
      rw [twoTo]; push_cast; ring
    rw [← Nat.cast_lt (α := ℚ), this, ← div_lt_iff₀ hposq, hscaled, div_lt_iff₀ (by positivity),
      ← zpow_add₀ htwo.ne']
    ring_nf
  have hlow : (2 : ℚ) ^ ((num.log2 : ℤ) - den.log2 - 1) ≤ num / den := by
    have hnum : (2 : ℚ) ^ (num.log2 : ℤ) ≤ num := by exact_mod_cast Nat.log2_self_le hn.ne'
    have hden : (den : ℚ) ≤ 2 ^ ((den.log2 : ℤ) + 1) := by exact_mod_cast Nat.lt_log2_self.le
    rw [le_div_iff₀ hdq]
    calc (2 : ℚ) ^ ((num.log2 : ℤ) - den.log2 - 1) * den
        ≤ 2 ^ ((num.log2 : ℤ) - den.log2 - 1) * 2 ^ ((den.log2 : ℤ) + 1) := by gcongr
      _ = 2 ^ (num.log2 : ℤ) := by rw [← zpow_add₀ htwo.ne']; ring_nf
      _ ≤ num := hnum
  have hhigh : (num : ℚ) / den < 2 ^ ((num.log2 : ℤ) - den.log2 + 1) := by
    have hnum : (num : ℚ) < 2 ^ ((num.log2 : ℤ) + 1) := by exact_mod_cast Nat.lt_log2_self
    have hden : (2 : ℚ) ^ (den.log2 : ℤ) ≤ den := by exact_mod_cast Nat.log2_self_le hd.ne'
    rw [div_lt_iff₀ hdq]
    calc (num : ℚ) < 2 ^ ((num.log2 : ℤ) + 1) := hnum
      _ = 2 ^ ((num.log2 : ℤ) - den.log2 + 1) * 2 ^ (den.log2 : ℤ) := by
        rw [← zpow_add₀ htwo.ne']; ring_nf
      _ ≤ 2 ^ ((num.log2 : ℤ) - den.log2 + 1) * den := by gcongr
  rw [← Nat.cast_two (R := ℚ)] at hlow hhigh hcompare
  rw [Int.zpow_le_iff_le_log (by decide) hq] at hlow
  rw [Int.lt_zpow_iff_log_lt (by decide) hq] at hhigh hcompare
  congr 1
  split_ifs with h
  · have := hcompare.mp h
    omega
  · have := mt hcompare.mpr h
    omega

theorem lastBit_of_lt {num den : ℕ} (hn : 0 < num) (hd : 0 < den) {w : ℤ} (hw : -1074 ≤ w)
    (hhigh : (num : ℚ) / den < 2 ^ (w + 53))
    (hlow : -1074 < w → (2 : ℚ) ^ (w + 52) ≤ num / den) : lastBit num den = w := by
  have hq : (0 : ℚ) < num / den := div_pos (by exact_mod_cast hn) (by exact_mod_cast hd)
  have hlog := (Int.lt_zpow_iff_log_lt (b := 2) (by decide) hq).mp (by exact_mod_cast hhigh)
  rw [lastBit_eq hn hd]
  rcases (by omega : w = -1074 ∨ -1074 < w) with rfl | hw
  · omega
  · have := (Int.zpow_le_iff_le_log (b := 2) (by decide) hq).mp (by exact_mod_cast hlow hw)
    omega

/-! ## The numbers that a decimal is rounded to -/

/-- `b` is the positive finite number with these bits. -/
structure Binary.HasBits (b : Binary) (bits : ℕ) : Prop where
  bits_eq : (bits : ℤ) = (b.exponent + 1074) * 2 ^ 52 + b.mantissa
  mantissa_pos : 0 < b.mantissa
  mantissa_lt : b.mantissa < 2 ^ 53
  le_exponent : -1074 ≤ b.exponent
  le_mantissa : -1074 < b.exponent → 2 ^ 52 ≤ b.mantissa
  narrowBelow_iff : b.narrowBelow = true ↔ b.mantissa = 2 ^ 52 ∧ -1074 < b.exponent
  lt_infinityBits : bits < infinityBits

theorem Binary.hasBits_ofBits {bits : ℕ} (hpos : 0 < bits) (hlt : bits < infinityBits) :
    (ofBits bits).HasBits bits := by
  have hfield : bits / twoTo 52 % twoTo 11 = bits / 2 ^ 52 := by
    rw [infinityBits_eq] at hlt
    show bits / 2 ^ 52 % 2 ^ 11 = _
    omega
  unfold ofBits
  rw [hfield, show twoTo 52 = 2 ^ 52 from rfl]
  dsimp only
  split_ifs with h
  · exact {
      bits_eq := by dsimp only; omega
      mantissa_pos := by dsimp only; omega
      mantissa_lt := by dsimp only; omega
      le_exponent := Int.le_refl _
      le_mantissa := fun h => absurd h (Int.lt_irrefl _)
      narrowBelow_iff := by simp
      lt_infinityBits := hlt }
  · exact {
      bits_eq := by dsimp only; push_cast; omega
      mantissa_pos := by dsimp only; omega
      mantissa_lt := by dsimp only; omega
      le_exponent := by dsimp only; omega
      le_mantissa := fun _ => Nat.le_add_left _ _
      narrowBelow_iff := by simp only [decide_eq_true_eq]; omega
      lt_infinityBits := hlt }

/-- The decimals that are rounded to a number: those up to the middle between it and its neighbours,
and the middle itself if the mantissa is even. -/
structure Binary.Rounds (b : Binary) (q : ℚ) : Prop where
  low_le : (4 * b.mantissa - if b.narrowBelow then 1 else 2) * 2 ^ (b.exponent - 2) ≤ q
  le_high : q ≤ (4 * b.mantissa + 2) * 2 ^ (b.exponent - 2)
  of_odd : b.mantissa % 2 = 1 →
    (4 * b.mantissa - if b.narrowBelow then 1 else 2) * 2 ^ (b.exponent - 2) < q ∧
      q < (4 * b.mantissa + 2) * 2 ^ (b.exponent - 2)

/-- A fraction within one half of `m`, in units of its last bit, has the mantissa `m`. -/
theorem fractionBits_eq {num den m : ℕ} (hd : 0 < den) {w : ℤ} (hw : lastBit num den = w)
    (hlow : ((m : ℚ) - 1 / 2) * 2 ^ w ≤ num / den) (hhigh : (num : ℚ) / den ≤ (m + 1 / 2) * 2 ^ w)
    (hodd : m % 2 = 1 →
      ((m : ℚ) - 1 / 2) * 2 ^ w < num / den ∧ (num : ℚ) / den < (m + 1 / 2) * 2 ^ w) :
    fractionBits num den = min infinityBits ((w + 1074).toNat * 2 ^ 52 + m) := by
  have hpow : (0 : ℚ) < 2 ^ w := by positivity
  obtain ⟨hpos, hscaled⟩ := scaleDown_spec num hd w
  rw [← le_div_iff₀ hpow, ← hscaled] at hlow
  rw [← div_le_iff₀ hpow, ← hscaled] at hhigh
  rw [← lt_div_iff₀ hpow, ← div_lt_iff₀ hpow, ← hscaled] at hodd
  rw [fractionBits, hw, roundDiv_of_div hpos hlow hhigh hodd, Nat.shiftLeft_eq]

theorem two_zpow_add (e : ℤ) (k : ℕ) : (2 : ℚ) ^ (e + k) = 2 ^ k * 2 ^ e := by
  rw [zpow_add₀ (by norm_num), zpow_natCast, mul_comm]

theorem two_zpow_sub_two (e : ℤ) : (2 : ℚ) ^ (e - 2) = 2 ^ e / 4 := by
  rw [zpow_sub₀ (by norm_num)]
  norm_num

namespace Binary

variable {b : Binary} {bits : ℕ}

/-- Only a power of two is the nearest number to a fraction below that power. -/
theorem HasBits.mantissa_eq_of_lt (h : b.HasBits bits) {q : ℚ} (hr : b.Rounds q)
    (hexp : -1074 < b.exponent) (hbelow : q < 2 ^ (b.exponent + 52)) : b.mantissa = 2 ^ 52 := by
  have hunit : (0 : ℚ) < 2 ^ b.exponent := by positivity
  by_contra hne
  have hwide : b.narrowBelow = false := by
    rw [Bool.eq_false_iff]
    intro hnarrow
    exact hne (h.narrowBelow_iff.mp hnarrow).1
  have hm : (2 : ℚ) ^ 52 + 1 ≤ b.mantissa := by
    have := h.le_mantissa hexp
    exact_mod_cast (by omega : 2 ^ 52 + 1 ≤ b.mantissa)
  have hlow := hr.low_le
  rw [two_zpow_sub_two, if_neg (by simp [hwide])] at hlow
  rw [show (52 : ℤ) = (52 : ℕ) from rfl, two_zpow_add] at hbelow
  nlinarith

/-- Below a power of two the mantissa has a finer unit, in which it is rounded up to the power. -/
theorem HasBits.fractionBits_of_lt (h : b.HasBits bits) {num den : ℕ} (hn : 0 < num) (hd : 0 < den)
    (hr : b.Rounds (num / den)) (hexp : -1074 < b.exponent)
    (hbelow : (num : ℚ) / den < 2 ^ (b.exponent + 52)) : fractionBits num den = bits := by
  have hpower := h.mantissa_eq_of_lt hr hexp hbelow
  obtain ⟨hbits, -, -, -, -, hnarrow, hlt⟩ := h
  have hunit : (0 : ℚ) < 2 ^ b.exponent := by positivity
  have hhalf : (2 : ℚ) ^ (b.exponent - 1) = 2 ^ b.exponent / 2 := by
    rw [zpow_sub_one₀ (by norm_num)]
    ring
  have hlow := hr.low_le
  rw [two_zpow_sub_two, if_pos (hnarrow.mpr ⟨hpower, hexp⟩), hpower] at hlow
  push_cast at hlow
  rw [show (52 : ℤ) = (52 : ℕ) from rfl, two_zpow_add] at hbelow
  have hw : lastBit num den = b.exponent - 1 := by
    refine lastBit_of_lt hn hd (by omega) ?_ fun _ => ?_
    · rw [show b.exponent - 1 + 53 = b.exponent + (52 : ℕ) by push_cast; ring, two_zpow_add]
      exact hbelow
    · rw [show b.exponent - 1 + 52 = b.exponent + (51 : ℕ) by push_cast; ring, two_zpow_add]
      nlinarith
  rw [Decimal.fractionBits_eq (m := 2 ^ 53) hd hw]
  · rw [infinityBits_eq] at hlt ⊢
    omega
  · rw [hhalf]
    push_cast
    linarith
  · rw [hhalf]
    push_cast
    linarith
  · intro hodd
    omega

theorem HasBits.fractionBits_of_le (h : b.HasBits bits) {num den : ℕ} (hn : 0 < num) (hd : 0 < den)
    (hr : b.Rounds (num / den))
    (habove : -1074 < b.exponent → (2 : ℚ) ^ (b.exponent + 52) ≤ num / den) :
    fractionBits num den = bits := by
  obtain ⟨hbits, -, hmlt, hE, -, -, hlt⟩ := h
  obtain ⟨hlow, hhigh, hodd⟩ := hr
  rw [two_zpow_sub_two] at hlow hhigh hodd
  have hunit : (0 : ℚ) < 2 ^ b.exponent := by positivity
  have hmq : (b.mantissa : ℚ) + 1 ≤ 2 ^ 53 := by exact_mod_cast hmlt
  have hgap : (if b.narrowBelow then 1 else 2 : ℚ) ≤ 2 := by split_ifs <;> norm_num
  have hw : lastBit num den = b.exponent := by
    refine lastBit_of_lt hn hd hE ?_ habove
    rw [show (53 : ℤ) = (53 : ℕ) from rfl, two_zpow_add]
    nlinarith
  rw [Decimal.fractionBits_eq (m := b.mantissa) hd hw]
  · rw [infinityBits_eq] at hlt ⊢
    omega
  · nlinarith
  · linarith
  · intro h
    obtain ⟨hlow, hhigh⟩ := hodd h
    constructor
    · nlinarith
    · linarith

/-- A fraction that is rounded to a number has its bits. -/
theorem HasBits.fractionBits_eq (h : b.HasBits bits) {num den : ℕ}
    (hn : 0 < num) (hd : 0 < den) (hr : b.Rounds (num / den)) : fractionBits num den = bits := by
  by_cases hbelow : -1074 < b.exponent ∧ (num : ℚ) / den < 2 ^ (b.exponent + 52)
  · exact h.fractionBits_of_lt hn hd hr hbelow.1 hbelow.2
  · refine h.fractionBits_of_le hn hd hr fun hexp => ?_
    exact not_lt.mp fun hlt => hbelow ⟨hexp, hlt⟩

theorem HasBits.exponent_le (h : b.HasBits bits) : b.exponent ≤ 971 := by
  have hbits := h.bits_eq
  have hlt := h.lt_infinityBits
  rw [infinityBits_eq] at hlt
  by_cases he : -1074 < b.exponent
  · have := h.le_mantissa he
    omega
  · omega

theorem HasBits.lt_of_rounds (h : b.HasBits bits) {q : ℚ} (hr : b.Rounds q) : q < 2 ^ (1024 : ℤ) := by
  have hmq : (b.mantissa : ℚ) + 1 ≤ 2 ^ 53 := by exact_mod_cast h.mantissa_lt
  have hle := h.exponent_le
  calc q ≤ (4 * b.mantissa + 2) * 2 ^ (b.exponent - 2) := hr.le_high
    _ ≤ (4 * b.mantissa + 2) * 2 ^ (969 : ℤ) := by gcongr; norm_num; omega
    _ < 2 ^ (55 : ℤ) * 2 ^ (969 : ℤ) := by gcongr; norm_num; linarith
    _ = 2 ^ (1024 : ℤ) := by rw [← zpow_add₀ (by norm_num)]; norm_num

theorem HasBits.le_of_rounds (h : b.HasBits bits) {q : ℚ} (hr : b.Rounds q) : 2 ^ (-1075 : ℤ) ≤ q := by
  have hm : (1 : ℚ) ≤ b.mantissa := by exact_mod_cast h.mantissa_pos
  have hgap : (if b.narrowBelow then 1 else 2 : ℚ) ≤ 2 := by split_ifs <;> norm_num
  have hE := h.le_exponent
  calc (2 : ℚ) ^ (-1075 : ℤ) = 2 * 2 ^ (-1076 : ℤ) := by
        rw [show (-1075 : ℤ) = 1 + -1076 by norm_num, zpow_add₀ (by norm_num), zpow_one]
    _ ≤ 2 * 2 ^ (b.exponent - 2) := by gcongr; norm_num; omega
    _ ≤ (4 * b.mantissa - if b.narrowBelow then 1 else 2) * 2 ^ (b.exponent - 2) := by gcongr; linarith
    _ ≤ q := hr.low_le

theorem eight_zpow (e : ℤ) : (2 : ℚ) ^ (3 * e) = 8 ^ e := by
  rw [zpow_mul]
  norm_num

theorem ten_zpow_le_eight_zpow {e : ℤ} (he : e < 0) : (10 : ℚ) ^ e ≤ 8 ^ e := by
  obtain ⟨k, rfl⟩ : ∃ k : ℕ, e = -k := ⟨(-e).toNat, by omega⟩
  rw [zpow_neg, zpow_neg, zpow_natCast, zpow_natCast]
  gcongr
  norm_num

/-- A decimal is read as the number to which it is rounded. -/
theorem HasBits.nearestBits_eq (h : b.HasBits bits) {digits : ℕ} {exponent : ℤ}
    (hr : b.Rounds (digits * 10 ^ exponent)) : nearestBits digits exponent = bits := by
  have hlow := h.le_of_rounds hr
  have hhigh := h.lt_of_rounds hr
  have hpos : digits ≠ 0 := by
    rintro rfl
    rw [Nat.cast_zero, zero_mul] at hlow
    exact absurd hlow (not_le.mpr (by positivity))
  have hlog : (2 : ℚ) ^ (digits.log2 : ℤ) ≤ digits := by exact_mod_cast Nat.log2_self_le hpos
  have hlog' : (digits : ℚ) < 2 ^ ((digits.log2 : ℤ) + 1) := by exact_mod_cast Nat.lt_log2_self
  have hlarge : ¬(3 * exponent + digits.log2 > 1100 ∧ 0 ≤ exponent) := by
    rintro ⟨hsum, he⟩
    refine absurd hhigh (not_lt.mpr ?_)
    calc (2 : ℚ) ^ (1024 : ℤ) ≤ 2 ^ ((digits.log2 : ℤ) + 3 * exponent) := by gcongr; norm_num; omega
      _ = 2 ^ (digits.log2 : ℤ) * 8 ^ exponent := by rw [zpow_add₀ (by norm_num), eight_zpow]
      _ ≤ digits * 10 ^ exponent := by
        gcongr
        exact zpow_le_zpow_left₀ he (by norm_num) (by norm_num)
  have hsmall : ¬(3 * exponent + digits.log2 < -1100 ∧ exponent < 0) := by
    rintro ⟨hsum, he⟩
    refine absurd hlow (not_le.mpr ?_)
    calc (digits : ℚ) * 10 ^ exponent ≤ digits * 8 ^ exponent := by
          gcongr
          exact ten_zpow_le_eight_zpow he
      _ < 2 ^ ((digits.log2 : ℤ) + 1) * 8 ^ exponent := by gcongr
      _ = 2 ^ ((digits.log2 : ℤ) + 1 + 3 * exponent) := by rw [← eight_zpow, ← zpow_add₀ (by norm_num)]
      _ ≤ 2 ^ (-1075 : ℤ) := by gcongr; norm_num; omega
  unfold nearestBits
  dsimp only
  rw [if_neg hpos, if_neg hlarge, if_neg hsmall]
  split_ifs with he
  · obtain ⟨k, rfl⟩ : ∃ k : ℕ, exponent = -k := ⟨(-exponent).toNat, by omega⟩
    rw [neg_neg, Int.toNat_natCast]
    refine h.fractionBits_eq (by omega) (Nat.pow_pos (by decide)) ?_
    convert hr using 1
    rw [tenTo, Nat.pow_eq, zpow_neg, zpow_natCast, Nat.cast_pow, div_eq_mul_inv]
    norm_num
  · obtain ⟨k, rfl⟩ : ∃ k : ℕ, exponent = k := ⟨exponent.toNat, by omega⟩
    rw [Int.toNat_natCast]
    refine h.fractionBits_eq (Nat.mul_pos (by omega) (Nat.pow_pos (by decide))) (by decide) ?_
    convert hr using 1
    rw [tenTo, Nat.pow_eq, zpow_natCast]
    push_cast
    ring

end Binary

/-! ## Numbers from decimals -/

theorem nearestBits_le (digits : ℕ) (exponent : ℤ) : nearestBits digits exponent ≤ infinityBits := by
  unfold nearestBits fractionBits
  dsimp only
  split_ifs
  · exact Nat.zero_le _
  · exact Nat.le_refl _
  · exact Nat.zero_le _
  · exact Nat.min_le_left _ _
  · exact Nat.min_le_left _ _

/-- Every decimal denotes a number. -/
theorem isNaN_nearest (negative : Bool) (digits : ℕ) (exponent : ℤ) :
    (nearest negative digits exponent).isNaN = false := by
  have hle := nearestBits_le digits exponent
  have hbits : (if negative then 1 <<< 63 + nearestBits digits exponent
      else nearestBits digits exponent) < 2 ^ 64 ∧ (if negative then 1 <<< 63 + nearestBits digits exponent
      else nearestBits digits exponent) % 2 ^ 63 ≤ infinityBits := by
    rw [Nat.shiftLeft_eq]
    rw [infinityBits_eq] at hle ⊢
    split_ifs <;> omega
  rw [Bool.eq_false_iff, ne_eq, isNaN_iff, nearest, toNat_toBits_ofBits hbits.1 hbits.2, not_lt]
  exact hbits.2

/-- The nearest number is known by its sign and its other bits. -/
theorem nearest_eq {x : Float} {digits : ℕ} {exponent : ℤ}
    (h : nearestBits digits exponent = x.toBits.toNat % 2 ^ 63) :
    nearest (decide (x.toBits.toNat / 2 ^ 63 = 1)) digits exponent = x := by
  have hlt : x.toBits.toNat < 2 ^ 64 := x.toBits.toNat_lt
  have hbits : (if decide (x.toBits.toNat / 2 ^ 63 = 1) then 1 <<< 63 + nearestBits digits exponent
      else nearestBits digits exponent) = x.toBits.toNat := by
    rw [h, Nat.shiftLeft_eq]
    simp only [decide_eq_true_eq]
    split_ifs <;> omega
  unfold nearest
  dsimp only
  rw [hbits, UInt64.ofNat_toNat, ofBits_toBits]

end SmallScheme.Decimal
