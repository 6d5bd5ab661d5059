import Mathlib.Data.List.DropRight
import Mathlib.Data.List.TakeWhile
import Mathlib.Tactic.FieldSimp
import SmallScheme.Decimal.Numeral
import SmallScheme.Proofs.Rounding

/-!
# The shortest decimal reads back

`number?_text`: the text of a finite number denotes the number.

1. A grid point that is accepted is rounded to the number (`Binary.rounds_of_accepts`).
2. On the grid of the seventeenth digit there is such a point (`Binary.HasBits.pick_ne_none`), so the
   search finds one (`Binary.HasBits.rounds_shortest`).
3. Positional notation is a numeral for the decimal (`positional_spec`), and a numeral denotes the
   nearest number to its decimal (`plainNumber?_numeral`).
-/

namespace SmallScheme.Decimal

open Text

/-! ## Points of a grid -/

namespace Measured

variable {m : Measured}

theorem accepts_of_lt {p : ℕ} (hlow : m.low < p * m.unit) (hhigh : p * m.unit < m.high) :
    m.accepts p = true := by
  unfold accepts
  split_ifs
  · simp [hlow.le, hhigh.le]
  · simp [hlow, hhigh]

theorem accepts_of_pick {p : ℕ} (h : m.pick = some p) : m.accepts p = true := by
  unfold pick at h
  dsimp only at h
  split_ifs at h with hhigh hlow
  · cases h
    exact (Bool.and_eq_true _ _ ▸ hhigh).1
  · cases h
    exact hlow

theorem not_accepts_of_pick (h : m.pick = none) :
    ¬m.accepts (m.value / m.unit) = true ∧ ¬m.accepts (m.value / m.unit + 1) = true := by
  unfold pick at h
  dsimp only at h
  split_ifs at h with hhigh hlow
  rw [Bool.not_eq_true] at hlow
  rw [hlow, Bool.not_false, Bool.true_or, Bool.and_true] at hhigh
  exact ⟨Bool.eq_false_iff.mp hlow, hhigh⟩

/-- One of the two grid points next to the number lies in its interval if this is wider than the
grid. -/
theorem pick_ne_none (hunit : 0 < m.unit) (hlow : m.low < m.value) (hhigh : m.value < m.high)
    (hwide : m.unit + m.low < m.high) : m.pick ≠ none := by
  intro hnone
  obtain ⟨hbelow, hnext⟩ := not_accepts_of_pick hnone
  have hdiv : m.unit * (m.value / m.unit) + m.value % m.unit = m.value :=
    Nat.div_add_mod m.value m.unit
  have hmod : m.value % m.unit < m.unit := Nat.mod_lt _ hunit
  rw [Nat.mul_comm] at hdiv
  by_cases hfits : m.low < m.value / m.unit * m.unit
  · exact hbelow (accepts_of_lt hfits (by omega))
  · refine hnext (accepts_of_lt ?_ ?_)
    · rw [Nat.add_mul]
      omega
    · rw [Nat.add_mul]
      omega

end Measured

/-! ## Measuring a number on a grid -/

theorem pow_toNat {a : ℚ} (ha : a ≠ 0) (n : ℤ) : a ^ n.toNat = a ^ n * a ^ (-n).toNat := by
  rw [← zpow_natCast, ← zpow_natCast, ← zpow_add₀ ha]
  congr 1
  omega

namespace Binary

variable {b : Binary} {bits : ℕ} {place : ℤ}

theorem unit_pos (b : Binary) (place : ℤ) : 0 < (b.measure place).unit :=
  Nat.mul_pos (Nat.pow_pos (by decide)) (Nat.pow_pos (by decide))

/-- The common unit: a quarter of the gap above, in multiples of `10 ^ place`. -/
theorem quarter_mul_unit (b : Binary) (place : ℤ) :
    ((twoTo (b.exponent - 2).toNat * tenTo (-place).toNat : ℕ) : ℚ) * 10 ^ place =
      2 ^ (b.exponent - 2) * (b.measure place).unit := by
  have h2 := pow_toNat (a := 2) (by norm_num) (b.exponent - 2)
  have h10 := pow_toNat (a := 10) (by norm_num) place
  unfold measure
  dsimp only
  simp only [twoTo, tenTo, Nat.pow_eq]
  push_cast
  rw [h2, h10]
  ring

theorem scale_pos (b : Binary) (place : ℤ) : (0 : ℚ) < (b.measure place).unit / 10 ^ place :=
  div_pos (by exact_mod_cast b.unit_pos place) (by positivity)

/-- A point of the grid in the common unit. -/
theorem point_mul_unit (b : Binary) (place : ℤ) (p : ℕ) :
    ((p * (b.measure place).unit : ℕ) : ℚ) =
      p * 10 ^ place * ((b.measure place).unit / 10 ^ place) := by
  push_cast
  field_simp

/-- A number of quarters of the gap above in the common unit. -/
theorem quarters_mul (b : Binary) (place : ℤ) (k : ℕ) :
    ((k * (twoTo (b.exponent - 2).toNat * tenTo (-place).toNat) : ℕ) : ℚ) =
      k * 2 ^ (b.exponent - 2) * ((b.measure place).unit / 10 ^ place) := by
  have h := b.quarter_mul_unit place
  rw [← eq_div_iff (by positivity)] at h
  rw [Nat.cast_mul, h]
  ring

theorem cast_value (b : Binary) (place : ℤ) :
    ((b.measure place).value : ℚ) =
      b.mantissa * 2 ^ b.exponent * ((b.measure place).unit / 10 ^ place) := by
  refine (b.quarters_mul place (4 * b.mantissa)).trans ?_
  rw [two_zpow_sub_two]
  push_cast
  ring

theorem cast_high (b : Binary) (place : ℤ) :
    ((b.measure place).high : ℚ) =
      (4 * b.mantissa + 2) * 2 ^ (b.exponent - 2) * ((b.measure place).unit / 10 ^ place) := by
  refine (b.quarters_mul place (4 * b.mantissa + 2)).trans ?_
  push_cast
  rfl

theorem cast_low (hm : 0 < b.mantissa) (place : ℤ) :
    ((b.measure place).low : ℚ) =
      (4 * b.mantissa - if b.narrowBelow then 1 else 2) * 2 ^ (b.exponent - 2) *
        ((b.measure place).unit / 10 ^ place) := by
  refine (b.quarters_mul place (4 * b.mantissa - if b.narrowBelow then 1 else 2)).trans ?_
  rw [Nat.cast_sub (by split_ifs <;> omega)]
  push_cast
  rfl

section Scale

variable {x y : ℕ} {q r s : ℚ}

theorem lt_iff_scale (hs : 0 < s) (hx : (x : ℚ) = q * s) (hy : (y : ℚ) = r * s) : x < y ↔ q < r := by
  rw [← Nat.cast_lt (α := ℚ), hx, hy, mul_lt_mul_iff_left₀ hs]

theorem le_iff_scale (hs : 0 < s) (hx : (x : ℚ) = q * s) (hy : (y : ℚ) = r * s) : x ≤ y ↔ q ≤ r := by
  rw [← Nat.cast_le (α := ℚ), hx, hy, mul_le_mul_iff_left₀ hs]

end Scale

/-- The points that the measure accepts are rounded to the number. -/
theorem rounds_of_accepts (hm : 0 < b.mantissa) {p : ℕ}
    (h : (b.measure place).accepts p = true) : b.Rounds (p * 10 ^ place) := by
  have hs := b.scale_pos place
  have hp := b.point_mul_unit place p
  unfold Measured.accepts at h
  split_ifs at h with hclosed
  · simp only [Bool.and_eq_true, decide_eq_true_eq] at h
    refine ⟨(le_iff_scale hs (cast_low hm place) hp).mp h.1,
      (le_iff_scale hs hp (b.cast_high place)).mp h.2, fun hodd => ?_⟩
    have heven : b.mantissa % 2 = 0 := of_decide_eq_true hclosed
    omega
  · simp only [Bool.and_eq_true, decide_eq_true_eq] at h
    have hlow := (lt_iff_scale hs (cast_low hm place) hp).mp h.1
    have hhigh := (lt_iff_scale hs hp (b.cast_high place)).mp h.2
    exact ⟨hlow.le, hhigh.le, fun _ => ⟨hlow, hhigh⟩⟩

/-! ## Seventeen digits suffice -/

/-- Scaling a binary logarithm by 0.30103 and taking two off gives a power of ten below. -/
theorem ten_zpow_le_two_zpow {k n : ℤ} (hlow : -1100 ≤ n) (hhigh : n ≤ 1100)
    (h : 100000 * (k + 2) ≤ 30103 * n) : (10 : ℚ) ^ k ≤ 2 ^ n := by
  by_cases hk : 0 ≤ k
  · -- from `10 ^ 3 ≤ 2 ^ 10`
    refine le_of_pow_le_pow_left₀ (n := 3) (by decide) (by positivity) ?_
    calc ((10 : ℚ) ^ k) ^ 3 = 1000 ^ k := by
          rw [← zpow_natCast, zpow_comm]; norm_num
      _ ≤ 1024 ^ k := zpow_le_zpow_left₀ hk (by norm_num) (by norm_num)
      _ = 2 ^ (10 * k) := by rw [zpow_mul]; norm_num
      _ ≤ 2 ^ (n * 3) := zpow_le_zpow_right₀ (by norm_num) (by omega)
      _ = (2 ^ n) ^ 3 := by rw [zpow_mul]; rfl
  · -- from `2 ^ 93 ≤ 10 ^ 28`
    refine le_of_pow_le_pow_left₀ (n := 28) (by decide) (by positivity) ?_
    obtain ⟨j, rfl⟩ : ∃ j : ℕ, k = -j := ⟨(-k).toNat, by omega⟩
    calc ((10 : ℚ) ^ (-j : ℤ)) ^ 28 = ((10 ^ 28) ^ j)⁻¹ := by
          rw [zpow_neg, inv_pow, zpow_natCast, ← pow_mul, ← pow_mul, mul_comm]
      _ ≤ ((2 ^ 93) ^ j)⁻¹ := by gcongr; norm_num
      _ = 2 ^ (93 * -j : ℤ) := by
        rw [← pow_mul, mul_neg, zpow_neg]
        norm_cast
      _ ≤ 2 ^ (n * 28) := zpow_le_zpow_right₀ (by norm_num) (by omega)
      _ = (2 ^ n) ^ 28 := by rw [zpow_mul]; rfl

theorem magnitudeFrom_spec (b : Binary) (fuel : ℕ) {place : ℤ}
    (h : (10 : ℚ) ^ (place - 1) ≤ b.mantissa * 2 ^ b.exponent) :
    (10 : ℚ) ^ (b.magnitudeFrom fuel place - 1) ≤ b.mantissa * 2 ^ b.exponent := by
  induction fuel generalizing place with
  | zero => exact h
  | succ fuel ih =>
    unfold magnitudeFrom
    dsimp only
    split_ifs with hle
    · apply ih
      have hunit := b.point_mul_unit place 1
      rw [Nat.one_mul, Nat.cast_one, one_mul] at hunit
      rw [add_sub_cancel_right]
      exact (le_iff_scale (b.scale_pos place) hunit (b.cast_value place)).mp hle
    · exact h

theorem HasBits.magnitude_spec (h : b.HasBits bits) :
    (10 : ℚ) ^ (b.magnitude - 1) ≤ b.mantissa * 2 ^ b.exponent := by
  have hpos := h.mantissa_pos
  have hlog : (b.mantissa.log2 : ℤ) < 53 := by
    exact_mod_cast (Nat.log2_lt hpos.ne').mpr h.mantissa_lt
  have hle := h.exponent_le
  have hge := h.le_exponent
  have hself : (2 : ℚ) ^ (b.mantissa.log2 : ℤ) ≤ b.mantissa := by
    exact_mod_cast Nat.log2_self_le hpos.ne'
  apply magnitudeFrom_spec
  calc (10 : ℚ) ^ (Int.fdiv ((b.mantissa.log2 + b.exponent) * 30103) 100000 - 1 - 1)
      ≤ 2 ^ (b.mantissa.log2 + b.exponent) := by
        refine ten_zpow_le_two_zpow (by omega) (by omega) ?_
        rw [Int.fdiv_eq_ediv_of_nonneg _ (by decide)]
        omega
    _ = 2 ^ (b.mantissa.log2 : ℤ) * 2 ^ b.exponent := zpow_add₀ (by norm_num) _ _
    _ ≤ b.mantissa * 2 ^ b.exponent := by gcongr

/-- On the grid of the seventeenth digit some point is rounded to the number. -/
theorem HasBits.pick_ne_none (h : b.HasBits bits) (hplace : place ≤ b.magnitude - 17) :
    (b.measure place).pick ≠ none := by
  have hm : (1 : ℚ) ≤ b.mantissa := by exact_mod_cast h.mantissa_pos
  have hmlt : (b.mantissa : ℚ) + 1 ≤ 2 ^ 53 := by exact_mod_cast h.mantissa_lt
  have hs := b.scale_pos place
  have hquarter := two_zpow_sub_two b.exponent
  have hunit : (0 : ℚ) < 2 ^ b.exponent := by positivity
  have hgap : (0 : ℚ) < (if b.narrowBelow then 1 else 2) := by split_ifs <;> norm_num
  -- the spacing is at most the `10 ^ 16`th part of the number
  have hspacing : (10 : ℚ) ^ place * 10 ^ 16 ≤ b.mantissa * 2 ^ b.exponent := by
    refine le_trans ?_ h.magnitude_spec
    rw [← zpow_natCast, ← zpow_add₀ (by norm_num)]
    exact zpow_le_zpow_right₀ (by norm_num) (by push_cast; omega)
  refine Measured.pick_ne_none (b.unit_pos place) ?_ ?_ ?_
  · rw [lt_iff_scale hs (cast_low h.mantissa_pos place) (b.cast_value place), hquarter]
    nlinarith
  · rw [lt_iff_scale hs (b.cast_value place) (b.cast_high place), hquarter]
    nlinarith
  · have hp := b.point_mul_unit place 1
    rw [Nat.one_mul, Nat.cast_one, one_mul] at hp
    have hsum : (((b.measure place).unit + (b.measure place).low : ℕ) : ℚ) =
        (10 ^ place + (4 * b.mantissa - if b.narrowBelow then 1 else 2) * 2 ^ (b.exponent - 2)) *
          ((b.measure place).unit / 10 ^ place) := by
      rw [Nat.cast_add, cast_low h.mantissa_pos place, add_mul, ← hp]
    rw [lt_iff_scale hs hsum (b.cast_high place), hquarter]
    by_cases hn : b.narrowBelow = true
    · have hpower : (b.mantissa : ℚ) = 2 ^ 52 := by exact_mod_cast (h.narrowBelow_iff.mp hn).1
      rw [hpower] at hspacing ⊢
      rw [if_pos hn]
      linarith
    · rw [if_neg hn]
      nlinarith

theorem shortestFrom_spec {k fuel : ℕ} (hk : k < fuel) (h : (b.measure (place - k)).pick ≠ none) :
    (b.measure (b.shortestFrom place fuel).2).accepts (b.shortestFrom place fuel).1 = true := by
  induction fuel generalizing place k with
  | zero => omega
  | succ fuel ih =>
    rw [shortestFrom]
    cases hpick : (b.measure place).pick with
    | some point => exact Measured.accepts_of_pick hpick
    | none =>
      cases k with
      | zero =>
        rw [Nat.cast_zero, sub_zero] at h
        exact absurd hpick h
      | succ k =>
        rw [show place - (k + 1 : ℕ) = place - 1 - k by push_cast; ring] at h
        exact ih (by omega) h

/-- The shortest decimal is rounded to the number. -/
theorem HasBits.rounds_shortest (h : b.HasBits bits) :
    b.Rounds (b.shortest.1 * 10 ^ b.shortest.2) := by
  refine rounds_of_accepts h.mantissa_pos (shortestFrom_spec (k := 16) (by decide) ?_)
  exact h.pick_ne_none (by push_cast; omega)

end Binary

/-! ## Positional notation -/

theorem digitsValue_eq (digits : List Char) : digitsValue digits = Nat.ofDigitChars 10 digits 0 := rfl

theorem digitsValue_append_zeros (digits : List Char) (k : ℕ) :
    digitsValue (digits ++ List.replicate k '0') = digitsValue digits * 10 ^ k := by
  rw [digitsValue_eq, Nat.ofDigitChars_append, Nat.ofDigitChars_replicate_zero, Nat.mul_comm]
  rfl

theorem digitsValue_zeros_append (digits : List Char) (k : ℕ) :
    digitsValue (List.replicate k '0' ++ digits) = digitsValue digits := by
  rw [digitsValue_eq, Nat.ofDigitChars_append, Nat.ofDigitChars_replicate_zero, Nat.mul_zero]
  rfl

theorem exists_dropTrailingZeros (digits : List Char) :
    ∃ k, digits = dropTrailingZeros digits ++ List.replicate k '0' := by
  refine ⟨(digits.rtakeWhile (· == '0')).length, ?_⟩
  have hzeros : digits.rtakeWhile (· == '0') =
      List.replicate (digits.rtakeWhile (· == '0')).length '0' := by
    rw [List.eq_replicate_iff]
    refine ⟨rfl, fun c hc => ?_⟩
    have hzero := List.mem_rtakeWhile_imp hc
    exact eq_of_beq hzero
  rw [← hzeros]
  exact List.rdropWhile_append_rtakeWhile.symm

/-- The characters in front of a number. -/
def signChars (negative : Bool) : List Char := if negative then ['-'] else []

/-- Digits with a point before the fraction, if there is one. -/
def numeral (whole fraction : List Char) : List Char :=
  if fraction = [] then whole else whole ++ '.' :: fraction

theorem splitDigits_numeral {whole fraction : List Char} (hw : ∀ c ∈ whole, isDigit c = true)
    (hf : ∀ c ∈ fraction, isDigit c = true) :
    splitDigits (numeral whole fraction) = (whole, fraction, []) := by
  unfold numeral splitDigits
  split_ifs with h
  · subst h
    rw [List.takeWhile_eq_self_iff.mpr hw, List.dropWhile_eq_nil_iff.mpr hw]
  · rw [List.takeWhile_append_of_pos hw, List.dropWhile_append_of_pos hw]
    have hdot : ¬isDigit '.' = true := by decide
    rw [List.takeWhile_cons_of_neg hdot, List.dropWhile_cons_of_neg hdot]
    simp only [List.append_nil]
    rw [List.takeWhile_eq_self_iff.mpr hf, List.dropWhile_eq_nil_iff.mpr hf]

theorem exists_numeral_cons {whole : List Char} (hne : whole ≠ [])
    (hw : ∀ c ∈ whole, isDigit c = true) (fraction : List Char) :
    ∃ d cs, isDigit d = true ∧ numeral whole fraction = d :: cs := by
  obtain ⟨d, ds, rfl⟩ := List.exists_cons_of_ne_nil hne
  have hd : isDigit d = true := hw d List.mem_cons_self
  unfold numeral
  split_ifs
  · exact ⟨d, ds, hd, rfl⟩
  · exact ⟨d, ds ++ '.' :: fraction, hd, rfl⟩

theorem splitSign_of_isDigit {d : Char} (hd : isDigit d = true) (cs : List Char) :
    splitSign (d :: cs) = (false, d :: cs) := by
  unfold splitSign
  split
  · next h => cases h; cases hd
  · next h => cases h; cases hd
  · rfl

/-- A numeral denotes the number nearest to the decimal that its digits form. -/
theorem plainNumber?_numeral {whole fraction : List Char} (hne : whole ≠ [])
    (hw : ∀ c ∈ whole, isDigit c = true) (hf : ∀ c ∈ fraction, isDigit c = true) (negative : Bool) :
    plainNumber? (signChars negative ++ numeral whole fraction) =
      some (nearest negative (digitsValue (whole ++ fraction)) (-fraction.length)) := by
  have hsign : splitSign (signChars negative ++ numeral whole fraction) =
      (negative, numeral whole fraction) := by
    cases negative with
    | true => rfl
    | false =>
      obtain ⟨d, cs, hd, hcons⟩ := exists_numeral_cons hne hw fraction
      rw [hcons]
      exact splitSign_of_isDigit hd cs
  have hempty : (whole.isEmpty && fraction.isEmpty) = false := by
    rw [List.isEmpty_eq_false_iff.mpr hne, Bool.false_and]
  unfold plainNumber?
  rw [hsign]
  dsimp only
  rw [splitDigits_numeral hw hf]
  dsimp only
  rw [hempty, if_neg Bool.false_ne_true, exponent?, Option.map_some, zero_sub]

theorem isDigit_of_mem_zeros_append {digits : List Char} {k : ℕ} (h : ∀ c ∈ digits, isDigit c = true) :
    ∀ c ∈ List.replicate k '0' ++ digits, isDigit c = true := by
  intro c hc
  rcases List.mem_append.mp hc with hc | hc
  · rw [List.eq_of_mem_replicate hc]
    rfl
  · exact h c hc

/-- Digits split at a place `k` from their end, without the zeros at their end. -/
theorem exists_split {digits : List Char} {k : ℕ} (hk : k < digits.length) :
    ∃ whole j, whole ≠ [] ∧ digits.take (digits.length - k) = whole ∧
      digits = whole ++ dropTrailingZeros (digits.drop (digits.length - k)) ++ List.replicate j '0' ∧
      (dropTrailingZeros (digits.drop (digits.length - k))).length + j = k := by
  obtain ⟨j, hj⟩ := exists_dropTrailingZeros (digits.drop (digits.length - k))
  refine ⟨digits.take (digits.length - k), j, ?_, rfl, ?_, ?_⟩
  · intro h
    have := congrArg List.length h
    rw [List.length_take, List.length_nil] at this
    omega
  · rw [List.append_assoc, ← hj, List.take_append_drop]
  · have := congrArg List.length hj
    rw [List.length_drop, List.length_append, List.length_replicate] at this
    omega

theorem mul_ten_zpow_neg {v n j : ℕ} :
    (v : ℚ) * 10 ^ (-n : ℤ) = ((v * 10 ^ j : ℕ) : ℚ) * 10 ^ (-(n + j : ℕ) : ℤ) := by
  rw [zpow_neg, zpow_neg, zpow_natCast, zpow_natCast, pow_add]
  push_cast
  field_simp

/-- Positional notation is a numeral for the decimal. -/
theorem positional_spec (point : ℕ) (place : ℤ) :
    ∃ whole fraction, positional point place = numeral whole fraction ∧ whole ≠ [] ∧
      (∀ c ∈ whole ++ fraction, isDigit c = true) ∧
      (digitsValue (whole ++ fraction) : ℚ) * 10 ^ (-fraction.length : ℤ) = point * 10 ^ place := by
  have hdigits : ∀ c ∈ Nat.toDigits 10 point, isDigit c = true := fun c hc =>
    Nat.isDigit_of_mem_toDigits (by decide) (by decide) hc
  have hvalue : digitsValue (Nat.toDigits 10 point) = point := Nat.ofDigitChars_ten_toDigits
  unfold positional
  dsimp only
  split_ifs with hplace
  · obtain ⟨k, rfl⟩ : ∃ k : ℕ, place = k := ⟨place.toNat, by omega⟩
    rw [Int.toNat_natCast]
    refine ⟨Nat.toDigits 10 point ++ List.replicate k '0', [], rfl, ?_, ?_, ?_⟩
    · simp
    · intro c hc
      rw [List.append_nil, List.mem_append] at hc
      exact isDigit_of_mem_zeros_append hdigits c (List.mem_append.mpr hc.symm)
    · rw [List.append_nil, digitsValue_append_zeros, hvalue]
      simp
  · obtain ⟨k, rfl⟩ : ∃ k : ℕ, place = -k := ⟨(-place).toNat, by omega⟩
    rw [neg_neg, Int.toNat_natCast]
    have hpadded := isDigit_of_mem_zeros_append (k := k + 1 - (Nat.toDigits 10 point).length) hdigits
    have hsame := digitsValue_zeros_append (Nat.toDigits 10 point)
      (k + 1 - (Nat.toDigits 10 point).length)
    have hlength : k < (List.replicate (k + 1 - (Nat.toDigits 10 point).length) '0' ++
        Nat.toDigits 10 point).length := by
      rw [List.length_append, List.length_replicate]
      omega
    generalize List.replicate (k + 1 - (Nat.toDigits 10 point).length) '0' ++
      Nat.toDigits 10 point = padded at hpadded hsame hlength ⊢
    obtain ⟨whole, j, hne, hwhole, hsplit, hk⟩ := exists_split hlength
    rw [hwhole]
    generalize dropTrailingZeros (padded.drop (padded.length - k)) = fraction at hsplit hk ⊢
    refine ⟨whole, fraction, ?_, hne, ?_, ?_⟩
    · cases fraction <;> rfl
    · intro c hc
      refine hpadded c ?_
      rw [hsplit]
      exact List.mem_append_left _ hc
    · rw [hsplit, digitsValue_append_zeros, hvalue] at hsame
      rw [← hsame, ← hk]
      exact mul_ten_zpow_neg

/-! ## The text of a number -/

/-- The number has its sign bit set. -/
def isNegative (x : Float) : Bool := x.toBits.toNat / 2 ^ 63 = 1

/-- The text of a finite number is a numeral for a decimal nearest to it. -/
theorem text_eq_numeral {x : Float} (hnan : x.isNaN = false) (hinf : x.isInf = false) :
    ∃ whole fraction, whole ≠ [] ∧ (∀ c ∈ whole ++ fraction, isDigit c = true) ∧
      text x = String.ofList (signChars (isNegative x) ++ numeral whole fraction) ∧
      nearest (isNegative x) (digitsValue (whole ++ fraction)) (-fraction.length) = x := by
  have hlt : x.toBits.toNat % 2 ^ 63 < infinityBits := by
    rw [Bool.eq_false_iff, ne_eq, isNaN_iff] at hnan
    rw [Bool.eq_false_iff, ne_eq, isInf_iff] at hinf
    omega
  have htext : text x = String.ofList (signChars (isNegative x) ++
      if x.toBits.toNat % 2 ^ 63 = 0 then ['0']
      else positional (Binary.ofBits (x.toBits.toNat % 2 ^ 63)).shortest.1
        (Binary.ofBits (x.toBits.toNat % 2 ^ 63)).shortest.2) := by
    unfold text
    rw [hnan, if_neg Bool.false_ne_true]
    dsimp only
    rw [show twoTo 63 = 2 ^ 63 from rfl, if_neg hlt.ne]
    simp only [signChars, isNegative, decide_eq_true_eq]
  by_cases hzero : x.toBits.toNat % 2 ^ 63 = 0
  · refine ⟨['0'], [], by simp, List.all_eq_true.mp rfl, ?_, nearest_eq ?_⟩
    · rw [htext, if_pos hzero]
      rfl
    · rw [hzero]
      rfl
  · have hbits := Binary.hasBits_ofBits (Nat.pos_of_ne_zero hzero) hlt
    obtain ⟨whole, fraction, hnumeral, hne, hdigits, hvalue⟩ :=
      positional_spec (Binary.ofBits (x.toBits.toNat % 2 ^ 63)).shortest.1
        (Binary.ofBits (x.toBits.toNat % 2 ^ 63)).shortest.2
    refine ⟨whole, fraction, hne, hdigits, ?_, nearest_eq (hbits.nearestBits_eq ?_)⟩
    · rw [htext, if_neg hzero, hnumeral]
    · rw [hvalue]
      exact hbits.rounds_shortest

/-- A signed numeral has no other characters than these. -/
theorem mem_numeral {negative : Bool} {whole fraction : List Char}
    (h : ∀ c ∈ whole ++ fraction, isDigit c = true) {c : Char}
    (hc : c ∈ signChars negative ++ numeral whole fraction) :
    isDigit c = true ∨ c = '-' ∨ c = '.' := by
  rw [List.forall_mem_append] at h
  rcases List.mem_append.mp hc with hc | hc
  · unfold signChars at hc
    split_ifs at hc
    · exact .inr (.inl (List.mem_singleton.mp hc))
    · cases hc
  · unfold numeral at hc
    split_ifs at hc
    · exact .inl (h.1 c hc)
    · rcases List.mem_append.mp hc with hc | hc
      · exact .inl (h.1 c hc)
      · rcases List.mem_cons.mp hc with rfl | hc
        · exact .inr (.inr rfl)
        · exact .inl (h.2 c hc)

/-- The text of a finite number denotes the number. -/
theorem number?_text {x : Float} (hnan : x.isNaN = false) (hinf : x.isInf = false) :
    number? (text x) = some x := by
  obtain ⟨whole, fraction, hne, hdigits, htext, hx⟩ := text_eq_numeral hnan hinf
  have hplain : (signChars (isNegative x) ++ numeral whole fraction).filter (· != '_') =
      signChars (isNegative x) ++ numeral whole fraction := by
    rw [List.filter_eq_self]
    intro c hc
    rw [bne_iff_ne]
    rintro rfl
    rcases mem_numeral hdigits hc with h | h | h <;> cases h
  rw [List.forall_mem_append] at hdigits
  unfold number?
  rw [htext, String.toList_ofList, hplain, plainNumber?_numeral hne hdigits.1 hdigits.2, hx]

/-- An infinite number has a word for its text. -/
theorem text_of_isInf {x : Float} (hinf : x.isInf = true) :
    text x = String.ofList (signChars (isNegative x) ++ ['i', 'n', 'f']) := by
  have hbits := (isInf_iff x).mp hinf
  have hnan : x.isNaN = false := by
    rw [Bool.eq_false_iff, ne_eq, isNaN_iff, hbits]
    exact lt_irrefl _
  unfold text
  rw [hnan, if_neg Bool.false_ne_true]
  dsimp only
  rw [show twoTo 63 = 2 ^ 63 from rfl, if_pos hbits]
  simp only [signChars, isNegative, decide_eq_true_eq]

end SmallScheme.Decimal
