import Mathlib.Data.List.Basic
import SmallScheme.Symbol
import SmallScheme.Token.Scan

/-!
# Upper case is settled

`upperChar_cases`: a character keeps its spelling, or is spelled by characters that are settled. A
settled character stands for itself in upper case and may stand in a word, and of the ASCII range only
the capital letters are settled. So upper case is reached in one step (`upper_upper`), and words stay
words.

The tables are checked as a whole: the code points that change and those outside words have no bit in
common with the code points that occur in spellings.
-/

namespace SmallScheme.Text

/-! ## Sets of code points -/

/-- A set of numbers as the bits of one number. -/
def bitSet (ns : List Nat) : Nat := ns.foldr (fun n bits => 1 <<< n ||| bits) 0

theorem testBit_bitSet (ns : List Nat) (n : Nat) : (bitSet ns).testBit n = true ↔ n ∈ ns := by
  induction ns with
  | nil => simp [bitSet]
  | cons m ns ih =>
    rw [bitSet, List.foldr_cons, ← bitSet, Nat.testBit_or, Bool.or_eq_true, ih, List.mem_cons,
      Nat.one_shiftLeft, Nat.testBit_two_pow, decide_eq_true_eq, eq_comm]

/-- Sets without a common bit have no common member. -/
theorem not_mem_of_bitSet {ms ns : List Nat} (h : bitSet ms &&& bitSet ns = 0) {n : Nat}
    (hn : n ∈ ns) : n ∉ ms := by
  intro hm
  have hbit : (bitSet ms &&& bitSet ns).testBit n = true := by
    rw [Nat.testBit_and, (testBit_bitSet ms n).mpr hm, (testBit_bitSet ns n).mpr hn]
    rfl
  rw [h, Nat.zero_testBit] at hbit
  cases hbit

/-- The code points that a run covers. -/
def CaseRun.points (run : CaseRun) : List Nat :=
  (List.range ((run.last - run.first) / run.step + 1)).map fun k => run.first + run.step * k

theorem CaseRun.mem_points {run : CaseRun} {n : Nat} (h : run.covers n = true) : n ∈ run.points := by
  unfold covers at h
  simp only [Bool.and_eq_true, decide_eq_true_eq, beq_iff_eq] at h
  obtain ⟨⟨hfirst, hlast⟩, hstep⟩ := h
  have hdiv := Nat.div_add_mod (n - run.first) run.step
  have hle : (n - run.first) / run.step ≤ (run.last - run.first) / run.step :=
    Nat.div_le_div_right (by omega)
  unfold points
  rw [List.mem_map]
  refine ⟨(n - run.first) / run.step, List.mem_range.mpr (by omega), ?_⟩
  omega

/-- The code points beyond the ASCII range that upper case changes. -/
def changing : List Nat :=
  caseRuns.toList.flatMap CaseRun.points ++ expansions.toList.map Prod.fst

/-- The capital letters of the ASCII range, and the code points that occur in the spellings of changing
ones. -/
def spellings : List Nat :=
  List.range' 0x41 26 ++ caseRuns.toList.flatMap (fun run => run.points.map fun (n : Nat) => (n + run.shift).toNat) ++
    expansions.toList.flatMap Prod.snd

/-- The code points of the ASCII range except for the capital letters, and those of control characters
and white space. -/
def apart : List Nat :=
  List.range 0x41 ++ List.range' 0x5B 0x46 ++ [0x1680] ++ List.range' 0x2000 11 ++
    [0x2028, 0x2029, 0x202F, 0x205F, 0x3000]

theorem bitSet_spellings : bitSet (changing ++ apart) &&& bitSet spellings = 0 := by
  decide +kernel

theorem isValidChar_spellings : (spellings.all fun n => decide n.isValidChar) = true := by
  decide +kernel

theorem expansions_ne_nil : (expansions.toList.all fun e => !e.2.isEmpty) = true := by
  decide +kernel

/-! ## Settled characters -/

/-- A character of a word that is its own upper-case spelling, and a capital if it is in the ASCII
range. -/
def Settled (c : Char) : Prop := c.toNat ∉ changing ++ apart

theorem toNat_ofNat {n : Nat} (h : n.isValidChar) : (Char.ofNat n).toNat = n := by
  unfold Char.ofNat
  rw [dif_pos h]
  rfl

theorem settled_of_mem_spellings {n : Nat} (h : n ∈ spellings) : Settled (Char.ofNat n) := by
  have hvalid : n.isValidChar := of_decide_eq_true (List.all_eq_true.mp isValidChar_spellings n h)
  unfold Settled
  rw [toNat_ofNat hvalid]
  exact not_mem_of_bitSet bitSet_spellings h

theorem Settled.not_covers {c : Char} (h : Settled c) : caseRuns.find? (·.covers c.toNat) = none := by
  rw [Array.find?_eq_none]
  intro run hrun hcovers
  refine h (List.mem_append_left _ (List.mem_append_left _ ?_))
  exact List.mem_flatMap.mpr ⟨run, hrun.val, CaseRun.mem_points hcovers⟩

theorem Settled.not_expands {c : Char} (h : Settled c) :
    expansions.find? (·.1 == c.toNat) = none := by
  rw [Array.find?_eq_none]
  intro e he heq
  refine h (List.mem_append_left _ (List.mem_append_right _ ?_))
  exact List.mem_map.mpr ⟨e, he.val, eq_of_beq heq⟩

theorem mem_apart {n : Nat} : n ∈ apart ↔
    n < 0x41 ∨ 0x5B ≤ n ∧ n < 0xA1 ∨ n = 0x1680 ∨ 0x2000 ≤ n ∧ n < 0x200B ∨
      n = 0x2028 ∨ n = 0x2029 ∨ n = 0x202F ∨ n = 0x205F ∨ n = 0x3000 := by
  simp only [apart, List.mem_append, List.mem_range, List.mem_range'_1, List.mem_cons, List.not_mem_nil,
    or_false, or_assoc]

theorem Settled.not_mem_apart {c : Char} (h : Settled c) : c.toNat ∉ apart :=
  fun hc => h (List.mem_append_right _ hc)

/-- Of the ASCII range only capital letters are settled. -/
theorem Settled.capital {c : Char} (h : Settled c) (hc : c.toNat < 0x80) :
    0x41 ≤ c.toNat ∧ c.toNat ≤ 0x5A := by
  have := h.not_mem_apart
  rw [mem_apart] at this
  omega

theorem toUpper_of_not_small {c : Char} (h : ¬(0x61 ≤ c.toNat ∧ c.toNat ≤ 0x7A)) : c.toUpper = c := by
  unfold Char.toUpper
  exact dif_neg h

theorem Settled.upperChar_eq {c : Char} (h : Settled c) : upperChar c = [c] := by
  unfold upperChar
  by_cases hc : c.toNat < 0x80
  · have hcapital := h.capital hc
    rw [if_pos hc, toUpper_of_not_small (by omega)]
  · rw [if_neg hc, h.not_covers, h.not_expands]

theorem Settled.isBlank_eq {c : Char} (h : Settled c) : isBlank c = false := by
  have := h.not_mem_apart
  rw [mem_apart] at this
  unfold isBlank
  simp only [Bool.or_eq_false_iff, Bool.and_eq_false_iff, decide_eq_false_iff_not, beq_eq_false_iff_ne]
  omega

theorem Settled.isControl_eq {c : Char} (h : Settled c) : isControl c = false := by
  have := h.not_mem_apart
  rw [mem_apart] at this
  unfold isControl
  simp only [Bool.or_eq_false_iff, Bool.and_eq_false_iff, decide_eq_false_iff_not]
  omega

theorem Settled.isWordChar_eq {c : Char} (h : Settled c) : isWordChar c = true := by
  have hapart := h.not_mem_apart
  rw [mem_apart] at hapart
  unfold isWordChar
  split
  -- the marks that end a word are not settled
  iterate 5 exact absurd (.inl (by decide)) hapart
  rw [h.isBlank_eq, h.isControl_eq]
  rfl

/-! ## Upper case -/

theorem settled_toUpper {c : Char} (h : 0x61 ≤ c.toNat ∧ c.toNat ≤ 0x7A) : Settled c.toUpper := by
  have hcode : c.toUpper.toNat = c.toNat - 32 := by
    unfold Char.toUpper
    rw [dif_pos (show 'a'.val ≤ c.val ∧ c.val ≤ 'z'.val from h)]
    show (c.val + ('A'.val - 'a'.val)).toNat = _
    rw [UInt32.toNat_add]
    show (c.toNat + 0xFFFFFFE0) % 2 ^ 32 = _
    omega
  have hmem : c.toNat - 32 ∈ spellings :=
    List.mem_append_left _ (List.mem_append_left _ (List.mem_range'_1.mpr (by omega)))
  unfold Settled
  rw [hcode]
  exact not_mem_of_bitSet bitSet_spellings hmem

/-- A character keeps its spelling, or is spelled by settled characters. -/
theorem upperChar_cases (c : Char) :
    upperChar c = [c] ∨ upperChar c ≠ [] ∧ ∀ d ∈ upperChar c, Settled d := by
  unfold upperChar
  by_cases hc : c.toNat < 0x80
  · rw [if_pos hc]
    by_cases hsmall : 0x61 ≤ c.toNat ∧ c.toNat ≤ 0x7A
    · right
      refine ⟨by simp, fun d hd => ?_⟩
      rw [List.mem_singleton] at hd
      subst hd
      exact settled_toUpper hsmall
    · exact .inl (by rw [toUpper_of_not_small hsmall])
  · rw [if_neg hc]
    cases hrun : caseRuns.find? (·.covers c.toNat) with
    | some run =>
      right
      refine ⟨by simp, fun d hd => ?_⟩
      rw [List.mem_singleton] at hd
      subst hd
      refine settled_of_mem_spellings (List.mem_append_left _ (List.mem_append_right _ ?_))
      rw [List.mem_flatMap]
      refine ⟨run, (Array.mem_of_find?_eq_some hrun).val, ?_⟩
      have hcovers : run.covers c.toNat = true := by simpa using Array.find?_some hrun
      exact List.mem_map.mpr ⟨c.toNat, CaseRun.mem_points hcovers, rfl⟩
    | none =>
      cases hexp : expansions.find? (·.1 == c.toNat) with
      | some e =>
        right
        have hmem := (Array.mem_of_find?_eq_some hexp).val
        have hne := List.all_eq_true.mp expansions_ne_nil e hmem
        refine ⟨by simpa using hne, fun d hd => ?_⟩
        obtain ⟨n, hn, rfl⟩ := List.mem_map.mp hd
        exact settled_of_mem_spellings
          (List.mem_append_right _ (List.mem_flatMap.mpr ⟨e, hmem, hn⟩))
      | none => exact .inl rfl

theorem toList_upper (s : String) : (upper s).toList = s.toList.flatMap upperChar :=
  String.toList_ofList

theorem flatMap_upperChar_upperChar (c : Char) : (upperChar c).flatMap upperChar = upperChar c := by
  rcases upperChar_cases c with h | ⟨-, h⟩
  · rw [h, List.flatMap_singleton, h]
  · calc (upperChar c).flatMap upperChar = (upperChar c).flatMap fun d => [d] :=
          List.flatMap_congr fun d hd => (h d hd).upperChar_eq
      _ = upperChar c := List.flatMap_singleton' _

/-- Upper case is reached in one step. -/
theorem upper_upper (s : String) : upper (upper s) = upper s := by
  apply String.toList_inj.mp
  rw [toList_upper, toList_upper, List.flatMap_assoc]
  exact congrArg (List.flatMap · s.toList) (funext flatMap_upperChar_upperChar)

/-- The characters of words are spelled by characters of words. -/
theorem isWordChar_of_mem_upperChar {c d : Char} (hc : isWordChar c = true) (hd : d ∈ upperChar c) :
    isWordChar d = true := by
  rcases upperChar_cases c with h | ⟨-, h⟩
  · rw [h, List.mem_singleton] at hd
    rwa [hd]
  · exact (h d hd).isWordChar_eq

/-- Digits and marks of the ASCII range occur only in their own spelling. -/
theorem upperChar_eq_of_mem {c d : Char} (hd : d ∈ upperChar c) (hascii : d.toNat < 0x41) :
    c = d ∧ upperChar c = [d] := by
  rcases upperChar_cases c with h | ⟨-, h⟩
  · rw [h, List.mem_singleton] at hd
    subst hd
    exact ⟨rfl, h⟩
  · have := (h d hd).capital (by omega)
    omega

theorem upperChar_ne_nil (c : Char) : upperChar c ≠ [] := by
  rcases upperChar_cases c with h | ⟨h, -⟩
  · rw [h]
    exact List.cons_ne_nil c []
  · exact h

end SmallScheme.Text
