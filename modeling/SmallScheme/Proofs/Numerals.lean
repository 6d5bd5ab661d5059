import Mathlib.Computability.RegularExpressions
import Mathlib.Tactic.IntervalCases
import SmallScheme.Proofs.Lexing

/-!
# The grammar of numerals

`numeralForm` is the grammar of numerals, as a regular expression, and a text denotes a number exactly if its
characters without the underscores match it (`isSome_plainNumber?_iff`). Sign, digits and power of ten are
taken off one after the other, so each has a lemma for what is taken off (`exists_splitSign`, `exists_runs`)
and one for what is taken off in front of anything that does not extend it (`splitSign_append`,
`splitDigits_whole`, `splitDigits_point`).

`extremeForm` has the words for infinite numbers and for what is no number. None of them is a numeral.
-/

namespace SmallScheme.Decimal

open Text RegularExpression

/-! ## The grammar of numerals -/

/-- Any one of the characters. -/
def oneOf (cs : List Char) : RegularExpression Char := cs.foldr (fun c r => char c + r) 0

/-- What the expression matches, or nothing. -/
def optional (r : RegularExpression Char) : RegularExpression Char := 1 + r

/-- A decimal digit. -/
def digitForm : RegularExpression Char := oneOf ['0', '1', '2', '3', '4', '5', '6', '7', '8', '9']

/-- One or more digits. -/
def digitsForm : RegularExpression Char := digitForm * star digitForm

def signForm : RegularExpression Char := optional (oneOf ['+', '-'])

/-- Digits, with a point among or beside them. -/
def mantissaForm : RegularExpression Char :=
  digitsForm + digitsForm * char '.' * star digitForm + char '.' * digitsForm

/-- A power of ten, if there is one. -/
def powerForm : RegularExpression Char := optional (oneOf ['e', 'E'] * signForm * digitsForm)

/-- A numeral without underscores. -/
def numeralForm : RegularExpression Char := signForm * mantissaForm * powerForm

/-- A word in letters of either case. -/
def anyCase (word : List Char) : RegularExpression Char :=
  word.foldr (fun c r => oneOf [c, c.toUpper] * r) 1

/-- The words for infinite numbers and for what is no number. -/
def extremeForm : RegularExpression Char :=
  signForm * (anyCase "inf".toList + anyCase "infinity".toList + anyCase "nan".toList)

theorem mem_oneOf {ds cs : List Char} : cs ∈ (oneOf ds).matches' ↔ ∃ d ∈ ds, cs = [d] := by
  induction ds with
  | nil => simp [oneOf]
  | cons d ds ih =>
    show cs ∈ (char d + oneOf ds).matches' ↔ _
    rw [matches'_add, Language.mem_add, ih, List.exists_mem_cons_iff]
    rfl

theorem mem_optional {r : RegularExpression Char} {cs : List Char} :
    cs ∈ (optional r).matches' ↔ cs = [] ∨ cs ∈ r.matches' := by
  rw [optional, matches'_add, Language.mem_add]
  rfl

theorem mem_comp {r s : RegularExpression Char} {cs : List Char} :
    cs ∈ (r * s).matches' ↔ ∃ front ∈ r.matches', ∃ back ∈ s.matches', front ++ back = cs := by
  rw [matches'_mul, Language.mem_mul]

theorem mem_digitForm {cs : List Char} : cs ∈ digitForm.matches' ↔ ∃ d, isDigit d = true ∧ cs = [d] := by
  have hdigit (d : Char) : d ∈ ['0', '1', '2', '3', '4', '5', '6', '7', '8', '9'] ↔ isDigit d = true := by
    constructor
    · intro h
      simp only [List.mem_cons, List.not_mem_nil, or_false] at h
      rcases h with rfl | rfl | rfl | rfl | rfl | rfl | rfl | rfl | rfl | rfl <;> rfl
    · intro h
      obtain ⟨hlow, hhigh⟩ := toNat_of_isDigit h
      rw [← Char.ofNat_toNat d]
      interval_cases d.toNat <;> decide
  rw [digitForm, mem_oneOf]
  simp only [hdigit]

theorem mem_star_digitForm {cs : List Char} :
    cs ∈ (star digitForm).matches' ↔ ∀ c ∈ cs, isDigit c = true := by
  rw [matches'_star, Language.mem_kstar]
  constructor
  · rintro ⟨words, rfl, hwords⟩ c hc
    obtain ⟨word, hword, hc⟩ := List.mem_flatten.mp hc
    obtain ⟨d, hd, rfl⟩ := mem_digitForm.mp (hwords word hword)
    rwa [List.mem_singleton.mp hc]
  · intro h
    refine ⟨cs.map ([·]), List.flatMap_singleton' cs |>.symm, ?_⟩
    intro word hword
    obtain ⟨c, hc, rfl⟩ := List.mem_map.mp hword
    exact mem_digitForm.mpr ⟨c, h c hc, rfl⟩

theorem mem_digitsForm {cs : List Char} :
    cs ∈ digitsForm.matches' ↔ cs ≠ [] ∧ ∀ c ∈ cs, isDigit c = true := by
  rw [digitsForm, mem_comp]
  constructor
  · rintro ⟨front, hfront, back, hback, rfl⟩
    obtain ⟨d, hd, rfl⟩ := mem_digitForm.mp hfront
    refine ⟨List.cons_ne_nil _ _, ?_⟩
    exact List.forall_mem_cons.mpr ⟨hd, mem_star_digitForm.mp hback⟩
  · rintro ⟨hne, h⟩
    obtain ⟨d, ds, rfl⟩ := List.exists_cons_of_ne_nil hne
    rw [List.forall_mem_cons] at h
    exact ⟨[d], mem_digitForm.mpr ⟨d, h.1, rfl⟩, ds, mem_star_digitForm.mpr h.2, rfl⟩

theorem mem_signForm {cs : List Char} : cs ∈ signForm.matches' ↔ cs = [] ∨ cs = ['+'] ∨ cs = ['-'] := by
  rw [signForm, mem_optional, mem_oneOf]
  simp

/-! ## Numerals are read by the grammar -/

/-- What stands in front of the digits is a sign. -/
theorem exists_splitSign (cs : List Char) : ∃ sign ∈ signForm.matches', cs = sign ++ (splitSign cs).2 := by
  unfold splitSign
  split
  · exact ⟨['-'], mem_signForm.mpr (.inr (.inr rfl)), rfl⟩
  · exact ⟨['+'], mem_signForm.mpr (.inr (.inl rfl)), rfl⟩
  · exact ⟨[], mem_signForm.mpr (.inl rfl), rfl⟩

/-- A sign is taken off in front of anything else. -/
theorem splitSign_append {sign cs : List Char} (h : sign ∈ signForm.matches')
    (hcs : cs.head? ≠ some '+' ∧ cs.head? ≠ some '-') : (splitSign (sign ++ cs)).2 = cs := by
  rcases mem_signForm.mp h with rfl | rfl | rfl
  · rw [List.nil_append]
    unfold splitSign
    split
    · exact absurd rfl hcs.2
    · exact absurd rfl hcs.1
    · rfl
  · rfl
  · rfl

theorem not_sign_of_isDigit {cs : List Char} (hne : cs ≠ []) (h : ∀ c ∈ cs, isDigit c = true) :
    cs.head? ≠ some '+' ∧ cs.head? ≠ some '-' := by
  obtain ⟨d, ds, rfl⟩ := List.exists_cons_of_ne_nil hne
  have hd := h d List.mem_cons_self
  constructor <;> rintro ⟨⟩ <;> cases hd

theorem isSome_exponent?_iff (cs : List Char) :
    (exponent? cs).isSome = true ↔ cs ∈ powerForm.matches' := by
  rw [powerForm, mem_optional]
  cases cs with
  | nil => exact iff_of_true rfl (.inl rfl)
  | cons mark cs =>
    simp only [exponent?, Option.isSome_ite, Bool.and_eq_true, Bool.or_eq_true, beq_iff_eq,
      Bool.not_eq_true', List.isEmpty_eq_false_iff, List.all_eq_true, reduceCtorEq, false_or, mem_comp]
    constructor
    · rintro ⟨⟨hmark, hne⟩, hdigits⟩
      obtain ⟨sign, hsign, hcs⟩ := exists_splitSign cs
      refine ⟨[mark] ++ sign, ⟨[mark], mem_oneOf.mpr ⟨mark, by simpa using hmark, rfl⟩, sign, hsign, rfl⟩,
        (splitSign cs).2, mem_digitsForm.mpr ⟨hne, hdigits⟩, ?_⟩
      rw [List.append_assoc, ← hcs]
      rfl
    · rintro ⟨_, ⟨front, hfront, sign, hsign, rfl⟩, digits, hdigits, heq⟩
      obtain ⟨mark', hmark, rfl⟩ := mem_oneOf.mp hfront
      rw [mem_digitsForm] at hdigits
      rw [List.append_assoc, List.singleton_append, List.cons.injEq] at heq
      obtain ⟨rfl, rfl⟩ := heq
      rw [splitSign_append hsign (not_sign_of_isDigit hdigits.1 hdigits.2)]
      exact ⟨⟨by simpa using hmark, hdigits.1⟩, hdigits.2⟩

/-- What follows a mantissa neither extends its digits nor is a point. -/
theorem head?_of_mem_powerForm {rest : List Char} (h : rest ∈ powerForm.matches') :
    rest.head?.any isDigit = false ∧ rest.head? ≠ some '.' := by
  rw [powerForm, mem_optional, mem_comp] at h
  rcases h with rfl | ⟨_, hmark, digits, -, rfl⟩
  · exact ⟨rfl, by simp⟩
  · obtain ⟨front, hfront, sign, -, rfl⟩ := mem_comp.mp hmark
    obtain ⟨mark, hletter, rfl⟩ := mem_oneOf.mp hfront
    rw [List.mem_pair] at hletter
    rcases hletter with rfl | rfl <;> exact ⟨rfl, by simp⟩

/-- Runs of digits on both sides of a point are split at the point. -/
theorem splitDigits_point {whole fraction rest : List Char} (hwhole : ∀ c ∈ whole, isDigit c = true)
    (hfraction : ∀ c ∈ fraction, isDigit c = true) (hrest : rest.head?.any isDigit = false) :
    splitDigits (whole ++ '.' :: (fraction ++ rest)) = (whole, fraction, rest) := by
  obtain ⟨htake, hdrop⟩ :=
    takeWhile_dropWhile_append (p := isDigit) whole ('.' :: (fraction ++ rest)) (.inr rfl)
  obtain ⟨htake', hdrop'⟩ := takeWhile_dropWhile_append fraction rest (.inr hrest)
  rw [List.takeWhile_eq_self_iff.mpr hwhole] at htake
  rw [List.dropWhile_eq_nil_iff.mpr hwhole, List.nil_append] at hdrop
  rw [List.takeWhile_eq_self_iff.mpr hfraction] at htake'
  rw [List.dropWhile_eq_nil_iff.mpr hfraction, List.nil_append] at hdrop'
  unfold splitDigits
  rw [htake, hdrop]
  show (whole, (fraction ++ rest).takeWhile isDigit, (fraction ++ rest).dropWhile isDigit) = _
  rw [htake', hdrop']

/-- A run of digits without a point is split off whole. -/
theorem splitDigits_whole {whole rest : List Char} (hwhole : ∀ c ∈ whole, isDigit c = true)
    (hrest : rest.head?.any isDigit = false) (hpoint : rest.head? ≠ some '.') :
    splitDigits (whole ++ rest) = (whole, [], rest) := by
  obtain ⟨htake, hdrop⟩ := takeWhile_dropWhile_append whole rest (.inr hrest)
  rw [List.takeWhile_eq_self_iff.mpr hwhole] at htake
  rw [List.dropWhile_eq_nil_iff.mpr hwhole, List.nil_append] at hdrop
  unfold splitDigits
  rw [htake, hdrop]
  split
  · exact absurd rfl hpoint
  · rfl

/-- A text is two runs of digits around a point and a rest, or one run of digits and a rest. -/
theorem exists_runs (cs : List Char) :
    ∃ whole rest, (∀ c ∈ whole, isDigit c = true) ∧ rest.head?.any isDigit = false ∧
      (cs = whole ++ rest ∧ rest.head? ≠ some '.' ∨
        ∃ fraction, (∀ c ∈ fraction, isDigit c = true) ∧ cs = whole ++ '.' :: (fraction ++ rest)) := by
  have hall (cs : List Char) : ∀ c ∈ cs.takeWhile isDigit, isDigit c = true :=
    fun c hc => List.mem_takeWhile_imp hc
  by_cases hpoint : (cs.dropWhile isDigit).head? = some '.'
  · obtain ⟨rest, hrest⟩ := List.head?_eq_some_iff.mp hpoint
    refine ⟨cs.takeWhile isDigit, rest.dropWhile isDigit, hall cs, any_head?_dropWhile isDigit rest,
      .inr ⟨rest.takeWhile isDigit, hall rest, ?_⟩⟩
    rw [List.takeWhile_append_dropWhile, ← hrest, List.takeWhile_append_dropWhile]
  · refine ⟨cs.takeWhile isDigit, cs.dropWhile isDigit, hall cs, any_head?_dropWhile isDigit cs,
      .inl ⟨?_, hpoint⟩⟩
    rw [List.takeWhile_append_dropWhile]

theorem mem_mantissaForm {cs : List Char} :
    cs ∈ mantissaForm.matches' ↔
      cs ≠ [] ∧ (∀ c ∈ cs, isDigit c = true) ∨
        ∃ whole fraction, ¬(whole = [] ∧ fraction = []) ∧ (∀ c ∈ whole, isDigit c = true) ∧
          (∀ c ∈ fraction, isDigit c = true) ∧ cs = whole ++ '.' :: fraction := by
  rw [mantissaForm, matches'_add, Language.mem_add, matches'_add, Language.mem_add, mem_digitsForm]
  simp only [mem_comp, mem_digitsForm, mem_star_digitForm]
  constructor
  · rintro ((h | ⟨_, ⟨whole, ⟨hne, hwhole⟩, point, ⟨⟩, rfl⟩, fraction, hfraction, rfl⟩) |
      ⟨point, ⟨⟩, fraction, ⟨hne, hfraction⟩, rfl⟩)
    · exact .inl h
    · refine .inr ⟨whole, fraction, fun h => hne h.1, hwhole, hfraction, ?_⟩
      rw [List.append_assoc]
      rfl
    · exact .inr ⟨[], fraction, fun h => hne h.2, by simp, hfraction, rfl⟩
  · rintro (h | ⟨whole, fraction, hne, hwhole, hfraction, rfl⟩)
    · exact .inl (.inl h)
    · by_cases hnil : whole = []
      · subst hnil
        exact .inr ⟨['.'], rfl, fraction, ⟨fun h => hne ⟨rfl, h⟩, hfraction⟩, rfl⟩
      · refine .inl (.inr ⟨_, ⟨whole, ⟨hnil, hwhole⟩, ['.'], rfl, rfl⟩, fraction, hfraction, ?_⟩)
        rw [List.append_assoc]
        rfl

/-- What is split into digits and a power of ten is a mantissa and a power of ten. -/
theorem splitDigits_iff (cs : List Char) :
    ¬((splitDigits cs).1 = [] ∧ (splitDigits cs).2.1 = []) ∧ (splitDigits cs).2.2 ∈ powerForm.matches' ↔
      ∃ digits ∈ mantissaForm.matches', ∃ power ∈ powerForm.matches', digits ++ power = cs := by
  constructor
  · rintro ⟨hne, hpower⟩
    obtain ⟨whole, rest, hwhole, hrest, ⟨rfl, hpoint⟩ | ⟨fraction, hfraction, rfl⟩⟩ := exists_runs cs
    · rw [splitDigits_whole hwhole hrest hpoint] at hne hpower
      exact ⟨whole, mem_mantissaForm.mpr (.inl ⟨fun h => hne ⟨h, rfl⟩, hwhole⟩), rest, hpower, rfl⟩
    · rw [splitDigits_point hwhole hfraction hrest] at hne hpower
      refine ⟨whole ++ '.' :: fraction, ?_, rest, hpower, by simp⟩
      exact mem_mantissaForm.mpr (.inr ⟨whole, fraction, hne, hwhole, hfraction, rfl⟩)
  · rintro ⟨digits, hdigits, power, hpower, rfl⟩
    obtain ⟨hrest, hpoint⟩ := head?_of_mem_powerForm hpower
    rcases mem_mantissaForm.mp hdigits with ⟨hne, hwhole⟩ | ⟨whole, fraction, hne, hwhole, hfraction, rfl⟩
    · rw [splitDigits_whole hwhole hrest hpoint]
      exact ⟨fun h => hne h.1, hpower⟩
    · rw [List.append_assoc, List.cons_append, splitDigits_point hwhole hfraction hrest]
      exact ⟨hne, hpower⟩

theorem not_sign_of_mem_mantissaForm {cs : List Char} (h : cs ∈ mantissaForm.matches') (rest : List Char) :
    (cs ++ rest).head? ≠ some '+' ∧ (cs ++ rest).head? ≠ some '-' := by
  have hdigits {whole : List Char} (hne : whole ≠ []) (hwhole : ∀ c ∈ whole, isDigit c = true)
      (rest : List Char) : (whole ++ rest).head? ≠ some '+' ∧ (whole ++ rest).head? ≠ some '-' := by
    rw [List.head?_append_of_ne_nil _ hne]
    exact not_sign_of_isDigit hne hwhole
  rcases mem_mantissaForm.mp h with ⟨hne, hwhole⟩ | ⟨whole, fraction, -, hwhole, -, rfl⟩
  · exact hdigits hne hwhole rest
  · by_cases hne : whole = []
    · subst hne
      simp
    · rw [List.append_assoc]
      exact hdigits hne hwhole _

/-- **Numerals.** A text without underscores denotes a number exactly if it has the form of a numeral. -/
theorem isSome_plainNumber?_iff (cs : List Char) :
    (plainNumber? cs).isSome = true ↔ cs ∈ numeralForm.matches' := by
  have hsplit : (plainNumber? cs).isSome = true ↔ ∃ digits ∈ mantissaForm.matches',
      ∃ power ∈ powerForm.matches', digits ++ power = (splitSign cs).2 := by
    rw [← splitDigits_iff, ← isSome_exponent?_iff]
    unfold plainNumber?
    dsimp only
    split_ifs with hnone
    · rw [Bool.and_eq_true, List.isEmpty_iff, List.isEmpty_iff] at hnone
      exact iff_of_false Bool.false_ne_true fun h => h.1 hnone
    · rw [Bool.and_eq_true, List.isEmpty_iff, List.isEmpty_iff] at hnone
      rw [Option.isSome_map]
      exact (and_iff_right hnone).symm
  rw [hsplit, numeralForm, mem_comp]
  constructor
  · rintro ⟨digits, hdigits, power, hpower, hcs⟩
    obtain ⟨sign, hsign, hcs'⟩ := exists_splitSign cs
    refine ⟨sign ++ digits, mem_comp.mpr ⟨sign, hsign, digits, hdigits, rfl⟩, power, hpower, ?_⟩
    rw [List.append_assoc, hcs, ← hcs']
  · rintro ⟨_, hfront, power, hpower, rfl⟩
    obtain ⟨sign, hsign, digits, hdigits, rfl⟩ := mem_comp.mp hfront
    refine ⟨digits, hdigits, power, hpower, ?_⟩
    rw [List.append_assoc, splitSign_append hsign (not_sign_of_mem_mantissaForm hdigits power)]

end SmallScheme.Decimal
