import SmallScheme.Proofs.Numerals
import SmallScheme.Proofs.Readable
import SmallScheme.Proofs.Tiling

/-!
# Words

`words_by_grammar`: what a word is read as, decided by its characters alone.

1. `BeginsNumber` says of a word that it is meant as a number. It looks at the first two characters only, so
   the word may still be no numeral; but it is never one of the words for what is infinite or no number
   (`not_beginsNumber_of_mem_extremeForm`), and underscores that are taken out do not change that
   (`BeginsNumber.filter`).
2. A word ends where the run of its characters does, so the word that begins where a token does is that token
   (`wordLexeme_of_mem_tokensAt`).
-/

namespace SmallScheme

open Text TokenStream

open Decimal

/-! ## Words that are meant as numbers -/

/-- The word begins like a number: with a digit, with a sign and a digit or a point, or with a point and a
digit. -/
inductive BeginsNumber : List Char → Prop where
  | digit {c : Char} {cs : List Char} (h : isDigit c = true) : BeginsNumber (c :: cs)
  | signed {sign c : Char} {cs : List Char} (hsign : sign = '+' ∨ sign = '-')
    (h : isDigit c = true ∨ c = '.') : BeginsNumber (sign :: c :: cs)
  | point {c : Char} {cs : List Char} (h : isDigit c = true) : BeginsNumber ('.' :: c :: cs)

theorem beginsNumber_iff {c : Char} {cs : List Char} :
    BeginsNumber (c :: cs) ↔ Found.startsNumber c cs.head? = true := by
  rw [Found.startsNumber_iff]
  constructor
  · rintro (h | ⟨hsign, h⟩ | h)
    · exact .inl h
    · exact .inr (.inl ⟨hsign, _, rfl, h⟩)
    · exact .inr (.inr ⟨rfl, _, rfl, h⟩)
  · rintro (h | ⟨hsign, d, hd, h⟩ | ⟨rfl, d, hd, h⟩)
    · exact .digit h
    · obtain ⟨ds, rfl⟩ := List.head?_eq_some_iff.mp hd
      exact .signed hsign h
    · obtain ⟨ds, rfl⟩ := List.head?_eq_some_iff.mp hd
      exact .point h

theorem BeginsNumber.ne_dot {w : List Char} (h : BeginsNumber w) : w ≠ ['.'] := by
  rintro rfl
  cases h with
  | digit h => cases h

/-- Underscores that are taken out do not change how the word begins. -/
theorem BeginsNumber.filter {w : List Char} (h : BeginsNumber w) :
    BeginsNumber (w.filter (· != '_')) := by
  have hdigit {c : Char} (hc : isDigit c = true) (cs : List Char) :
      (c :: cs).filter (· != '_') = c :: cs.filter (· != '_') := by
    refine List.filter_cons_of_pos (bne_iff_ne.mpr ?_)
    rintro rfl
    cases hc
  rcases h with @⟨c, cs, h⟩ | @⟨sign, c, cs, hsign, h⟩ | @⟨c, cs, h⟩
  · rw [hdigit h]
    exact .digit h
  · rw [List.filter_cons_of_pos (by rcases hsign with rfl | rfl <;> rfl)]
    rcases h with h | rfl
    · rw [hdigit h]
      exact .signed hsign (.inl h)
    · exact .signed hsign (.inr rfl)
  · rw [List.filter_cons_of_pos rfl, hdigit h]
    exact .point h

/-- The words for what is infinite or no number begin with a letter behind their sign. -/
theorem Decimal.exists_letter {w : List Char} (h : w ∈ extremeForm.matches') :
    ∃ sign c rest, w = sign ++ c :: rest ∧ sign ∈ signForm.matches' ∧ c ∈ ['i', 'I', 'n', 'N'] := by
  have hletter {c : Char} {word w : List Char} (hc : [c, c.toUpper] ⊆ ['i', 'I', 'n', 'N'])
      (h : w ∈ (anyCase (c :: word)).matches') : ∃ d rest, w = d :: rest ∧ d ∈ ['i', 'I', 'n', 'N'] := by
    obtain ⟨front, hfront, rest, -, rfl⟩ := mem_comp.mp h
    obtain ⟨d, hd, rfl⟩ := mem_oneOf.mp hfront
    exact ⟨d, rest, rfl, hc hd⟩
  obtain ⟨sign, hsign, word, hword, rfl⟩ := mem_comp.mp h
  obtain ⟨c, rest, rfl, hc⟩ : ∃ c rest, word = c :: rest ∧ c ∈ ['i', 'I', 'n', 'N'] := by
    rcases hword with (hword | hword) | hword
    · exact hletter (by decide) hword
    · exact hletter (by decide) hword
    · exact hletter (by decide) hword
  exact ⟨sign, c, rest, rfl, hsign, hc⟩

/-- The words for what is infinite or no number neither are a dot nor begin like a number. -/
theorem not_beginsNumber_of_mem_extremeForm {w : List Char} (h : w ∈ extremeForm.matches') :
    w ≠ ['.'] ∧ ¬BeginsNumber w := by
  obtain ⟨sign, c, rest, rfl, hsign, hc⟩ := exists_letter h
  simp only [List.mem_cons, List.not_mem_nil, or_false] at hc
  rcases mem_signForm.mp hsign with rfl | rfl | rfl <;> rcases hc with rfl | rfl | rfl | rfl <;>
    exact ⟨by simp, fun h => Bool.false_ne_true (beginsNumber_iff.mp h)⟩

/-! ## The token of a word -/

/-- What a word is, by its characters: a dot, a number or a symbol. -/
inductive WordLexeme : List Char → Lexeme → Prop where
  | dot : WordLexeme ['.'] .dot
  | number {w : List Char} (h : BeginsNumber w) : WordLexeme w (.number (String.ofList w))
  | symbol {w : List Char} (hdot : w ≠ ['.']) (h : ¬BeginsNumber w) :
    WordLexeme w (.symbol (String.ofList w))

namespace WordLexeme

variable {w : List Char} {l : Lexeme}

theorem dot_iff (h : WordLexeme w l) : l = .dot ↔ w = ['.'] := by
  cases h with
  | dot => simp
  | number h => simpa using h.ne_dot
  | symbol hdot h => simpa using hdot

theorem number_iff (h : WordLexeme w l) : l = .number (String.ofList w) ↔ BeginsNumber w := by
  cases h with
  | dot => simpa using fun h : BeginsNumber ['.'] => h.ne_dot rfl
  | number h => simpa using h
  | symbol hdot h => simpa using h

theorem symbol_iff (h : WordLexeme w l) :
    l = .symbol (String.ofList w) ↔ w ≠ ['.'] ∧ ¬BeginsNumber w := by
  cases h with
  | dot => simp
  | number h => simpa using fun _ => h
  | symbol hdot h => simpa using ⟨hdot, h⟩

end WordLexeme

/-- The word at the front of a text is its first lexeme. -/
theorem wordLexeme_first {c : Char} {cs rest : List Char} (hw : ∀ d ∈ c :: cs, isWordChar d = true)
    (hhash : c ≠ '#') (hrest : Delimited rest) :
    ∃ l, Found.first c (cs ++ rest) = ⟨l, c :: cs, rest⟩ ∧ WordLexeme (c :: cs) l := by
  by_cases hdot : c :: cs = ['.']
  · cases hdot
    exact ⟨.dot, Found.first_dot hrest, .dot⟩
  · have hword : IsWord c cs := ⟨hw, hhash, by rintro rfl rfl; exact hdot rfl⟩
    refine ⟨_, hword.first hrest, ?_⟩
    split_ifs with hnumber
    · exact .number (beginsNumber_iff.mpr hnumber)
    · exact .symbol hdot fun h => hnumber (beginsNumber_iff.mp h)

/-- The word that begins where a token does is that token. -/
theorem wordLexeme_of_mem_tokensAt {cs w : List Char} {t : Token} (ht : t ∈ tokensAt {} cs)
    (hw : w = (cs.drop t.span.start.offset).takeWhile isWordChar) (hne : w ≠ [])
    (hhash : w.head? ≠ some '#') : t.span.slice cs = w ∧ WordLexeme w t.lexeme := by
  obtain ⟨front, c, written, rest, hcs, hspan, hfirst⟩ := exists_of_mem_tokensAt ht
  have hdrop : cs.drop t.span.start.offset = c :: (written ++ rest) := by
    rw [hspan, Position.offset_after, hcs]
    simp
  have hslice : t.span.slice cs = c :: written := by
    rw [Span.slice, hdrop, hspan]
    simp
  rw [hdrop, List.takeWhile_cons] at hw
  split_ifs at hw with hc
  · subst hw
    have hall : ∀ d ∈ c :: (written ++ rest).takeWhile isWordChar, isWordChar d = true := by
      refine List.forall_mem_cons.mpr ⟨hc, ?_⟩
      exact fun d hd => List.mem_takeWhile_imp hd
    obtain ⟨l, hl, hlexeme⟩ := wordLexeme_first hall (fun h => hhash (congrArg some h))
      (any_head?_dropWhile isWordChar (written ++ rest))
    rw [List.takeWhile_append_dropWhile, hfirst, Found.mk.injEq] at hl
    rw [hslice, hl.1, hl.2.1]
    exact ⟨rfl, hlexeme⟩
  · exact absurd hw hne

/-- A number is read exactly if it is a numeral but for its underscores. -/
theorem next_numberWord {t : Token} {w : List Char} (h : t.lexeme = .number (String.ofList w))
    (contexts : List Context) :
    (w.filter (· != '_') ∈ numeralForm.matches' → ∃ x : Float, x.isNaN = false ∧
      Reading.next contexts t = (Reading.deliver [] (.atom (.number x)) contexts).2) ∧
    (w.filter (· != '_') ∉ numeralForm.matches' →
      Reading.next contexts t = .failAt (.invalidNumber (String.ofList w)) t.span) := by
  obtain ⟨lexeme, span⟩ := t
  cases h
  have hnumber : (number? (String.ofList w)).isSome = true ↔ w.filter (· != '_') ∈ numeralForm.matches' := by
    rw [number?, String.toList_ofList, isSome_plainNumber?_iff]
  rw [← hnumber, Reading.next_number]
  cases hx : number? (String.ofList w) with
  | none => exact ⟨fun h => absurd h Bool.false_ne_true, fun _ => rfl⟩
  | some x => exact ⟨fun _ => ⟨x, isNaN_of_number? hx, rfl⟩, fun h => absurd rfl h⟩

/-- **Words.** The longest run of word characters from the beginning of a token on, if there is one and it
does not start with a hash sign, is that token. It is the dot, a number or a symbol according to how it begins.
A number is read exactly if it is a numeral but for its underscores, and is otherwise refused where it stands.
The words for what is infinite or no number are read as symbols, no number is one of them once its underscores
are taken out, and no datum that is read contains what is no number. -/
theorem words_by_grammar (text : String) {t : Token} {w : List Char} (ht : t ∈ (ofString text).toList)
    (hw : w = (text.toList.drop t.span.start.offset).takeWhile isWordChar) (hne : w ≠ [])
    (hhash : w.head? ≠ some '#') :
    (t.span.slice text.toList = w ∧ (t.lexeme = .dot ↔ w = ['.']) ∧
      (t.lexeme = .number (String.ofList w) ↔ BeginsNumber w) ∧
      (t.lexeme = .symbol (String.ofList w) ↔ w ≠ ['.'] ∧ ¬BeginsNumber w)) ∧
    (BeginsNumber w → w.filter (· != '_') ∉ extremeForm.matches' ∧ ∀ contexts,
      (w.filter (· != '_') ∈ numeralForm.matches' → ∃ x : Float, x.isNaN = false ∧
        Reading.next contexts t = (Reading.deliver [] (.atom (.number x)) contexts).2) ∧
      (w.filter (· != '_') ∉ numeralForm.matches' →
        Reading.next contexts t = .failAt (.invalidNumber (String.ofList w)) t.span)) ∧
    (w ∈ extremeForm.matches' → t.lexeme = .symbol (String.ofList w) ∧ ∀ contexts,
      Reading.next contexts t =
        (Reading.deliver [] (.symbol (.ofName (String.ofList w))) contexts).2) ∧
    ∀ d, (ofString text).Delivers d → ∀ x, Literal.number x ∈ d.atoms → x.isNaN = false := by
  have hmem : t ∈ tokensAt {} text.toList := by
    rw [ofString, toList_scanFrom, List.mem_append, List.mem_singleton] at ht
    rcases ht with ht | rfl
    · exact ht
    · rw [Position.offset_after] at hw
      exact absurd (by simpa using hw) hne
  obtain ⟨hslice, hlexeme⟩ := wordLexeme_of_mem_tokensAt hmem hw hne hhash
  refine ⟨⟨hslice, hlexeme.dot_iff, hlexeme.number_iff, hlexeme.symbol_iff⟩, ?_, ?_, ?_⟩
  · intro hbegins
    refine ⟨?_, next_numberWord (hlexeme.number_iff.mpr hbegins)⟩
    exact fun hextreme => (not_beginsNumber_of_mem_extremeForm hextreme).2 hbegins.filter
  · intro hextreme
    have hsymbol := hlexeme.symbol_iff.mpr (not_beginsNumber_of_mem_extremeForm hextreme)
    refine ⟨hsymbol, fun contexts => Reading.next_atom contexts ?_⟩
    rw [hsymbol]
    rfl
  · exact fun d hd x hx => hd.readable.atoms _ hx

theorem tokens_threeWords :
    (ofString "+.5e_1_ -INF 1x").toList =
      [⟨.number "+.5e_1_", ⟨{}, 7⟩⟩, ⟨.blank " ", ⟨⟨7, 1, 8⟩, 1⟩⟩, ⟨.symbol "-INF", ⟨⟨8, 1, 9⟩, 4⟩⟩,
        ⟨.blank " ", ⟨⟨12, 1, 13⟩, 1⟩⟩, ⟨.number "1x", ⟨⟨13, 1, 14⟩, 2⟩⟩, ⟨.endOfText, ⟨⟨15, 1, 16⟩, 0⟩⟩] := by
  decide +kernel

/-- A numeral with underscores, a word for what is infinite and a word that only begins like a number. -/
theorem three_words_read :
    (∃ x : Float, x.isNaN = false ∧
      Reading.next [] ⟨.number "+.5e_1_", ⟨{}, 7⟩⟩ = .complete (.atom (.number x))) ∧
    (∀ t ∈ (ofString "+.5e_1_ -INF 1x").toList, t.span.start.offset = 8 → t.lexeme = .symbol "-INF") ∧
    Reading.next [] ⟨.number "1x", ⟨⟨13, 1, 14⟩, 2⟩⟩ =
      .failAt (.invalidNumber "1x") ⟨⟨13, 1, 14⟩, 2⟩ := by
  have hword := @words_by_grammar "+.5e_1_ -INF 1x"
  refine ⟨?_, ?_, ?_⟩
  · rw [tokens_threeWords] at hword
    obtain ⟨-, hnumber, -⟩ := @hword _ "+.5e_1_".toList List.mem_cons_self rfl (by decide) (by decide)
    refine ((hnumber (.signed (.inl rfl) (.inr rfl))).2 []).1 ?_
    rw [← isSome_plainNumber?_iff]
    rfl
  · intro t ht hstart
    obtain ⟨-, -, hextreme, -⟩ :=
      @hword t "-INF".toList ht (by rw [hstart]; rfl) (by decide) (by decide)
    refine (hextreme ?_).1
    rw [← RegularExpression.rmatch_iff_matches']
    decide +kernel
  · rw [tokens_threeWords] at hword
    obtain ⟨-, hnumber, -⟩ :=
      @hword ⟨.number "1x", ⟨⟨13, 1, 14⟩, 2⟩⟩ "1x".toList (by simp) rfl (by decide) (by decide)
    refine ((hnumber (.digit rfl)).2 []).2 ?_
    rw [← isSome_plainNumber?_iff]
    exact Bool.false_ne_true

end SmallScheme
