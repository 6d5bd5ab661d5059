import Mathlib.Data.List.TakeWhile
import SmallScheme.Proofs.Places

/-!
# The lexemes of a text

`lexemesOf` gives the lexemes of a text that are not white space or comments, and each kind of lexeme
has a rule for what it takes from the front of a text:

1. White space, comments and marks of one character depend on nothing that follows (`lexemesOf_blank`,
   `lexemesOf_comment`, `lexemesOf_leftParen`, `lexemesOf_rightParen`).
2. Words end where a character follows that cannot stand in a word (`Delimited`): `lexemesOf_symbol`,
   `lexemesOf_number`, `lexemesOf_boolean`, `lexemesOf_dot`.
3. The inside of a string literal is taken element by element (`StringLiteral.scanFrom_plain`,
   `StringLiteral.scanFrom_escape`) up to its quotation mark (`StringLiteral.scanFrom_quote`).
-/

namespace SmallScheme

open Text

/-- The lexeme, unless it is white space or a comment. -/
def Lexeme.unlessSeparator (l : Lexeme) : List Lexeme := if l.isSeparator then [] else [l]

section

-- the recursion does not depend on what is found
attribute [local irreducible] Found.first

/-- The lexemes of a text that are not white space or comments. -/
def lexemesOf (cs : List Char) : List Lexeme :=
  match cs with
  | [] => []
  | c :: cs => (Found.first c cs).lexeme.unlessSeparator ++ lexemesOf (Found.first c cs).rest
termination_by cs.length
decreasing_by exact Nat.lt_succ_of_le (Found.length_rest_first c cs)

theorem lexemesOf_nil : lexemesOf [] = [] := by
  rw [lexemesOf]

theorem lexemesOf_cons (c : Char) (cs : List Char) :
    lexemesOf (c :: cs) =
      (Found.first c cs).lexeme.unlessSeparator ++ lexemesOf (Found.first c cs).rest := by
  rw [lexemesOf]

end

namespace TokenStream

theorem lexemes_singleton (t : Token) : lexemes [t] = t.lexeme.unlessSeparator := by
  unfold Lexeme.unlessSeparator
  cases ht : t.lexeme.isSeparator with
  | true => exact lexemes_separator ht []
  | false => exact lexemes_cons ht []

end TokenStream

open TokenStream

/-- The tokens of a text have its lexemes, wherever it begins. -/
theorem map_lexeme_placed (p : Position) (cs : List Char) :
    (placed p cs).map Token.lexeme = lexemesOf cs := by
  fun_induction placed p cs with
  | case1 p => rw [lexemesOf_nil, List.map_nil]
  | case2 p c cs ih =>
    rw [List.map_append, ih, lexemesOf_cons]
    exact congrArg (· ++ _) (lexemes_singleton _)

namespace TokenStream

theorem lexemes_scanFrom (p : Position) (cs : List Char) :
    lexemes (scanFrom [] p cs).tokens = lexemesOf cs := by
  rw [lexemes, significant_scanFrom, List.map_append, map_lexeme_placed]
  rfl

/-- The lexemes of the tokens of a text. -/
theorem lexemes_ofString (text : String) : lexemes (ofString text).tokens = lexemesOf text.toList :=
  lexemes_scanFrom {} text.toList

end TokenStream

/-- What a text is read as, by its lexemes, except for the place of a failure. -/
theorem readAt_fault (p : Position) (cs : List Char) :
    (readAt p cs).mapError Error.fault = readLexemes (lexemesOf cs) := by
  rw [readAt_eq, readData_fault, lexemes_scanFrom]

/-- A text is read as the data that its lexemes derive. -/
theorem readAll_of_derives {text : String} {ds : List Datum}
    (h : Derives maxNesting (lexemesOf text.toList) (.data ds)) : readAll text = .ok ds := by
  rw [← lexemes_ofString] at h
  exact readData_ok_iff.mpr h

/-! ## White space, comments and marks -/

theorem lexemesOf_of_first {c : Char} {cs written rest : List Char} {l : Lexeme}
    (h : Found.first c cs = ⟨l, written, rest⟩) (hl : l.isSeparator = false) :
    lexemesOf (c :: cs) = l :: lexemesOf rest := by
  rw [lexemesOf_cons, h, Lexeme.unlessSeparator, if_neg (by rw [hl]; exact Bool.false_ne_true)]
  rfl

/-- White space in front changes nothing. -/
theorem lexemesOf_blank {c : Char} (h : isBlank c = true) (cs : List Char) :
    lexemesOf (c :: cs) = lexemesOf cs := by
  rw [← map_lexeme_placed {}, placed_blank h, map_lexeme_placed]

/-- A comment changes nothing up to the end of its line. -/
theorem lexemesOf_comment (cs : List Char) :
    lexemesOf (';' :: cs) = lexemesOf (cs.dropWhile (· != '\n')) := by
  rw [← map_lexeme_placed {}, placed_comment, map_lexeme_placed]

theorem lexemesOf_leftParen (cs : List Char) : lexemesOf ('(' :: cs) = .leftParen :: lexemesOf cs :=
  lexemesOf_of_first rfl rfl

theorem lexemesOf_rightParen (cs : List Char) : lexemesOf (')' :: cs) = .rightParen :: lexemesOf cs :=
  lexemesOf_of_first rfl rfl

/-! ## Words -/

/-- A text that does not go on with a character of a word. -/
def Delimited (cs : List Char) : Prop := cs.head?.any isWordChar = false

theorem delimited_cons {c : Char} (h : isWordChar c = false) (cs : List Char) : Delimited (c :: cs) := h

/-- Characters of words are neither white space nor marks that end a word. -/
theorem isWordChar_iff {c : Char} :
    isWordChar c = true ↔ c ∉ ['(', ')', '\x27', '"', ';'] ∧ isBlank c = false ∧ isControl c = false := by
  unfold isWordChar
  split <;> simp_all

theorem toNat_of_isDigit {c : Char} (h : isDigit c = true) : 0x30 ≤ c.toNat ∧ c.toNat ≤ 0x39 := by
  unfold isDigit at h
  rw [Bool.and_eq_true, decide_eq_true_eq, decide_eq_true_eq] at h
  exact h

theorem isWordChar_of_isDigit {c : Char} (h : isDigit c = true) : isWordChar c = true := by
  have hcode := toNat_of_isDigit h
  rw [isWordChar_iff]
  refine ⟨?_, ?_, ?_⟩
  · intro hmark
    simp only [List.mem_cons, List.not_mem_nil, or_false] at hmark
    rcases hmark with rfl | rfl | rfl | rfl | rfl <;> cases h
  · unfold isBlank
    simp only [Bool.or_eq_false_iff, Bool.and_eq_false_iff, decide_eq_false_iff_not, beq_eq_false_iff_ne]
    omega
  · unfold isControl
    simp only [Bool.or_eq_false_iff, Bool.and_eq_false_iff, decide_eq_false_iff_not]
    omega

/-- A run of characters that ends within a text, or at its end before a character of another class, is
not changed by what follows. -/
theorem takeWhile_dropWhile_append {p : Char → Bool} (cs more : List Char)
    (h : cs.dropWhile p ≠ [] ∨ more.head?.any p = false) :
    (cs ++ more).takeWhile p = cs.takeWhile p ∧ (cs ++ more).dropWhile p = cs.dropWhile p ++ more := by
  induction cs with
  | nil =>
    have hmore : more.head?.any p = false := h.resolve_left fun hne => hne rfl
    cases more with
    | nil => exact ⟨rfl, rfl⟩
    | cons c more =>
      have hc : ¬p c = true := Bool.eq_false_iff.mp hmore
      exact ⟨List.takeWhile_cons_of_neg hc, List.dropWhile_cons_of_neg hc⟩
  | cons c cs ih =>
    by_cases hc : p c = true
    · rw [List.dropWhile_cons_of_pos hc] at h ⊢
      rw [List.cons_append, List.takeWhile_cons_of_pos hc, List.takeWhile_cons_of_pos hc,
        List.dropWhile_cons_of_pos hc, (ih h).1, (ih h).2]
      exact ⟨rfl, rfl⟩
    · rw [List.cons_append, List.takeWhile_cons_of_neg hc, List.takeWhile_cons_of_neg hc,
        List.dropWhile_cons_of_neg hc, List.dropWhile_cons_of_neg hc]
      exact ⟨rfl, rfl⟩

/-- A run of characters ends before a character of another class. -/
theorem any_head?_dropWhile (p : Char → Bool) (cs : List Char) :
    (cs.dropWhile p).head?.any p = false := by
  have h := List.head?_dropWhile_not p cs
  cases hhead : (cs.dropWhile p).head? with
  | none => rfl
  | some d => simpa [hhead] using h

theorem takeWhile_word (word : List Char) {rest : List Char} (hw : ∀ c ∈ word, isWordChar c = true)
    (hr : Delimited rest) :
    (word ++ rest).takeWhile isWordChar = word ∧ (word ++ rest).dropWhile isWordChar = rest := by
  obtain ⟨htake, hdrop⟩ := takeWhile_dropWhile_append word rest (.inr hr)
  rw [htake, hdrop, List.takeWhile_eq_self_iff.mpr hw, List.dropWhile_eq_nil_iff.mpr hw]
  exact ⟨rfl, rfl⟩

theorem Found.first_word {c : Char} (hc : isWordChar c = true) (hhash : c ≠ '#') (cs : List Char) :
    Found.first c cs = Found.word c cs := by
  obtain ⟨hmark, hblank, -⟩ := isWordChar_iff.mp hc
  unfold Found.first
  rw [if_neg (by rw [hblank]; exact Bool.false_ne_true)]
  split <;> simp_all

/-- A run of characters that is read as one word, not as a dot or a hash code. -/
structure IsWord (c : Char) (cs : List Char) : Prop where
  all_word : ∀ d ∈ c :: cs, isWordChar d = true
  ne_hash : c ≠ '#'
  ne_dot : c = '.' → cs ≠ []

/-- What follows a word does not decide whether it is a number. -/
theorem startsNumber_append (c : Char) (cs : List Char) {rest : List Char} (hr : Delimited rest) :
    Found.startsNumber c (cs ++ rest).head? = Found.startsNumber c cs.head? := by
  cases cs with
  | cons d cs => rfl
  | nil =>
    cases rest with
    | nil => rfl
    | cons d rest =>
      have hd : isWordChar d = false := hr
      have hdigit : isDigit d = false := by
        rw [Bool.eq_false_iff]
        intro h
        rw [isWordChar_of_isDigit h] at hd
        cases hd
      have hdot : (d == '.') = false := by
        rw [beq_eq_false_iff_ne]
        rintro rfl
        cases hd
      simp [Found.startsNumber, hdigit, hdot]

/-- The front of a text that starts with a word. -/
theorem IsWord.first {c : Char} {cs rest : List Char} (h : IsWord c cs) (hr : Delimited rest) :
    Found.first c (cs ++ rest) =
      ⟨(if Found.startsNumber c cs.head? then Lexeme.number else Lexeme.symbol)
        (String.ofList (c :: cs)), c :: cs, rest⟩ := by
  obtain ⟨hw, hhash, hdot⟩ := h
  have hc := hw c List.mem_cons_self
  obtain ⟨htake, hdrop⟩ := takeWhile_word cs (fun d hd => hw d (List.mem_cons_of_mem c hd)) hr
  have hlone : ¬(c == '.' && !(cs ++ rest).head?.any isWordChar) = true := by
    rw [Bool.and_eq_true, beq_iff_eq, Bool.not_eq_true']
    rintro ⟨rfl, hnext⟩
    obtain ⟨d, ds, rfl⟩ := List.exists_cons_of_ne_nil (hdot rfl)
    rw [List.cons_append, List.head?_cons, Option.any_some, hw d (by simp)] at hnext
    cases hnext
  rw [Found.first_word hc hhash]
  unfold Found.word Found.run
  rw [if_neg hlone, if_neg (by rw [hc]; decide), startsNumber_append c cs hr, htake, hdrop]

theorem lexemesOf_symbol {c : Char} {cs rest : List Char} (h : IsWord c cs)
    (hn : Found.startsNumber c cs.head? = false) (hr : Delimited rest) :
    lexemesOf (c :: cs ++ rest) = .symbol (String.ofList (c :: cs)) :: lexemesOf rest := by
  have hfirst := h.first hr
  rw [hn, if_neg Bool.false_ne_true] at hfirst
  exact lexemesOf_of_first hfirst rfl

theorem lexemesOf_number {c : Char} {cs rest : List Char} (h : IsWord c cs)
    (hn : Found.startsNumber c cs.head? = true) (hr : Delimited rest) :
    lexemesOf (c :: cs ++ rest) = .number (String.ofList (c :: cs)) :: lexemesOf rest := by
  have hfirst := h.first hr
  rw [hn, if_pos rfl] at hfirst
  exact lexemesOf_of_first hfirst rfl

theorem Found.first_dot {rest : List Char} (hr : Delimited rest) :
    Found.first '.' rest = .single .dot '.' rest := by
  rw [Found.first_word rfl (by decide), Found.word, if_pos]
  rw [Delimited] at hr
  rw [hr]
  rfl

theorem lexemesOf_dot {rest : List Char} (hr : Delimited rest) :
    lexemesOf ('.' :: rest) = .dot :: lexemesOf rest :=
  lexemesOf_of_first (Found.first_dot hr) rfl

theorem lexemesOf_boolean (b : Bool) {rest : List Char} (hr : Delimited rest) :
    lexemesOf ((Literal.boolean b).text.toList ++ rest) = .boolean b :: lexemesOf rest := by
  have hword (c : Char) (hc : isWordChar c = true) :
      (c :: rest).takeWhile isWordChar = [c] ∧ (c :: rest).dropWhile isWordChar = rest :=
    takeWhile_word [c] (by simpa using hc) hr
  have hfirst (c : Char) (hc : isWordChar c = true) :
      Found.first '#' (c :: rest) = ⟨Found.hashWord (String.ofList [c]), ['#', c], rest⟩ := by
    show Found.hash '#' (c :: rest) = _
    rw [Found.hash, (hword c hc).1, (hword c hc).2]
  cases b with
  | true => exact lexemesOf_of_first (hfirst 't' rfl) rfl
  | false => exact lexemesOf_of_first (hfirst 'f' rfl) rfl

/-! ## String literals -/

namespace StringLiteral

theorem scanFrom_quote (p : Progress) (rest : List Char) :
    scanFrom p ('"' :: rest) = (p.closed, ('"' :: p.written).reverse, rest) := by
  rw [scanFrom]

theorem scanFrom_element {p : Progress} {c : Char} {cs written rest : List Char} {e : Element}
    (hc : c ≠ '"') (h : element? (c :: cs) = some (e, written, rest)) :
    scanFrom p (c :: cs) = scanFrom (p.add e written) rest := by
  rw [scanFrom]
  · split
    · next h' => rw [h] at h'; cases h'; rfl
    · next h' => rw [h] at h'; cases h'
  · intro rest heq
    cases heq
    exact hc rfl

theorem element?_of_ne {c : Char} (hback : c ≠ '\\') (cs : List Char) :
    element? (c :: cs) = some (.char c, [c], cs) := by
  unfold element?
  split
  · next h => cases h
  · next h => cases h; exact absurd rfl hback
  · next h => cases h; rfl

theorem escaped?_of_ne {c : Char} (hx : c ≠ 'x') (hbrace : c ≠ '\x7b') (cs : List Char) :
    escaped? (c :: cs) = some (.char ((control? c).getD c), [c], cs) := by
  unfold escaped?
  split
  · next h => cases h
  · next h => cases h; exact absurd rfl hx
  · next h => cases h; exact absurd rfl hx
  · next h => cases h; exact absurd rfl hbrace
  · next h => cases h; rfl

/-- A character that is neither a quotation mark nor a backslash stands for itself. -/
theorem scanFrom_plain {c : Char} (hquote : c ≠ '"') (hback : c ≠ '\\') (p : Progress)
    (cs : List Char) : scanFrom p (c :: cs) = scanFrom (p.add (.char c) [c]) cs :=
  scanFrom_element hquote (element?_of_ne hback cs)

theorem scanFrom_escape {c : Char} (hx : c ≠ 'x') (hbrace : c ≠ '\x7b') (p : Progress)
    (cs : List Char) :
    scanFrom p ('\\' :: c :: cs) = scanFrom (p.add (.char ((control? c).getD c)) ['\\', c]) cs := by
  refine scanFrom_element (by decide) ?_
  rw [element?, escaped?_of_ne hx hbrace]
  rfl

end StringLiteral

end SmallScheme
