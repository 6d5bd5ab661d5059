import SmallScheme.Proofs.Quoting
import SmallScheme.Proofs.Shortest
import SmallScheme.Proofs.UpperCase

/-!
# Printed data

What the text of a datum consists of, down to its characters.

1. `Sexp.toList_text`: the characters of an expression, by recursion on it.
2. `Datum.lexemesOf_written_and`: the text of a datum is divided into the lexemes of its parentheses, dots
   and atoms.
3. `Datum.derives_lexemes_and`: these derive the datum that is read back, `Datum.reread`, within its nesting.
-/

namespace SmallScheme

open Text

namespace Sexp

variable {ι α β : Type}

/-- The atoms from left to right. -/
def atoms : Sexp ι α → List α
  | atom a => [a]
  | nil => []
  | pair _ head tail => head.atoms ++ tail.atoms

/-- The same tree over other atoms. -/
def mapAtoms (f : α → β) : Sexp ι α → Sexp ι β
  | atom a => atom (f a)
  | nil => nil
  | pair label head tail => pair label (head.mapAtoms f) (tail.mapAtoms f)

mutual

/-- The characters of an expression, given those of its atoms. -/
def written (f : α → List Char) : Sexp ι α → List Char
  | atom a => f a
  | nil => ['(', ')']
  | pair _ head tail => '(' :: (head.written f ++ tail.writtenRest f)

/-- The characters of the remainder of a list. -/
def writtenRest (f : α → List Char) : Sexp ι α → List Char
  | atom a => ' ' :: '.' :: ' ' :: (f a ++ [')'])
  | nil => [')']
  | pair _ head tail => ' ' :: (head.written f ++ tail.writtenRest f)

end

/-- The characters of a piece. -/
def Piece.written (f : α → List Char) : Piece ι α → List Char
  | .whole s => s.written f
  | .remainder s => s.writtenRest f

theorem toList_write (f : α → String) (out : String) (pieces : List (Piece ι α)) :
    (write f out pieces).toList =
      out.toList ++ pieces.flatMap (Piece.written fun a => (f a).toList) := by
  fun_induction write f out pieces <;>
    simp_all [Piece.written, Sexp.written, writtenRest]

/-- The characters of the text of an expression. -/
theorem toList_text (f : α → String) (s : Sexp ι α) :
    (s.text f).toList = s.written fun a => (f a).toList := by
  rw [text, toList_write]
  simp [Piece.written]

end Sexp

/-! ## Atoms -/

/-- A word that is read as a symbol. -/
def IsName (cs : List Char) : Prop :=
  ∃ c rest, cs = c :: rest ∧ IsWord c rest ∧ Found.startsNumber c rest.head? = false

theorem IsName.lexemesOf {cs rest : List Char} (h : IsName cs) (hr : Delimited rest) :
    lexemesOf (cs ++ rest) = .symbol (String.ofList cs) :: lexemesOf rest := by
  obtain ⟨c, cs, rfl, hword, hnumber⟩ := h
  exact lexemesOf_symbol hword hnumber hr

namespace Literal

/-- An atom that can be read: a symbol whose name is a word in upper case, a number, a string or a truth
value. -/
def Readable : Literal → Prop
  | symbol s => IsName s.name.toList ∧ upper s.name = s.name
  | number x => x.isNaN = false
  | string _ | boolean _ => True

/-- The lexeme as which the text of an atom is read. -/
def lexeme : Literal → Lexeme
  | symbol s => .symbol s.name
  | number x => if x.isInf then .symbol (Decimal.text x) else .number (Decimal.text x)
  | string text => .string (Text.reread text)
  | boolean value => .boolean value

/-- The atom that the text of an atom is read back as. -/
def reread : Literal → Literal
  | symbol s => symbol (.ofName s.name)
  | number x => if x.isInf then symbol (.ofName (Decimal.text x)) else number x
  | string text => string (Text.reread text)
  | boolean value => boolean value

/-- The words for the infinite numbers are symbols. -/
theorem isName_of_isInf {x : Float} (h : x.isInf = true) : IsName (Decimal.text x).toList := by
  rw [Decimal.text_of_isInf h, String.toList_ofList]
  cases Decimal.isNegative x with
  | true => exact ⟨'-', ['i', 'n', 'f'], rfl, ⟨List.all_eq_true.mp rfl, by decide, by decide⟩, rfl⟩
  | false => exact ⟨'i', ['n', 'f'], rfl, ⟨List.all_eq_true.mp rfl, by decide, by decide⟩, rfl⟩

/-- The text of a finite number is a word that is read as a number. -/
theorem exists_number_word {x : Float} (hnan : x.isNaN = false) (hinf : x.isInf = false) :
    ∃ c cs, (Decimal.text x).toList = c :: cs ∧ IsWord c cs ∧
      Found.startsNumber c cs.head? = true := by
  obtain ⟨whole, fraction, hne, hdigits, htext, -⟩ := Decimal.text_eq_numeral hnan hinf
  have hchars : ∀ c ∈ (Decimal.text x).toList, isDigit c = true ∨ c = '-' ∨ c = '.' := by
    intro c hc
    rw [htext, String.toList_ofList] at hc
    exact Decimal.mem_numeral hdigits hc
  have hword : ∀ c ∈ (Decimal.text x).toList, isWordChar c = true := by
    intro c hc
    rcases hchars c hc with h | rfl | rfl
    · exact isWordChar_of_isDigit h
    · rfl
    · rfl
  obtain ⟨d, ds, hd, hcons⟩ := Decimal.exists_numeral_cons hne
    (fun c hc => hdigits c (List.mem_append_left _ hc)) fraction
  rw [htext, String.toList_ofList, hcons] at hword ⊢
  cases hneg : Decimal.isNegative x with
  | true =>
    rw [hneg] at hword
    refine ⟨'-', d :: ds, rfl, ⟨hword, by decide, fun h => by cases h⟩, ?_⟩
    simp [Found.startsNumber, hd]
  | false =>
    rw [hneg] at hword
    refine ⟨d, ds, rfl, ⟨hword, ?_, ?_⟩, ?_⟩
    · rintro rfl
      cases hd
    · rintro rfl
      cases hd
    · rw [Found.startsNumber, hd]
      rfl

/-- The text of an atom is read as one lexeme. -/
theorem lexemesOf_text {a : Literal} (h : a.Readable) {rest : List Char} (hr : Delimited rest) :
    lexemesOf (a.text.toList ++ rest) = a.lexeme :: lexemesOf rest := by
  cases a with
  | symbol s =>
    rw [text, h.1.lexemesOf hr, String.ofList_toList, lexeme]
  | number x =>
    rw [text, lexeme]
    by_cases hinf : x.isInf = true
    · rw [(isName_of_isInf hinf).lexemesOf hr, String.ofList_toList, if_pos hinf]
    · obtain ⟨c, cs, hcons, hword, hnumber⟩ := exists_number_word h (Bool.eq_false_iff.mpr hinf)
      rw [if_neg hinf, hcons, lexemesOf_number hword hnumber hr, ← hcons, String.ofList_toList]
  | string s => exact lexemesOf_quoted s rest
  | boolean b => exact lexemesOf_boolean b hr

/-- The lexeme of an atom derives the atom that is read back. -/
theorem derives_lexeme {a : Literal} (h : a.Readable) (n : Nat) :
    Derives n [a.lexeme] (.datum (.atom a.reread)) := by
  cases a with
  | symbol s => exact .symbol s.name
  | number x =>
    rw [lexeme, reread]
    by_cases hinf : x.isInf = true
    · rw [if_pos hinf, if_pos hinf]
      exact .symbol _
    · rw [if_neg hinf, if_neg hinf]
      exact .number (Decimal.number?_text h (Bool.eq_false_iff.mpr hinf))
  | string s => exact .string _
  | boolean b => exact .boolean b

end Literal

/-! ## Whole data -/

namespace Datum

/-- The characters of a datum. -/
abbrev written (d : Datum) : List Char := Sexp.written (fun a => a.text.toList) d

/-- The characters of the remainder of a list. -/
abbrev writtenRest (d : Datum) : List Char := Sexp.writtenRest (fun a => a.text.toList) d

theorem toList_text (d : Datum) : d.text.toList = d.written := Sexp.toList_text Literal.text d

/-- The datum that the text of a datum is read back as. -/
def reread (d : Datum) : Datum := d.mapAtoms Literal.reread

mutual

/-- The lexemes of the text of a datum. -/
def lexemes : Datum → List Lexeme
  | .atom a => [a.lexeme]
  | .nil => [.leftParen, .rightParen]
  | .pair _ head tail => .leftParen :: (lexemes head ++ lexemesRest tail)

/-- The lexemes of the remainder of a list. -/
def lexemesRest : Datum → List Lexeme
  | .atom a => [.dot, a.lexeme, .rightParen]
  | .nil => [.rightParen]
  | .pair _ head tail => lexemes head ++ lexemesRest tail

end

mutual

/-- How many lists are open at once in the text of a datum. -/
def nesting : Datum → Nat
  | .atom _ => 0
  | .nil => 1
  | .pair _ head tail => max (nesting head) (innerNesting tail) + 1

/-- How many lists are open at once in the remainder of a list, inside of this list. -/
def innerNesting : Datum → Nat
  | .atom _ | .nil => 0
  | .pair _ head tail => max (nesting head) (innerNesting tail)

end

theorem delimited_writtenRest (d : Datum) (rest : List Char) : Delimited (d.writtenRest ++ rest) := by
  cases d <;> exact rfl

/-- The text of a datum, or of the remainder of a list, is divided into its lexemes. -/
theorem lexemesOf_written_and (d : Datum) (h : ∀ a ∈ d.atoms, a.Readable) :
    (∀ rest, Delimited rest → lexemesOf (d.written ++ rest) = d.lexemes ++ lexemesOf rest) ∧
      ∀ rest, lexemesOf (d.writtenRest ++ rest) = d.lexemesRest ++ lexemesOf rest := by
  induction d with
  | atom a =>
    have ha : a.Readable := h a (List.mem_singleton_self a)
    refine ⟨fun rest hr => Literal.lexemesOf_text ha hr, fun rest => ?_⟩
    simp only [writtenRest, Sexp.writtenRest, lexemesRest, List.cons_append, List.append_assoc,
      List.nil_append]
    rw [lexemesOf_blank rfl, lexemesOf_dot (delimited_cons rfl _), lexemesOf_blank rfl,
      Literal.lexemesOf_text ha (delimited_cons rfl _), lexemesOf_rightParen]
  | nil =>
    refine ⟨fun rest _ => ?_, fun rest => lexemesOf_rightParen rest⟩
    exact (lexemesOf_leftParen _).trans (congrArg _ (lexemesOf_rightParen rest))
  | pair label head tail ihHead ihTail =>
    obtain ⟨hhead, -⟩ := ihHead fun a ha => h a (List.mem_append_left _ ha)
    obtain ⟨-, htail⟩ := ihTail fun a ha => h a (List.mem_append_right _ ha)
    have hparts (rest : List Char) : lexemesOf (written head ++ (writtenRest tail ++ rest)) =
        lexemes head ++ (lexemesRest tail ++ lexemesOf rest) := by
      rw [hhead _ (delimited_writtenRest tail rest), htail]
    constructor
    · intro rest _
      simp only [written, Sexp.written, lexemes, List.cons_append, List.append_assoc]
      rw [lexemesOf_leftParen, hparts]
    · intro rest
      simp only [writtenRest, Sexp.writtenRest, lexemesRest, List.cons_append, List.append_assoc]
      rw [lexemesOf_blank rfl, hparts]

theorem derives_lexemes_and (d : Datum) (h : ∀ a ∈ d.atoms, a.Readable) :
    (∀ n, d.nesting ≤ n → Derives n d.lexemes (.datum d.reread)) ∧
      ∀ n ls ds, d.innerNesting ≤ n → Derives n ls (.data ds) →
        Derives (n + 1) (.leftParen :: (ls ++ d.lexemesRest)) (.datum (.ofList ds d.reread)) := by
  induction d with
  | atom a =>
    have ha : a.Readable := h a (List.mem_singleton_self a)
    constructor
    · intro n _
      exact Literal.derives_lexeme ha n
    · intro n ls ds _ hls
      exact .dotted hls (Literal.derives_lexeme ha n)
  | nil =>
    constructor
    · intro n hn
      obtain ⟨m, rfl⟩ : ∃ m, n = m + 1 := ⟨n - 1, by simp only [nesting] at hn; omega⟩
      exact .list .none
    · intro n ls ds _ hls
      exact .list hls
  | pair label head tail ihHead ihTail =>
    obtain ⟨hhead, -⟩ := ihHead fun a ha => h a (List.mem_append_left _ ha)
    obtain ⟨-, htail⟩ := ihTail fun a ha => h a (List.mem_append_right _ ha)
    -- the head is one more item of the list that the tail closes
    have hlist (n : Nat) (ls : List Lexeme) (ds : List Datum)
        (hn : max (nesting head) (innerNesting tail) ≤ n) (hls : Derives n ls (.data ds)) :
        Derives (n + 1) (.leftParen :: (ls ++ (lexemes head ++ lexemesRest tail)))
          (.datum (.ofList ds (.cons (reread head) (reread tail)))) := by
      have hitem := htail n (ls ++ lexemes head) (ds ++ [reread head]) (by omega)
        (hls.snoc (hhead n (by omega)))
      rw [List.append_assoc, ofList, List.foldr_append] at hitem
      exact hitem
    constructor
    · intro n hn
      simp only [nesting] at hn
      obtain ⟨m, rfl⟩ : ∃ m, n = m + 1 := ⟨n - 1, by omega⟩
      exact hlist m [] [] (by omega) .none
    · exact hlist

/-- The text of a datum whose atoms can be read, and that is not nested too deep, is read as one datum. -/
theorem readAll_text {d : Datum} (h : ∀ a ∈ d.atoms, a.Readable) (hn : d.nesting ≤ maxNesting) :
    readAll d.text = .ok [d.reread] := by
  have hlexemes : lexemesOf d.text.toList = d.lexemes := by
    rw [toList_text, ← List.append_nil d.written, (lexemesOf_written_and d h).1 [] rfl, lexemesOf_nil,
      List.append_nil]
  refine readAll_of_derives ?_
  rw [hlexemes, ← List.append_nil d.lexemes]
  exact .more ((derives_lexemes_and d h).1 _ hn) .none

end Datum

end SmallScheme
