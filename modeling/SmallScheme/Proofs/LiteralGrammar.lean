import Mathlib.Data.List.Forall2
import Mathlib.Data.Nat.Digits.Defs
import Mathlib.Tactic.IntervalCases
import SmallScheme.Proofs.OpenLiteral
import SmallScheme.Proofs.UpperCase

/-!
# What string literals spell

`StringLiteral.Spells` is the grammar of the elements of a string literal, and
`string_literal_by_grammar` reads the token of a literal off the elements that its text divides into.

1. Digits name a character if their value to the base 16 is its code (`scalar?_eq_some_iff`).
2. The scan takes off the characters of one element, whatever follows them (`element?_of_spells`,
   `spells_of_element?`), and finds none exactly where the text ends in front of an element or inside it
   (`unfinished_of_element?`, `Unfinished.element?`).
3. So the elements of a literal are found one after the other (`scanFrom_pieces`), and every text divides
   into them (`exists_division`).
-/

namespace SmallScheme

open Text

/-! ## Hexadecimal digits -/

namespace Text

/-- A hexadecimal digit, small or capital, and its value. -/
def HexDigit (c : Char) (n : Nat) : Prop :=
  n < 16 ∧ (c = n.digitChar ∨ c = n.digitChar.toUpper)

/-- Hexadecimal digits, most significant first, and their number. -/
def HexNumber (digits : List Char) (n : Nat) : Prop :=
  ∃ ds, List.Forall₂ HexDigit digits.reverse ds ∧ Nat.ofDigits 16 ds = n

/-- Digits, small letters and capital letters lie at three places. -/
theorem code_of_hexDigit? {c : Char} {n : Nat} (h : hexDigit? c = some n) :
    n < 10 ∧ c.toNat = n + 48 ∨ 10 ≤ n ∧ c.toNat = n + 87 ∨ 10 ≤ n ∧ c.toNat = n + 55 := by
  unfold hexDigit? at h
  split_ifs at h with hdigit hlower hupper
  · have hrange := toNat_of_isDigit hdigit
    cases h
    simp only [Char.reduceToNat]
    omega
  · simp only [Bool.and_eq_true, decide_eq_true_eq, Char.le_def, UInt32.le_iff_toNat_le] at hlower
    have hle : 97 ≤ c.toNat := hlower.1
    cases h
    simp only [Char.reduceToNat]
    omega
  · simp only [Bool.and_eq_true, decide_eq_true_eq, Char.le_def, UInt32.le_iff_toNat_le] at hupper
    have hle : 65 ≤ c.toNat := hupper.1
    cases h
    simp only [Char.reduceToNat]
    omega

theorem hexDigit?_eq_some_iff {c : Char} {n : Nat} : hexDigit? c = some n ↔ HexDigit c n := by
  constructor
  · intro h
    have hlt := hexDigit?_lt h
    refine ⟨hlt, ?_⟩
    rw [← Char.ofNat_toNat c]
    rcases code_of_hexDigit? h with ⟨hn, hc⟩ | ⟨hn, hc⟩ | ⟨hn, hc⟩
    · left
      rw [hc]
      interval_cases n <;> rfl
    · left
      rw [hc]
      interval_cases n <;> rfl
    · right
      rw [hc]
      interval_cases n <;> rfl
  · rintro ⟨hn, hc⟩
    interval_cases n <;> rcases hc with rfl | rfl <;> rfl

theorem hexNumber_snoc {digits : List Char} {c : Char} {n : Nat} :
    HexNumber (digits ++ [c]) n ↔ ∃ m d, HexNumber digits m ∧ HexDigit c d ∧ 16 * m + d = n := by
  unfold HexNumber
  rw [List.reverse_append, List.reverse_singleton, List.singleton_append]
  constructor
  · rintro ⟨ds, hds, rfl⟩
    obtain ⟨d, ds, hd, hrest, rfl⟩ := List.forall₂_cons_left_iff.mp hds
    refine ⟨_, d, ⟨ds, hrest, rfl⟩, hd, ?_⟩
    rw [Nat.ofDigits_cons, Nat.add_comm]
  · rintro ⟨_, d, ⟨ds, hds, rfl⟩, hd, rfl⟩
    refine ⟨d :: ds, .cons hd hds, ?_⟩
    rw [Nat.ofDigits_cons, Nat.add_comm]

theorem hexNumber?_eq_some_iff {digits : List Char} {n : Nat} :
    hexNumber? digits = some n ↔ HexNumber digits n := by
  induction digits using List.reverseRecOn generalizing n with
  | nil => simp [hexNumber?_nil, HexNumber]
  | append_singleton digits c ih =>
    rw [hexNumber_snoc, hexNumber?_snoc, Option.bind_eq_some_iff]
    simp only [Option.map_eq_some_iff, ih, hexDigit?_eq_some_iff]
    constructor
    · rintro ⟨m, hm, d, hd, rfl⟩
      exact ⟨m, d, hm, hd, rfl⟩
    · rintro ⟨m, d, hm, hd, rfl⟩
      exact ⟨m, hm, d, hd, rfl⟩

end Text

namespace StringLiteral

theorem scalar?_eq_some_iff {digits : List Char} {c : Char} :
    scalar? digits = some c ↔ HexNumber digits c.toNat := by
  rw [← hexNumber?_eq_some_iff]
  constructor
  · intro h
    obtain ⟨n, hn, hvalid⟩ := exists_of_scalar? h
    rw [scalar?_eq_some hn hvalid, Option.some.injEq] at h
    rw [← h, Text.toNat_ofNat hvalid, hn]
  · intro h
    rw [scalar?_eq_some h c.valid, Char.ofNat_toNat]

/-- The number of two digits is always that of a character. -/
theorem exists_scalar?_of_hexNumber {a b : Char} {n : Nat} (h : HexNumber [a, b] n) :
    ∃ c, scalar? [a, b] = some c := by
  obtain ⟨m, d, hm, hd, rfl⟩ := hexNumber_snoc.mp (show HexNumber ([a] ++ [b]) n from h)
  have hm' : m < 16 := by
    rw [← hexNumber?_eq_some_iff, hexNumber?_singleton] at hm
    exact hexDigit?_lt hm
  have hvalid : (16 * m + d).isValidChar := .inl (by have := hd.1; omega)
  exact ⟨_, scalar?_eq_some (hexNumber?_eq_some_iff.mpr h) hvalid⟩

/-! ## Elements -/

/-- The letters behind a backslash that stand for a control character. -/
def controls : List (Char × Char) :=
  [('n', '\n'), ('t', '\t'), ('r', '\r'), ('a', '\x07'), ('e', '\x1b'), ('0', '\x00')]

/-- The characters of one element of a literal, and what it stands for. -/
inductive Spells : List Char → Element → Prop where
  | plain {c} (hquote : c ≠ '"') (hback : c ≠ '\\') : Spells [c] (.char c)
  | control {letter c} (h : (letter, c) ∈ controls) : Spells ['\\', letter] (.char c)
  | pair {a b c} (h : HexNumber [a, b] (Char.toNat c)) : Spells ['\\', 'x', a, b] (.char c)
  | badPair {a b} (h : ∀ n, ¬HexNumber [a, b] n) :
      Spells ['\\', 'x', a, b] (.malformed (String.ofList ['\\', 'x', a, b]))
  | braced {digits c} (hclose : '\x7d' ∉ digits) (hlength : 1 ≤ digits.length ∧ digits.length ≤ 8)
      (h : HexNumber digits (Char.toNat c)) : Spells ('\\' :: '\x7b' :: (digits ++ ['\x7d'])) (.char c)
  | badBraced {body} (hclose : '\x7d' ∉ body)
      (h : ∀ c, ¬((1 ≤ body.length ∧ body.length ≤ 8) ∧ HexNumber body (Char.toNat c))) :
      Spells ('\\' :: '\x7b' :: (body ++ ['\x7d']))
        (.malformed (String.ofList ('\\' :: '\x7b' :: (body ++ ['\x7d']))))
  | itself {c} (h : c ∉ 'x' :: '\x7b' :: controls.map Prod.fst) : Spells ['\\', c] (.char c)

theorem control?_eq_some_iff {letter c : Char} :
    control? letter = some c ↔ (letter, c) ∈ controls := by
  unfold control?
  split <;> simp_all [controls, eq_comm]

theorem control?_eq_none_iff {letter : Char} :
    control? letter = none ↔ letter ∉ controls.map Prod.fst := by
  rw [Option.eq_none_iff_forall_ne_some, List.mem_map]
  simp only [ne_eq, control?_eq_some_iff]
  constructor
  · rintro h ⟨⟨letter, c⟩, hmem, rfl⟩
    exact h c hmem
  · intro h c hmem
    exact h ⟨_, hmem, rfl⟩

theorem braced?_eq_some_iff_hexNumber {digits : List Char} {c : Char} :
    braced? digits = some c ↔
      (1 ≤ digits.length ∧ digits.length ≤ 8) ∧ HexNumber digits c.toNat := by
  rw [braced?_eq_some_iff, scalar?_eq_some_iff, ← and_assoc, ← List.length_pos_iff]
  exact Iff.rfl

theorem element?_closed {body : List Char} (h : '\x7d' ∉ body) (rest : List Char) :
    element? ('\\' :: '\x7b' :: (body ++ ['\x7d']) ++ rest) =
      some (.ofChar? (braced? body) ('\\' :: '\x7b' :: (body ++ ['\x7d'])),
        '\\' :: '\x7b' :: (body ++ ['\x7d']), rest) := by
  have hbraced := element?_braced h ('\x7d' :: rest)
  simpa using hbraced

/-- An element is found by its characters, whatever follows them. -/
theorem element?_of_spells {written : List Char} {e : Element} (h : Spells written e)
    (rest : List Char) : element? (written ++ rest) = some (e, written, rest) := by
  cases h with
  | plain hquote hback => exact element?_of_ne hback rest
  | control h =>
    simp only [controls, List.mem_cons, Prod.mk.injEq, List.not_mem_nil, or_false] at h
    rcases h with ⟨rfl, rfl⟩ | ⟨rfl, rfl⟩ | ⟨rfl, rfl⟩ | ⟨rfl, rfl⟩ | ⟨rfl, rfl⟩ | ⟨rfl, rfl⟩ <;> rfl
  | pair h =>
    refine (element?_hex _ _ rest).trans ?_
    rw [scalar?_eq_some_iff.mpr h]
    rfl
  | @badPair a b h =>
    have hnone : scalar? [a, b] = none := by
      rw [Option.eq_none_iff_forall_ne_some]
      intro c hc
      exact h _ (scalar?_eq_some_iff.mp hc)
    refine (element?_hex _ _ rest).trans ?_
    rw [hnone]
    rfl
  | braced hclose hlength h =>
    rw [element?_closed hclose, braced?_eq_some_iff_hexNumber.mpr ⟨hlength, h⟩]
    rfl
  | @badBraced body hclose h =>
    have hnone : braced? body = none := by
      rw [Option.eq_none_iff_forall_ne_some]
      intro c hc
      exact h c (braced?_eq_some_iff_hexNumber.mp hc)
    rw [element?_closed hclose, hnone]
    rfl
  | itself h =>
    rw [List.mem_cons, List.mem_cons, not_or, not_or] at h
    obtain ⟨hx, hbrace, hcontrol⟩ := h
    rw [List.cons_append, List.singleton_append, element?, escaped?_of_ne hx hbrace,
      control?_eq_none_iff.mpr hcontrol]
    rfl

theorem spells_pair (a b : Char) :
    Spells ['\\', 'x', a, b] (.ofChar? (scalar? [a, b]) ['\\', 'x', a, b]) := by
  cases hc : scalar? [a, b] with
  | some c => exact .pair (scalar?_eq_some_iff.mp hc)
  | none =>
    refine .badPair fun n hn => ?_
    obtain ⟨c, hc'⟩ := exists_scalar?_of_hexNumber hn
    rw [hc] at hc'
    cases hc'

theorem spells_braced {body : List Char} (hclose : '\x7d' ∉ body) :
    Spells ('\\' :: '\x7b' :: (body ++ ['\x7d']))
      (.ofChar? (braced? body) ('\\' :: '\x7b' :: (body ++ ['\x7d']))) := by
  cases hc : braced? body with
  | some c =>
    obtain ⟨hlength, h⟩ := braced?_eq_some_iff_hexNumber.mp hc
    exact .braced hclose hlength h
  | none =>
    refine .badBraced hclose fun c h => ?_
    rw [braced?_eq_some_iff_hexNumber.mpr h] at hc
    cases hc

theorem spells_letter {c : Char} (hx : c ≠ 'x') (hbrace : c ≠ '\x7b') :
    Spells ['\\', c] (.char ((control? c).getD c)) := by
  cases hc : control? c with
  | some k => exact .control (control?_eq_some_iff.mp hc)
  | none =>
    refine .itself ?_
    rw [List.mem_cons, List.mem_cons, not_or, not_or]
    exact ⟨hx, hbrace, control?_eq_none_iff.mp hc⟩

theorem spells_of_escaped? {cs written rest : List Char} {e : Element}
    (h : escaped? cs = some (e, written, rest)) : Spells ('\\' :: written) e := by
  unfold escaped? at h
  split at h
  · cases h
  · cases h
    exact spells_pair _ _
  · cases h
  · next cs =>
    dsimp only at h
    split at h
    · cases h
    · next close rest' hdrop =>
      have hclose := List.head?_dropWhile_not (· != '\x7d') cs
      rw [hdrop, List.head?_cons] at hclose
      obtain rfl : close = '\x7d' := by simpa using hclose
      cases h
      refine spells_braced fun hmem => ?_
      simpa using List.mem_takeWhile_imp hmem
  · next hx hx' hbrace =>
    cases h
    exact spells_letter hx' hbrace

/-- What is found in front of a text is spelled by the characters it takes up. -/
theorem spells_of_element? {cs written rest : List Char} {e : Element}
    (hquote : cs.head? ≠ some '"') (h : element? cs = some (e, written, rest)) : Spells written e := by
  unfold element? at h
  split at h
  · cases h
  · obtain ⟨⟨e', written', rest'⟩, hescaped, heq⟩ := Option.map_eq_some_iff.mp h
    cases heq
    exact spells_of_escaped? hescaped
  · next c rest' hback =>
    cases h
    refine .plain ?_ hback
    rintro rfl
    exact hquote rfl

theorem Spells.head?_ne {written : List Char} {e : Element} (h : Spells written e) (rest : List Char) :
    (written ++ rest).head? ≠ some '"' := by
  cases h with
  | plain hquote _ => exact fun h => hquote (Option.some.inj h)
  | _ => exact fun h => nomatch Option.some.inj h

/-- The text ends in front of an element or inside it: more characters make one element of it. -/
def Unfinished (tail : List Char) : Prop :=
  ∃ more e, more ≠ [] ∧ Spells (tail ++ more) e

theorem unfinished_of_element? {cs : List Char} (h : element? cs = none) : Unfinished cs := by
  rcases element?_none_cases h with rfl | rfl | rfl | ⟨a, rfl⟩ | ⟨body, hclose, rfl⟩
  · exact ⟨['a'], _, by decide, .plain (by decide) (by decide)⟩
  · exact ⟨['n'], _, by decide, .control (.head _)⟩
  · exact ⟨['0', '0'], _, by decide, spells_pair '0' '0'⟩
  · exact ⟨['0'], _, by decide, spells_pair a '0'⟩
  · exact ⟨['\x7d'], _, by decide, spells_braced hclose⟩

theorem Unfinished.element? {tail : List Char} (h : Unfinished tail) : element? tail = none := by
  obtain ⟨more, e, hmore, hspells⟩ := h
  rw [Option.eq_none_iff_forall_ne_some]
  rintro ⟨e', written, rest⟩ hfound
  -- what is found in the tail is found in front of the additional characters as well, and leaves them over
  have hlonger := element?_append hfound more
  have hwhole := element?_of_spells hspells []
  rw [List.append_nil, hlonger] at hwhole
  simp only [Option.some.injEq, Prod.mk.injEq, List.append_eq_nil_iff] at hwhole
  exact hmore hwhole.2.2.2

theorem Unfinished.ne_quote {tail : List Char} (h : Unfinished tail) (rest : List Char) :
    tail ≠ '"' :: rest := by
  obtain ⟨more, e, -, hspells⟩ := h
  rintro rfl
  exact hspells.head?_ne [] rfl

/-! ## Literals -/

/-- An element of a literal together with the characters that spell it. -/
structure Piece where
  written : List Char
  element : Element
  spells : Spells written element

/-- The character that an element stands for. -/
def Element.char? : Element → Option Char
  | char c => some c
  | malformed _ => none

/-- The escape that names no character. -/
def Element.malformed? : Element → Option String
  | char _ => none
  | malformed escape => some escape

/-- The characters of a sequence of elements. -/
def written (pieces : List Piece) : List Char := pieces.flatMap Piece.written

/-- The text that a sequence of elements stands for, malformed escapes left out. -/
def decoded (pieces : List Piece) : String := String.ofList (pieces.filterMap (·.element.char?))

/-- The lexeme of a sequence of elements between quotation marks: the text it stands for, or else the first
malformed escape. -/
def closedLexeme (pieces : List Piece) : Lexeme :=
  match pieces.findSome? (·.element.malformed?) with
  | none => .string (decoded pieces)
  | some escape => .illegal ("invalid escape sequence " ++ escape)

/-- The lexeme of a sequence of elements that no quotation mark follows. -/
def cutLexeme (pieces : List Piece) : Lexeme :=
  .illegal ("unterminated string: " ++ Text.quoted (decoded pieces))

/-- The scan after a sequence of elements. -/
def Progress.addAll (p : Progress) (pieces : List Piece) : Progress :=
  pieces.foldl (fun p piece => p.add piece.element piece.written) p

/-- The elements of a literal are found one after the other. -/
theorem scanFrom_pieces (p : Progress) (pieces : List Piece) (tail : List Char) :
    scanFrom p (written pieces ++ tail) = scanFrom (p.addAll pieces) tail := by
  induction pieces generalizing p with
  | nil => rfl
  | cons piece pieces ih =>
    obtain ⟨w, e, hspells⟩ := piece
    have hfound := element?_of_spells hspells (written pieces ++ tail)
    have hhead := hspells.head?_ne (written pieces ++ tail)
    rw [← List.append_assoc] at hfound hhead
    show scanFrom p (w ++ written pieces ++ tail) = scanFrom ((p.add e w).addAll pieces) tail
    rw [← ih]
    cases htext : w ++ written pieces ++ tail with
    | nil =>
      rw [htext] at hfound
      cases hfound
    | cons c cs =>
      rw [htext] at hfound hhead
      exact scanFrom_element (fun h => hhead (congrArg some h)) hfound

/-- What the scan has found is read off the elements. -/
theorem addAll_eq (p : Progress) (pieces : List Piece) :
    p.addAll pieces =
      ⟨(pieces.filterMap (·.element.char?)).reverse ++ p.decoded,
        p.malformed.or (pieces.findSome? (·.element.malformed?)), (written pieces).reverse ++ p.written⟩ := by
  induction pieces generalizing p with
  | nil => simp [Progress.addAll, written]
  | cons piece pieces ih =>
    obtain ⟨w, e, hspells⟩ := piece
    show (p.add e w).addAll pieces = _
    rw [ih]
    cases e with
    | char c => simp [Progress.add, Element.char?, Element.malformed?, written]
    | malformed escape =>
      cases hp : p.malformed <;> simp [Progress.add, Element.char?, Element.malformed?, written, hp]

theorem closed_addAll (pieces : List Piece) :
    (({} : Progress).addAll pieces).closed = closedLexeme pieces := by
  rw [addAll_eq, List.append_nil, Progress.closed, List.reverse_reverse]
  unfold closedLexeme
  cases pieces.findSome? (·.element.malformed?) <;> rfl

theorem cut_addAll (pieces : List Piece) :
    (({} : Progress).addAll pieces).cut = cutLexeme pieces := by
  rw [addAll_eq, List.append_nil, Progress.cut, List.reverse_reverse]
  rfl

theorem written_addAll (pieces : List Piece) :
    (({} : Progress).addAll pieces).written.reverse = written pieces := by
  rw [addAll_eq]
  simp

theorem scan_closed (pieces : List Piece) (rest : List Char) :
    scan (written pieces ++ '"' :: rest) = (closedLexeme pieces, written pieces ++ ['"'], rest) := by
  rw [scan, scanFrom_pieces, scanFrom_quote, closed_addAll, List.reverse_cons, written_addAll]

theorem scan_cut (pieces : List Piece) {tail : List Char} (h : Unfinished tail) :
    scan (written pieces ++ tail) = (cutLexeme pieces, written pieces ++ tail, []) := by
  rw [scan, scanFrom_pieces, scanFrom_cut h.ne_quote h.element?, cut_addAll, written_addAll]

/-- Every text divides into elements, up to a quotation mark or to the end of the text. -/
theorem exists_division (cs : List Char) :
    ∃ pieces tail, cs = written pieces ++ tail ∧ ((∃ rest, tail = '"' :: rest) ∨ Unfinished tail) := by
  fun_induction scanFrom {} cs with
  | case1 p rest => exact ⟨[], _, rfl, .inl ⟨rest, rfl⟩⟩
  | case2 p cs hquote e w rest hfound _ ih =>
    obtain ⟨pieces, tail, rfl, htail⟩ := ih
    have hhead : cs.head? ≠ some '"' := by
      intro h
      obtain ⟨rest', rfl⟩ := List.head?_eq_some_iff.mp h
      exact hquote rest' rfl
    refine ⟨⟨w, e, spells_of_element? hhead hfound⟩ :: pieces, tail, ?_, htail⟩
    have hcs := element?_written hfound
    rw [← List.append_assoc] at hcs
    exact hcs.symm
  | case3 p cs hquote hfound => exact ⟨[], cs, rfl, .inr (unfinished_of_element? hfound)⟩

end StringLiteral

open StringLiteral

/-- **String literals.** Every text behind an opening quotation mark divides into elements up to a quotation
mark, or up to the end of the text, which may be inside an element. However it does, a literal with a closing
quotation mark is one token that ends right behind it: the string that the elements stand for, or an illegal
token with the malformed escape that comes first. One without is an illegal token that goes on to the end of
the text. -/
theorem string_literal_by_grammar (p : Position) (cs : List Char) :
    (∃ pieces tail, cs = written pieces ++ tail ∧ ((∃ rest, tail = '"' :: rest) ∨ Unfinished tail)) ∧
    (∀ pieces rest, cs = written pieces ++ '"' :: rest →
      tokensAt p ('"' :: cs) = ⟨closedLexeme pieces, ⟨p, (written pieces).length + 2⟩⟩ ::
        tokensAt (p.after ('"' :: (written pieces ++ ['"']))) rest) ∧
    ∀ pieces tail, Unfinished tail → cs = written pieces ++ tail →
      tokensAt p ('"' :: cs) = [⟨cutLexeme pieces, ⟨p, cs.length + 1⟩⟩] := by
  have hfirst (cs : List Char) : Found.first '"' cs =
      ⟨(scan cs).1, '"' :: (scan cs).2.1, (scan cs).2.2⟩ := rfl
  refine ⟨exists_division cs, ?_, ?_⟩
  · rintro pieces rest rfl
    rw [tokensAt_cons, hfirst, scan_closed]
    simp
  · rintro pieces tail htail rfl
    rw [tokensAt_cons, hfirst, scan_cut pieces htail]
    simp [tokensAt_nil]

/-- A plain character, a code that is no character's, and a pair that is no number. -/
def surrogateThenPair : List Piece :=
  [⟨['a'], .char 'a', .plain (by decide) (by decide)⟩,
    ⟨_, _, spells_braced (show '\x7d' ∉ ['d', '8', '0', '0'] by decide)⟩, ⟨_, _, spells_pair 'G' '0'⟩]

/-- Of two malformed escapes the first one is named, and the token ends behind the quotation mark. -/
theorem surrogateThenPair_refused :
    tokensAt {} "\"a\\\x7bd800\x7d\\xG0\")".toList =
      [⟨.illegal "invalid escape sequence \\\x7bd800\x7d", ⟨{}, 14⟩⟩, ⟨.rightParen, ⟨⟨14, 1, 15⟩, 1⟩⟩] := by
  have hclosed := (string_literal_by_grammar {} _).2.1 surrogateThenPair [')'] rfl
  have hlast : tokensAt ⟨14, 1, 15⟩ [')'] = [⟨.rightParen, ⟨⟨14, 1, 15⟩, 1⟩⟩] := by
    rw [tokensAt_cons]
    exact congrArg _ (tokensAt_nil _)
  have hlexeme : closedLexeme surrogateThenPair =
      .illegal "invalid escape sequence \\\x7bd800\x7d" := by decide
  rw [hlexeme] at hclosed
  exact hclosed.trans (congrArg _ hlast)

end SmallScheme
