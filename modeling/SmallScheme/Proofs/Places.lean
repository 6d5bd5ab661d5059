import SmallScheme.Proofs.Grammar

/-!
# The tokens of a text at their places

`placed p cs` gives the tokens of the characters `cs` that are not white space or comments, when the first
character stands at the place `p`.

1. Every character belongs to one lexeme (`Found.written_append_rest`), so a token stands where the
   characters before it end, and the last one ends where the text does (`stop_scanFrom`).
2. A text that is moved by whole lines has its tokens moved by as much (`placed_shift`), and so it fails
   where the failure is moved by as much (`readAt_shift`).
-/

namespace SmallScheme

open Text

/-! ## The characters of a lexeme -/

namespace StringLiteral

theorem escaped?_written {cs written rest : List Char} {e : Element}
    (h : escaped? cs = some (e, written, rest)) : written ++ rest = cs := by
  unfold escaped? at h
  split at h
  · cases h
  · cases h
    rfl
  · cases h
  · next cs =>
    dsimp only at h
    split at h
    · cases h
    · next close rest' heq =>
      cases h
      rw [List.cons_append, List.append_assoc, List.singleton_append, ← heq,
        List.takeWhile_append_dropWhile]
  · cases h
    rfl

theorem element?_written {cs written rest : List Char} {e : Element}
    (h : element? cs = some (e, written, rest)) : written ++ rest = cs := by
  unfold element? at h
  split at h
  · cases h
  · obtain ⟨⟨e', written', rest'⟩, hescaped, heq⟩ := Option.map_eq_some_iff.mp h
    cases heq
    rw [List.cons_append, escaped?_written hescaped]
  · cases h
    rfl

theorem written_add (p : Progress) (e : Element) (written : List Char) :
    (p.add e written).written = written.reverse ++ p.written := by
  cases e <;> rfl

theorem scanFrom_written (p : Progress) (cs : List Char) :
    (scanFrom p cs).2.1 ++ (scanFrom p cs).2.2 = p.written.reverse ++ cs := by
  fun_induction scanFrom p cs with
  | case1 p rest => simp
  | case2 p cs _ e written rest helement _ ih =>
    rw [ih, written_add, List.reverse_append, List.reverse_reverse, List.append_assoc,
      element?_written helement]
  | case3 p cs => simp

end StringLiteral

namespace Found

/-- The characters that a comment takes up are the beginning of the text. -/
theorem comment_written (c : Char) (cs : List Char) :
    (comment c cs).written ++ (comment c cs).rest = c :: cs := by
  have hcs := List.takeWhile_append_dropWhile (p := (· != '\n')) (l := cs)
  unfold comment
  dsimp only
  split
  · next hdrop =>
    rw [hdrop, List.append_nil] at hcs
    rw [List.append_nil, hcs]
  · next feed rest hdrop =>
    rw [hdrop] at hcs
    rw [List.cons_append, List.append_assoc, List.singleton_append, hcs]

/-- A lexeme takes up the beginning of the text. -/
theorem written_append_rest (c : Char) (cs : List Char) :
    (first c cs).written ++ (first c cs).rest = c :: cs := by
  have hrun (p : Char → Bool) : c :: cs.takeWhile p ++ cs.dropWhile p = c :: cs := by
    rw [List.cons_append, List.takeWhile_append_dropWhile]
  unfold first
  split
  · exact hrun isBlank
  · split
    · rfl
    · rfl
    · rfl
    · exact congrArg _ (StringLiteral.scanFrom_written {} cs)
    · exact comment_written _ cs
    · exact hrun isWordChar
    · unfold word
      split_ifs
      · rfl
      · rfl
      · exact hrun isWordChar
      · exact hrun isWordChar

end Found

/-! ## Placed tokens -/

/-- The token of a lexeme that begins at a place, unless it is white space or a comment. -/
def Found.tokenAt (p : Position) (found : Found) : List Token :=
  TokenStream.significant [⟨found.lexeme, ⟨p, found.written.length⟩⟩]

section

-- the recursion does not depend on what is found
attribute [local irreducible] Found.first

/-- The tokens of a text that are not white space or comments, when it begins at a place. -/
def placed (p : Position) (cs : List Char) : List Token :=
  match cs with
  | [] => []
  | c :: cs =>
    (Found.first c cs).tokenAt p ++ placed (p.after (Found.first c cs).written) (Found.first c cs).rest
termination_by cs.length
decreasing_by exact Nat.lt_succ_of_le (Found.length_rest_first c cs)

theorem placed_nil (p : Position) : placed p [] = [] := by
  rw [placed]

theorem placed_cons (p : Position) (c : Char) (cs : List Char) :
    placed p (c :: cs) =
      (Found.first c cs).tokenAt p ++
        placed (p.after (Found.first c cs).written) (Found.first c cs).rest := by
  rw [placed]

end

namespace TokenStream

theorem significant_scanFrom (found : List Token) (p : Position) (cs : List Char) :
    significant (scanFrom found p cs).tokens = significant found.reverse ++ placed p cs := by
  fun_induction scanFrom found p cs with
  | case1 found p => rw [placed_nil, List.append_nil]
  | case2 found p c cs next ih =>
    rw [ih, List.reverse_cons, significant_append, List.append_assoc, placed_cons]
    rfl

/-- The tokens of a text end where the text does. -/
theorem stop_scanFrom (found : List Token) (p : Position) (cs : List Char) :
    (scanFrom found p cs).stop = p.after cs := by
  fun_induction scanFrom found p cs with
  | case1 found p => rfl
  | case2 found p c cs next ih =>
    rw [ih, ← Position.after_append]
    exact congrArg p.after (Found.written_append_rest c cs)

end TokenStream

open TokenStream

/-- All data of a text that begins at a place, or the first failure. -/
def readAt (p : Position) (cs : List Char) : Except Error (List Datum) :=
  readData ⟨placed p cs, p.after cs⟩

theorem readAt_eq (p : Position) (cs : List Char) : readAt p cs = readData (scanFrom [] p cs) := by
  rw [← readData_significant, significant_scanFrom, stop_scanFrom]
  rfl

theorem readAll_eq_readAt (text : String) : readAll text = readAt {} text.toList :=
  (readAt_eq {} text.toList).symm

/-! ## White space and comments -/

theorem placed_separator {p : Position} {c : Char} {cs written rest : List Char} {l : Lexeme}
    (h : Found.first c cs = ⟨l, written, rest⟩) (hl : l.isSeparator = true) :
    placed p (c :: cs) = placed (p.after written) rest := by
  rw [placed_cons, h]
  simp [Found.tokenAt, significant, hl]

theorem Found.first_blank {c : Char} (h : isBlank c = true) (cs : List Char) :
    Found.first c cs = Found.run isBlank .blank c cs := by
  unfold Found.first
  exact if_pos h

theorem placed_dropWhile (p : Position) (cs : List Char) :
    placed (p.after (cs.takeWhile isBlank)) (cs.dropWhile isBlank) = placed p cs := by
  cases cs with
  | nil => rfl
  | cons c cs =>
    by_cases hc : isBlank c = true
    · rw [List.takeWhile_cons_of_pos hc, List.dropWhile_cons_of_pos hc]
      exact (placed_separator (Found.first_blank hc cs) rfl).symm
    · rw [List.takeWhile_cons_of_neg hc, List.dropWhile_cons_of_neg hc]
      rfl

/-- White space in front only takes up its place. -/
theorem placed_blank {c : Char} (h : isBlank c = true) (p : Position) (cs : List Char) :
    placed p (c :: cs) = placed (p.advance c) cs := by
  rw [← placed_dropWhile (p.advance c) cs]
  exact placed_separator (Found.first_blank h cs) rfl

/-- A comment only takes up its place, up to the end of the line. -/
theorem placed_comment (p : Position) (cs : List Char) :
    placed p (';' :: cs) =
      placed (p.after (';' :: cs.takeWhile (· != '\n'))) (cs.dropWhile (· != '\n')) := by
  have hfirst : Found.first ';' cs = Found.comment ';' cs := rfl
  unfold Found.comment at hfirst
  dsimp only at hfirst
  cases hdrop : cs.dropWhile (· != '\n') with
  | nil =>
    rw [hdrop] at hfirst
    exact placed_separator hfirst rfl
  | cons feed rest =>
    have hfeed := List.head?_dropWhile_not (· != '\n') cs
    rw [hdrop, List.head?_cons] at hfeed
    obtain rfl : feed = '\n' := by simpa using hfeed
    rw [hdrop] at hfirst
    rw [placed_blank (rfl : isBlank '\n' = true), placed_separator hfirst rfl, ← List.cons_append,
      Position.after_append]
    rfl

/-! ## Moving a text -/

/-- A place moved by a number of characters and a number of whole lines. -/
def Position.shift (offset lines : Nat) (p : Position) : Position :=
  ⟨p.offset + offset, p.line + lines, p.column⟩

/-- A span moved by a number of characters and a number of whole lines. -/
def Span.shift (offset lines : Nat) (s : Span) : Span :=
  ⟨s.start.shift offset lines, s.length⟩

namespace Position

theorem advance_shift (offset lines : Nat) (p : Position) (c : Char) :
    (p.shift offset lines).advance c = (p.advance c).shift offset lines := by
  unfold advance shift
  split_ifs
  · simp only [Nat.add_right_comm]
  · simp only [Nat.add_right_comm]

theorem after_shift (offset lines : Nat) (p : Position) (cs : List Char) :
    (p.shift offset lines).after cs = (p.after cs).shift offset lines := by
  induction cs generalizing p with
  | nil => rfl
  | cons c cs ih => rw [after_cons, after_cons, advance_shift, ih]

theorem line_after (p : Position) (cs : List Char) :
    (p.after cs).line = p.line + cs.count '\n' := by
  induction cs generalizing p with
  | nil => rfl
  | cons c cs ih =>
    rw [after_cons, ih, advance]
    by_cases h : c = '\n'
    · rw [if_pos h, h, List.count_cons_self]
      exact Nat.add_right_comm ..
    · rw [if_neg h, List.count_cons_of_ne h]

/-- Behind a line feed a new line begins. -/
theorem after_newline (cs : List Char) :
    ({} : Position).after (cs ++ ['\n']) = shift (cs.length + 1) (cs.count '\n' + 1) {} := by
  have hoffset := offset_after {} cs
  have hline := line_after {} cs
  rw [after_append]
  show (⟨(after {} cs).offset + 1, (after {} cs).line + 1, 1⟩ : Position) = _
  rw [hoffset, hline]
  rfl

end Position

theorem significant_mapSpan (f : Span → Span) (tokens : List Token) :
    significant (tokens.map (Token.mapSpan f)) = (significant tokens).map (Token.mapSpan f) :=
  List.filter_map

theorem placed_shift (offset lines : Nat) (p : Position) (cs : List Char) :
    placed (p.shift offset lines) cs = (placed p cs).map (Token.mapSpan (Span.shift offset lines)) := by
  fun_induction placed p cs with
  | case1 p => rw [placed_nil, List.map_nil]
  | case2 p c cs ih =>
    have htoken := significant_mapSpan (Span.shift offset lines)
      [⟨(Found.first c cs).lexeme, ⟨p, (Found.first c cs).written.length⟩⟩]
    rw [placed_cons, Position.after_shift, ih, List.map_append]
    exact congrArg (· ++ _) htoken

/-- A text that is moved fails where it fails, moved by as much. -/
theorem readAt_shift (offset lines : Nat) (p : Position) (cs : List Char) :
    readAt (p.shift offset lines) cs =
      (readAt p cs).mapError (Error.mapSpan (Span.shift offset lines)) := by
  unfold readAt
  rw [placed_shift, Position.after_shift]
  exact readData_mapSpan rfl (placed p cs)

end SmallScheme
