import Mathlib.Data.List.Chain
import SmallScheme.Proofs.Lines

/-!
# Tokens tile the text

`tokens_tile_text`: the tokens of a text, one after the other, cover it without gap or overlap, and each of
them says where it stands.

1. A lexeme takes up all that it depends on, so the characters of a token are that token again in front of any
   part of what followed them (`Found.first_fixed`), and on their own (`Found.first_alone`).
2. A token of a text is the first lexeme behind the characters in front of it
   (`exists_of_mem_tokensAt`). Its place, the text it carries and what it is on its own are read off from
   there.
3. The stream gives one token after the other, and behind the last one the end is found again and again
   (`TokenStream.pulled_eq`).
-/

namespace SmallScheme

open Text

/-! ## A lexeme on its own -/

/-- A run of characters in front of the beginning of what followed it. -/
theorem takeWhile_cut {p : Char → Bool} {cs : List Char} (front : List Char) {more : List Char}
    (h : cs.dropWhile p = front ++ more) :
    (cs.takeWhile p ++ front).takeWhile p = cs.takeWhile p ∧
      (cs.takeWhile p ++ front).dropWhile p = front := by
  have hfront : front.head?.any p = false := by
    have hstop := any_head?_dropWhile p cs
    rw [h] at hstop
    cases front with
    | nil => rfl
    | cons c front => exact hstop
  have hall : ∀ c ∈ cs.takeWhile p, p c = true := by
    intro c hc
    exact List.mem_takeWhile_imp hc
  obtain ⟨htake, hdrop⟩ := takeWhile_dropWhile_append (cs.takeWhile p) front (.inr hfront)
  rw [htake, hdrop, List.takeWhile_eq_self_iff.mpr hall, List.dropWhile_eq_nil_iff.mpr hall]
  exact ⟨rfl, rfl⟩

namespace StringLiteral

/-- An escape depends on its own characters only. -/
theorem escaped?_alone {cs written rest : List Char} {e : Element}
    (h : escaped? cs = some (e, written, rest)) : escaped? written = some (e, written, []) := by
  unfold escaped? at h
  split at h
  · simp at h
  · cases h
    rfl
  · simp at h
  · next cs =>
    dsimp only at h
    split at h
    · simp at h
    · next close rest' hdrop =>
      cases h
      obtain ⟨htake, hstop⟩ := takeWhile_cut [close] hdrop
      rw [escaped?]
      dsimp only
      rw [htake, hstop]
  · next c rest' hx hx' hbrace =>
    cases h
    exact escaped?_of_ne hx' hbrace []

theorem element?_alone {cs written rest : List Char} {e : Element}
    (h : element? cs = some (e, written, rest)) : element? written = some (e, written, []) := by
  unfold element? at h
  split at h
  · simp at h
  · obtain ⟨⟨e', written', rest'⟩, hescaped, heq⟩ := Option.map_eq_some_iff.mp h
    cases heq
    rw [element?, escaped?_alone hescaped]
    rfl
  · next c rest' hback =>
    cases h
    exact element?_of_ne hback []

theorem scanFrom_cut {p : Progress} {cs : List Char} (hquote : ∀ rest, cs ≠ '"' :: rest)
    (h : element? cs = none) : scanFrom p cs = (p.cut, p.written.reverse ++ cs, []) := by
  rw [scanFrom]
  · split
    · next h' => rw [h] at h'; cases h'
    · rfl
  · exact hquote

/-- The characters of a literal are scanned in the same way in front of the beginning of what followed
them. -/
theorem scanFrom_front (p : Progress) (cs : List Char) :
    ∃ w, cs = w ++ (scanFrom p cs).2.2 ∧ ∀ front more, (scanFrom p cs).2.2 = front ++ more →
      scanFrom p (w ++ front) = ((scanFrom p cs).1, (scanFrom p cs).2.1, front) := by
  fun_induction scanFrom p cs with
  | case1 p rest => exact ⟨['"'], rfl, fun front more _ => scanFrom_quote p front⟩
  | case2 p cs hquote e written rest helement _ ih =>
    obtain ⟨w, hw, hscan⟩ := ih
    have hcs := element?_written helement
    have halone := element?_alone helement
    refine ⟨written ++ w, ?_, ?_⟩
    · rw [List.append_assoc, ← hw, hcs]
    · intro front more hfront
      have hlonger := element?_append halone (w ++ front)
      rw [List.append_assoc]
      cases written with
      | nil => cases halone
      | cons c written =>
        have hc : c ≠ '"' := by
          rintro rfl
          exact hquote _ hcs.symm
        rw [List.cons_append] at hlonger ⊢
        rw [scanFrom_element hc hlonger]
        exact hscan front more hfront
  | case3 p cs hquote helement =>
    refine ⟨cs, (List.append_nil cs).symm, ?_⟩
    intro front more hfront
    obtain ⟨rfl, -⟩ := List.append_eq_nil_iff.mp hfront.symm
    rw [List.append_nil]
    exact scanFrom_cut hquote helement

end StringLiteral

namespace Found

/-- What can stand at the front of a text, by its first character. -/
@[elab_as_elim]
theorem first_cases {motive : Char → List Char → Found → Prop}
    (blank : ∀ c cs, isBlank c = true → motive c cs (run isBlank .blank c cs))
    (leftParen : ∀ cs, motive '(' cs (single .leftParen '(' cs))
    (rightParen : ∀ cs, motive ')' cs (single .rightParen ')' cs))
    (quote : ∀ cs, motive '\x27' cs (single .quote '\x27' cs))
    (string : ∀ cs, motive '"' cs (stringLiteral '"' cs))
    (comment : ∀ cs, motive ';' cs (comment ';' cs))
    (hash : ∀ cs, motive '#' cs (hash '#' cs))
    (dot : ∀ cs, Delimited cs → motive '.' cs (single .dot '.' cs))
    (illegal : ∀ c cs, isWordChar c = false → isBlank c = false → c ∉ ['(', ')', '\x27', '"', ';'] →
      motive c cs (single (.illegal ("unexpected character " ++ quotedChar c)) c cs))
    (word : ∀ c cs, isWordChar c = true → c ≠ '#' → (c = '.' → ¬Delimited cs) →
      motive c cs (run isWordChar (if startsNumber c cs.head? then .number else .symbol) c cs))
    (c : Char) (cs : List Char) : motive c cs (first c cs) := by
  unfold first
  split
  · next hblank => exact blank c cs hblank
  next hblank =>
  split
  · exact leftParen cs
  · exact rightParen cs
  · exact quote cs
  · exact string cs
  · exact comment cs
  · exact hash cs
  · next hleft hright hquote hstring hcomment hhash =>
    unfold Found.word
    split_ifs with hdot hillegal hnumber
    · simp only [Bool.and_eq_true, beq_iff_eq, Bool.not_eq_true'] at hdot
      obtain ⟨rfl, hdelimited⟩ := hdot
      exact dot cs hdelimited
    · apply illegal c cs
      · simpa using hillegal
      · simpa using hblank
      · simp only [List.mem_cons, List.not_mem_nil, or_false, not_or]
        exact ⟨hleft, hright, hquote, hstring, hcomment⟩
    · have hword := word c cs (by simpa using hillegal) hhash (by simpa [Delimited] using hdot)
      rwa [if_pos hnumber] at hword
    · have hword := word c cs (by simpa using hillegal) hhash (by simpa [Delimited] using hdot)
      rwa [if_neg hnumber] at hword

theorem first_illegal {c : Char} (hword : isWordChar c = false) (hblank : isBlank c = false)
    (hmark : c ∉ ['(', ')', '\x27', '"', ';']) (cs : List Char) :
    first c cs = single (.illegal ("unexpected character " ++ quotedChar c)) c cs := by
  have hhash : c ≠ '#' := by
    rintro rfl
    cases hword
  have hdot : c ≠ '.' := by
    rintro rfl
    cases hword
  unfold first word
  split <;> simp_all

/-- `found` is what its own characters give in front of the beginning of what follows them. -/
def Fixed (c : Char) (found : Found) : Prop :=
  ∃ w, found.written = c :: w ∧ ∀ front more, found.rest = front ++ more →
    first c (w ++ front) = ⟨found.lexeme, c :: w, front⟩

theorem fixed_blank {c : Char} (h : isBlank c = true) (cs : List Char) :
    (run isBlank .blank c cs).Fixed c := by
  refine ⟨cs.takeWhile isBlank, rfl, ?_⟩
  intro front more hfront
  obtain ⟨htake, hdrop⟩ := takeWhile_cut front hfront
  rw [first_blank h, run, htake, hdrop]
  rfl

theorem fixed_string (cs : List Char) : (stringLiteral '"' cs).Fixed '"' := by
  obtain ⟨w, hw, hscan⟩ := StringLiteral.scanFrom_front {} cs
  have hwritten : _ = cs := StringLiteral.scanFrom_written {} cs
  have hw' : (StringLiteral.scanFrom {} cs).2.1 = w := List.append_cancel_right (hwritten.trans hw)
  refine ⟨w, congrArg _ hw', ?_⟩
  intro front more hfront
  show stringLiteral '"' (w ++ front) = _
  unfold stringLiteral StringLiteral.scan
  rw [hscan front more hfront, hw']

theorem fixed_comment (cs : List Char) : (comment ';' cs).Fixed ';' := by
  have hfirst : ∀ w, first ';' w = comment ';' w := fun w => rfl
  unfold comment
  dsimp only
  split
  · next hdrop =>
    refine ⟨cs.takeWhile (· != '\n'), rfl, ?_⟩
    intro front more hfront
    obtain ⟨rfl, rfl⟩ := List.append_eq_nil_iff.mp hfront.symm
    obtain ⟨htake, hstop⟩ := takeWhile_cut [] (hdrop : _ = [] ++ [])
    rw [hfirst, comment]
    dsimp only
    rw [htake, hstop]
  · next feed rest hdrop =>
    refine ⟨cs.takeWhile (· != '\n') ++ [feed], rfl, ?_⟩
    rintro front more rfl
    obtain ⟨htake, hstop⟩ := takeWhile_cut (feed :: front) hdrop
    rw [hfirst, comment, List.append_assoc, List.singleton_append]
    dsimp only
    rw [htake, hstop]

theorem delimited_dropWhile (cs : List Char) : Delimited (cs.dropWhile isWordChar) :=
  any_head?_dropWhile isWordChar cs

theorem fixed_hash (cs : List Char) : (hash '#' cs).Fixed '#' := by
  refine ⟨cs.takeWhile isWordChar, rfl, ?_⟩
  intro front more hfront
  obtain ⟨htake, hdrop⟩ := takeWhile_cut front hfront
  show hash '#' _ = _
  simp only [hash, htake, hdrop]

theorem delimited_of_append {front more : List Char} (h : Delimited (front ++ more)) : Delimited front := by
  cases front with
  | nil => rfl
  | cons c front => exact h

theorem fixed_word {c : Char} {cs : List Char} (hc : isWordChar c = true) (hhash : c ≠ '#')
    (hdot : c = '.' → ¬Delimited cs) :
    (run isWordChar (if startsNumber c cs.head? then .number else .symbol) c cs).Fixed c := by
  have hword : IsWord c (cs.takeWhile isWordChar) := by
    refine ⟨?_, hhash, ?_⟩
    · intro d hd
      rcases List.mem_cons.mp hd with rfl | hd
      · exact hc
      · exact List.mem_takeWhile_imp hd
    · intro hc' hnil
      refine hdot hc' ?_
      have hcs := List.takeWhile_append_dropWhile (p := isWordChar) (l := cs)
      rw [hnil, List.nil_append] at hcs
      rw [← hcs]
      exact delimited_dropWhile cs
  have hnumber : startsNumber c (cs.takeWhile isWordChar).head? = startsNumber c cs.head? := by
    have happend := startsNumber_append c (cs.takeWhile isWordChar) (delimited_dropWhile cs)
    rwa [List.takeWhile_append_dropWhile, eq_comm] at happend
  refine ⟨cs.takeWhile isWordChar, rfl, ?_⟩
  intro front more hfront
  have hend : Delimited (front ++ more) := by
    rw [← hfront]
    exact delimited_dropWhile cs
  have hfirst := hword.first (delimited_of_append hend)
  rwa [hnumber] at hfirst

/-- **A lexeme and what follows it.** The characters that a lexeme takes up give that lexeme in front of the
beginning of what followed them, however long that is. -/
theorem first_fixed (c : Char) (cs : List Char) : (first c cs).Fixed c := by
  apply first_cases (motive := fun c _ found => found.Fixed c)
  case blank => exact fun c cs h => fixed_blank h cs
  case leftParen => exact fun cs => ⟨[], rfl, fun front more _ => rfl⟩
  case rightParen => exact fun cs => ⟨[], rfl, fun front more _ => rfl⟩
  case quote => exact fun cs => ⟨[], rfl, fun front more _ => rfl⟩
  case string => exact fixed_string
  case comment => exact fixed_comment
  case hash => exact fixed_hash
  case dot =>
    intro cs hcs
    refine ⟨[], rfl, ?_⟩
    intro front more hfront
    have hdelimited : Delimited (front ++ more) := by
      rw [← hfront]
      exact hcs
    exact first_dot (delimited_of_append hdelimited)
  case illegal =>
    intro c cs hword hblank hmark
    exact ⟨[], rfl, fun front more _ => first_illegal hword hblank hmark front⟩
  case word => exact fun c cs => fixed_word

/-- The characters that a lexeme takes up give that lexeme when nothing follows. -/
theorem first_alone (c : Char) (cs : List Char) :
    ∃ w, (first c cs).written = c :: w ∧ first c w = ⟨(first c cs).lexeme, c :: w, []⟩ := by
  obtain ⟨w, hw, hfixed⟩ := first_fixed c cs
  have halone := hfixed [] _ rfl
  rw [List.append_nil] at halone
  exact ⟨w, hw, halone⟩

end Found

/-- The source text of a lexeme that carries its text as it was written. -/
def Lexeme.verbatim? : Lexeme → Option String
  | blank text | symbol text | number text | comment text => some text
  | _ => none

/-- What was found is not the end of the text, and a text that it carries as it was written consists of the
characters that it takes up. -/
def Found.Faithful (found : Found) : Prop :=
  found.lexeme ≠ .endOfText ∧
    ∀ text, found.lexeme.verbatim? = some text → text.toList = found.written

/-- A literal is a string or illegal. -/
theorem StringLiteral.scanFrom_cases (p : Progress) (cs : List Char) :
    (∃ text, (scanFrom p cs).1 = .string text) ∨ ∃ detail, (scanFrom p cs).1 = .illegal detail := by
  fun_induction scanFrom p cs with
  | case1 p rest =>
    unfold Progress.closed
    split
    · exact .inr ⟨_, rfl⟩
    · exact .inl ⟨_, rfl⟩
  | case2 p cs _ e written rest _ _ ih => exact ih
  | case3 p cs => exact .inr ⟨_, rfl⟩

namespace Found

theorem faithful_of_none {found : Found} (h : found.lexeme ≠ .endOfText)
    (hnone : found.lexeme.verbatim? = none) : found.Faithful := by
  refine ⟨h, ?_⟩
  intro text htext
  rw [hnone] at htext
  cases htext

theorem faithful_of_some {found : Found} (h : found.lexeme ≠ .endOfText)
    (hsome : found.lexeme.verbatim? = some (String.ofList found.written)) : found.Faithful := by
  refine ⟨h, ?_⟩
  intro text htext
  rw [hsome, Option.some.injEq] at htext
  rw [← htext, String.toList_ofList]

theorem faithful_first (c : Char) (cs : List Char) : (first c cs).Faithful := by
  apply first_cases (motive := fun _ _ found => found.Faithful)
  case blank => exact fun c cs _ => faithful_of_some Lexeme.noConfusion rfl
  case leftParen => exact fun cs => faithful_of_none Lexeme.noConfusion rfl
  case rightParen => exact fun cs => faithful_of_none Lexeme.noConfusion rfl
  case quote => exact fun cs => faithful_of_none Lexeme.noConfusion rfl
  case string =>
    intro cs
    have hlexeme : (stringLiteral '"' cs).lexeme = (StringLiteral.scanFrom {} cs).1 := rfl
    rcases StringLiteral.scanFrom_cases {} cs with ⟨text, h⟩ | ⟨detail, h⟩
    · apply faithful_of_none <;> simp [hlexeme, h, Lexeme.verbatim?]
    · apply faithful_of_none <;> simp [hlexeme, h, Lexeme.verbatim?]
  case comment =>
    intro cs
    unfold comment
    dsimp only
    split <;> exact faithful_of_some Lexeme.noConfusion rfl
  case hash =>
    intro cs
    apply faithful_of_none <;> simp only [hash, hashWord] <;> split_ifs <;> simp [Lexeme.verbatim?]
  case dot => exact fun cs _ => faithful_of_none Lexeme.noConfusion rfl
  case illegal => exact fun c cs _ _ _ => faithful_of_none Lexeme.noConfusion rfl
  case word =>
    intro c cs _ _ _
    split_ifs <;> exact faithful_of_some Lexeme.noConfusion rfl

end Found

/-! ## Tokens at their places -/

/-- The tokens of a text that begins at a place. -/
def tokensAt (p : Position) (cs : List Char) : List Token := (TokenStream.scanFrom [] p cs).tokens

namespace TokenStream

theorem scanFrom_append_found (found : List Token) (p : Position) (cs : List Char) :
    (scanFrom found p cs).tokens = found.reverse ++ tokensAt p cs := by
  have h : ∀ found', scanFrom (found' ++ found) p cs =
      ⟨found.reverse ++ (scanFrom found' p cs).tokens, (scanFrom found' p cs).stop⟩ := by
    intro found'
    fun_induction scanFrom found' p cs with
    | case1 found' p => rw [scanFrom, List.reverse_append]
    | case2 found' p c cs next ih =>
      rw [scanFrom, ← ih]
      rfl
  exact congrArg tokens (h [])

end TokenStream

open TokenStream

theorem scanFrom_eq (p : Position) (cs : List Char) : scanFrom [] p cs = ⟨tokensAt p cs, p.after cs⟩ := by
  rw [← stop_scanFrom [] p cs]
  rfl

theorem tokensAt_nil (p : Position) : tokensAt p [] = [] := by
  rw [tokensAt, scanFrom]
  rfl

theorem tokensAt_cons (p : Position) (c : Char) (cs : List Char) :
    tokensAt p (c :: cs) =
      ⟨(Found.first c cs).lexeme, ⟨p, (Found.first c cs).written.length⟩⟩ ::
        tokensAt (p.after (Found.first c cs).written) (Found.first c cs).rest := by
  rw [tokensAt, scanFrom, scanFrom_append_found]
  rfl

/-- A token of a text is the first lexeme behind the characters in front of it. -/
theorem exists_of_mem_tokensAt {p : Position} {cs : List Char} {t : Token} (h : t ∈ tokensAt p cs) :
    ∃ front c w rest, cs = front ++ (c :: w) ++ rest ∧ t.span = ⟨p.after front, w.length + 1⟩ ∧
      Found.first c (w ++ rest) = ⟨t.lexeme, c :: w, rest⟩ := by
  induction p, cs using placed.induct with
  | case1 p =>
    rw [tokensAt_nil] at h
    cases h
  | case2 p c cs ih =>
    have hcs := Found.written_append_rest c cs
    rw [tokensAt_cons, List.mem_cons] at h
    rcases h with rfl | h
    · obtain ⟨w, hw, -⟩ := Found.first_alone c cs
      rw [hw, List.cons_append, List.cons.injEq] at hcs
      refine ⟨[], c, w, (Found.first c cs).rest, ?_, ?_, ?_⟩
      · simp [hcs.2]
      · simp [hw]
      · rw [hcs.2, ← hw]
    · obtain ⟨front, d, w, rest, hrest, hspan, hfirst⟩ := ih h
      refine ⟨(Found.first c cs).written ++ front, d, w, rest, ?_, ?_, hfirst⟩
      · rw [← hcs, hrest]
        simp
      · rw [hspan, Position.after_append]

/-- **Cutting between tokens.** Tokens of a text, and those behind them, are the tokens of the text up to some
place and of what follows it. -/
theorem exists_tokensAt_append {p : Position} {cs : List Char} {taken rest : List Token}
    (h : tokensAt p cs = taken ++ rest) :
    ∃ used remaining, cs = used ++ remaining ∧ tokensAt p used = taken ∧
      tokensAt (p.after used) remaining = rest := by
  induction taken generalizing p cs with
  | nil => exact ⟨[], cs, rfl, tokensAt_nil p, h⟩
  | cons t taken ih =>
    cases cs with
    | nil =>
      rw [tokensAt_nil] at h
      cases h
    | cons c cs =>
      rw [tokensAt_cons, List.cons_append, List.cons.injEq] at h
      obtain ⟨used, remaining, hrest, htaken, hremaining⟩ := ih h.2
      have hcs := Found.written_append_rest c cs
      obtain ⟨w, hw, hfixed⟩ := Found.first_fixed c cs
      have hfirst := hfixed used remaining hrest
      refine ⟨(Found.first c cs).written ++ used, remaining, ?_, ?_, ?_⟩
      · rw [List.append_assoc, ← hrest, hcs]
      · rw [hw, List.cons_append, tokensAt_cons, hfirst, ← h.1, ← htaken, hw]
      · rw [Position.after_append]
        exact hremaining

/-! ## Lines and columns -/

/-- The column counts the characters since the last line feed. -/
theorem Position.column_after (cs : List Char) :
    (({} : Position).after cs).column = 1 + (cs.reverse.takeWhile (· != '\n')).length := by
  induction cs using List.reverseRecOn with
  | nil => rfl
  | append_singleton cs c ih =>
    rw [after_append, after_cons, after_nil, advance, List.reverse_append]
    by_cases hc : c = '\n'
    · simp [hc]
    · simp [hc, ih]
      omega

/-! ## One token after the other -/

namespace TokenStream

/-- The tokens of the next `k` pulls. -/
def pulled (s : TokenStream) : Nat → List Token
  | 0 => []
  | k + 1 => s.pull.1 :: s.pull.2.pulled k

/-- The stream after `k` pulls. -/
def skip (s : TokenStream) : Nat → TokenStream
  | 0 => s
  | k + 1 => s.pull.2.skip k

theorem pulled_eq (s : TokenStream) (k : Nat) :
    s.pulled k = s.tokens.take k ++ List.replicate (k - s.tokens.length) s.endToken := by
  induction k generalizing s with
  | zero => simp [pulled]
  | succ k ih =>
    obtain ⟨tokens, stop⟩ := s
    rw [pulled, ih]
    cases tokens with
    | nil => simp [pull, List.replicate_succ]
    | cons t tokens => simp [pull, endToken]

end TokenStream

/-! ## The tiling -/

/-- The characters of a text that a span covers. -/
def Span.slice (text : List Char) (s : Span) : List Char :=
  (text.drop s.start.offset).take s.length

/-- The tokens cover the text: there is one end token behind all others, each token begins where the one
before it ends, and stands where it says. -/
structure Tiles (text : List Char) (tokens : List Token) : Prop where
  length_le : tokens.length ≤ text.length + 1
  start_eq : tokens.head?.map (·.span.start.offset) = some 0
  adjacent : tokens.IsChain fun t t' => t'.span.start.offset = t.span.stop
  ends : ∃ others last, tokens = others ++ [last] ∧ last.lexeme = .endOfText ∧
    last.span.start.offset = text.length ∧ last.span.length = 0 ∧
    ∀ t ∈ others, t.lexeme ≠ .endOfText ∧ 1 ≤ t.span.length
  line_eq : ∀ t ∈ tokens, t.span.start.line = 1 + (text.take t.span.start.offset).count '\n'
  column_eq : ∀ t ∈ tokens, t.span.start.column =
    1 + ((text.take t.span.start.offset).reverse.takeWhile (· != '\n')).length
  verbatim : ∀ t ∈ tokens, ∀ content, t.lexeme.verbatim? = some content →
    content.toList = t.span.slice text
  alone : ∀ t ∈ tokens, t.lexeme ≠ .endOfText →
    (ofString (String.ofList (t.span.slice text))).toList.map Token.lexeme = [t.lexeme, .endOfText]

namespace TokenStream

/-- All tokens of a text that begins at a place, the end token included. -/
theorem toList_scanFrom (p : Position) (cs : List Char) :
    (scanFrom [] p cs).toList = tokensAt p cs ++ [⟨.endOfText, ⟨p.after cs, 0⟩⟩] := by
  rw [scanFrom_eq]
  rfl

theorem toList_scanFrom_cons (p : Position) (c : Char) (cs : List Char) :
    (scanFrom [] p (c :: cs)).toList =
      ⟨(Found.first c cs).lexeme, ⟨p, (Found.first c cs).written.length⟩⟩ ::
        (scanFrom [] (p.after (Found.first c cs).written) (Found.first c cs).rest).toList := by
  rw [toList_scanFrom, tokensAt_cons, toList_scanFrom, ← Position.after_append,
    Found.written_append_rest]
  rfl

theorem head?_toList (p : Position) (cs : List Char) :
    (scanFrom [] p cs).toList.head?.map (·.span.start) = some p := by
  cases cs with
  | nil =>
    rw [toList_scanFrom, tokensAt_nil]
    rfl
  | cons c cs =>
    rw [toList_scanFrom_cons]
    rfl

/-- Each token begins where the one before it ends. -/
theorem isChain_toList (p : Position) (cs : List Char) :
    (scanFrom [] p cs).toList.IsChain fun t t' => t'.span.start.offset = t.span.stop := by
  induction p, cs using placed.induct with
  | case1 p =>
    rw [toList_scanFrom, tokensAt_nil]
    exact List.isChain_singleton _
  | case2 p c cs ih =>
    rw [toList_scanFrom_cons, List.isChain_cons]
    refine ⟨?_, ih⟩
    intro t ht
    have hhead := head?_toList (p.after (Found.first c cs).written) (Found.first c cs).rest
    rw [ht, Option.map_some, Option.some.injEq] at hhead
    rw [hhead, Position.offset_after]
    rfl

end TokenStream

theorem length_tokensAt_le (p : Position) (cs : List Char) : (tokensAt p cs).length ≤ cs.length := by
  induction p, cs using placed.induct with
  | case1 p => simp [tokensAt_nil]
  | case2 p c cs ih =>
    have hle := Found.length_rest_first c cs
    rw [tokensAt_cons, List.length_cons, List.length_cons]
    omega

/-- A token of a text covers the characters that give it. -/
theorem slice_of_mem_tokensAt {cs : List Char} {t : Token} (h : t ∈ tokensAt {} cs) :
    ∃ c w rest, t.span.slice cs = c :: w ∧ Found.first c (w ++ rest) = ⟨t.lexeme, c :: w, rest⟩ := by
  obtain ⟨front, c, w, rest, rfl, hspan, hfirst⟩ := exists_of_mem_tokensAt h
  refine ⟨c, w, rest, ?_, hfirst⟩
  rw [Span.slice, hspan, Position.offset_after]
  simp

/-- A token of a text stands behind the characters in front of it. -/
theorem start_of_mem_toList {cs : List Char} {t : Token} (h : t ∈ (scanFrom [] {} cs).toList) :
    t.span.start = ({} : Position).after (cs.take t.span.start.offset) := by
  rw [toList_scanFrom, List.mem_append, List.mem_singleton] at h
  rcases h with h | rfl
  · obtain ⟨front, c, w, rest, hcs, hspan, -⟩ := exists_of_mem_tokensAt h
    rw [hspan, Position.offset_after, hcs]
    simp
  · rw [Position.offset_after]
    simp

theorem mem_tokensAt_of_mem_toList {cs : List Char} {t : Token} (h : t ∈ (scanFrom [] {} cs).toList)
    (hne : t.lexeme ≠ .endOfText) : t ∈ tokensAt {} cs := by
  rw [toList_scanFrom, List.mem_append, List.mem_singleton] at h
  rcases h with h | rfl
  · exact h
  · exact absurd rfl hne

/-- A token of a text is not the end of it and takes up some of its characters. -/
theorem proper_of_mem_tokensAt {p : Position} {cs : List Char} {t : Token} (h : t ∈ tokensAt p cs) :
    t.lexeme ≠ .endOfText ∧ 1 ≤ t.span.length := by
  obtain ⟨front, c, w, rest, -, hspan, hfirst⟩ := exists_of_mem_tokensAt h
  have hfaithful := (Found.faithful_first c (w ++ rest)).1
  rw [hfirst] at hfaithful
  refine ⟨hfaithful, ?_⟩
  rw [hspan]
  exact Nat.succ_pos _

theorem toList_of_verbatim? {cs : List Char} {t : Token} (h : t ∈ tokensAt {} cs) {content : String}
    (hcontent : t.lexeme.verbatim? = some content) : content.toList = t.span.slice cs := by
  obtain ⟨c, w, rest, hslice, hfirst⟩ := slice_of_mem_tokensAt h
  have hfaithful := (Found.faithful_first c (w ++ rest)).2 content
  rw [hfirst] at hfaithful
  rw [hslice]
  exact hfaithful hcontent

/-- The characters of a token are that token again. -/
theorem lexemes_slice {cs : List Char} {t : Token} (h : t ∈ tokensAt {} cs) :
    (ofString (String.ofList (t.span.slice cs))).toList.map Token.lexeme = [t.lexeme, .endOfText] := by
  obtain ⟨c, w, rest, hslice, hfirst⟩ := slice_of_mem_tokensAt h
  obtain ⟨w', hw, halone⟩ := Found.first_alone c (w ++ rest)
  rw [hfirst] at hw halone
  cases hw
  rw [ofString, String.toList_ofList, hslice, toList_scanFrom_cons, halone, toList_scanFrom, tokensAt_nil]
  rfl

theorem tiles_ofString (text : String) : Tiles text.toList (ofString text).toList := by
  have hlist : (ofString text).toList = _ := toList_scanFrom {} text.toList
  refine ⟨?_, ?_, isChain_toList {} text.toList, ?_, ?_, ?_, ?_, ?_⟩
  · have hle := length_tokensAt_le {} text.toList
    rw [hlist, List.length_append, List.length_singleton]
    omega
  · have hhead := congrArg (Option.map Position.offset) (head?_toList {} text.toList)
    rwa [Option.map_map] at hhead
  · refine ⟨_, _, hlist, rfl, ?_, rfl, fun t ht => proper_of_mem_tokensAt ht⟩
    rw [Position.offset_after]
    simp
  · intro t ht
    have hline := Position.line_after {} (text.toList.take t.span.start.offset)
    rwa [← start_of_mem_toList ht] at hline
  · intro t ht
    have hcolumn := Position.column_after (text.toList.take t.span.start.offset)
    rwa [← start_of_mem_toList ht] at hcolumn
  · intro t ht content hcontent
    have hne : t.lexeme ≠ .endOfText := by
      intro hend
      rw [hend] at hcontent
      cases hcontent
    exact toList_of_verbatim? (mem_tokensAt_of_mem_toList ht hne) hcontent
  · intro t ht hne
    exact lexemes_slice (mem_tokensAt_of_mem_toList ht hne)

/-- **Tokens tile the text.** The tokens of a text cover it, and each stands where it says, carries the
text it was written as, and is the same token on its own. These are the tokens that are given one after the
other; whoever goes on asking gets the end token each time. -/
theorem tokens_tile_text (text : String) :
    Tiles text.toList (ofString text).toList ∧
      ∀ k, (ofString text).pulled ((ofString text).toList.length + k) =
        (ofString text).toList ++ List.replicate k (ofString text).endToken := by
  refine ⟨tiles_ofString text, ?_⟩
  intro k
  have hlength : (ofString text).toList.length = (ofString text).tokens.length + 1 := by
    simp [toList]
  rw [pulled_eq, hlength, List.take_of_length_le (by omega),
    show (ofString text).tokens.length + 1 + k - (ofString text).tokens.length = k + 1 by omega,
    List.replicate_succ, toList, List.append_assoc]
  rfl

end SmallScheme
