import SmallScheme.Proofs.Lexing

/-!
# Texts that go on in another line

`readAt_newline`: what reading the beginning of a text, up to the end of a line, tells about the whole.

1. A lexeme that ends within a line does not depend on the lines that follow, and no lexeme but a string
   literal goes beyond the end of a line. So the tokens of two parts are those of the whole, unless a
   literal is open at the end of the first (`placed_newline`).
2. The reader takes tokens one by one, so what it does with the first of them is settled before it sees
   the others: they are complete, or the beginning of something, or they fail
   (`TokenStream.readData_append`).
-/

namespace SmallScheme

open Text

/-! ## Lexemes that do not depend on what follows -/

namespace StringLiteral

/-- An escape that is complete does not depend on what follows. -/
theorem escaped?_append {cs written rest : List Char} {e : Element}
    (h : escaped? cs = some (e, written, rest)) (more : List Char) :
    escaped? (cs ++ more) = some (e, written, rest ++ more) := by
  unfold escaped? at h
  split at h
  · cases h
  · cases h
    rfl
  · cases h
  · next cs =>
    dsimp only at h
    split at h
    · cases h
    · next close rest' heq =>
      cases h
      have hne : cs.dropWhile (· != '\x7d') ≠ [] := by
        rw [heq]
        exact List.cons_ne_nil _ _
      obtain ⟨htake, hdrop⟩ := takeWhile_dropWhile_append cs more (.inl hne)
      rw [List.cons_append, escaped?]
      dsimp only
      rw [htake, hdrop, heq]
      rfl
  · next c rest hx hx' hbrace =>
    cases h
    exact escaped?_of_ne (fun hc => hx' hc) (fun hc => hbrace hc) (rest ++ more)

theorem element?_append {cs written rest : List Char} {e : Element}
    (h : element? cs = some (e, written, rest)) (more : List Char) :
    element? (cs ++ more) = some (e, written, rest ++ more) := by
  unfold element? at h
  split at h
  · cases h
  · next cs =>
    obtain ⟨⟨e', written', rest'⟩, hescaped, heq⟩ := Option.map_eq_some_iff.mp h
    cases heq
    rw [List.cons_append, element?, escaped?_append hescaped]
    rfl
  · next c rest hback =>
    cases h
    exact element?_of_ne hback (rest ++ more)

/-- The lexeme of a literal that was cut off. -/
def IsCut (l : Lexeme) : Prop := ∃ detail, l = .illegal (unterminatedString ++ detail)

/-- A literal is closed wherever it was closed before, or else it was cut off. -/
theorem scanFrom_append (p : Progress) (cs more : List Char) :
    (IsCut (scanFrom p cs).1 ∧ (scanFrom p cs).2.2 = []) ∨
      (scanFrom p (cs ++ more)).1 = (scanFrom p cs).1 ∧
        (scanFrom p (cs ++ more)).2.2 = (scanFrom p cs).2.2 ++ more := by
  fun_induction scanFrom p cs with
  | case1 p rest =>
    rw [List.cons_append, scanFrom_quote]
    exact .inr ⟨rfl, rfl⟩
  | case2 p cs hquote e written rest helement _ ih =>
    cases cs with
    | nil => cases helement
    | cons c cs =>
      have happend := element?_append helement more
      rw [List.cons_append] at happend ⊢
      rw [scanFrom_element (fun hc => hquote cs (by rw [hc])) happend]
      exact ih
  | case3 p cs =>
    exact .inl ⟨⟨_, congrArg Lexeme.illegal (String.append_assoc ..)⟩, rfl⟩

end StringLiteral

theorem delimited_newline (cs : List Char) : Delimited ('\n' :: cs) := rfl

/-- A lexeme at the front of a text is the same at the front of a longer text, and the rest of the longer
text is longer by the same characters. -/
def Found.Extends (more : List Char) (found found' : Found) : Prop :=
  found'.lexeme = found.lexeme ∧ found'.rest = found.rest ++ more

theorem Found.word_extends (c : Char) (cs : List Char) {more : List Char} (h : Delimited more) :
    (word c cs).Extends more (word c (cs ++ more)) := by
  obtain ⟨htake, hdrop⟩ := takeWhile_dropWhile_append cs more (.inr h)
  have hhead : (cs ++ more).head?.any isWordChar = cs.head?.any isWordChar := by
    cases cs with
    | nil => exact h
    | cons d cs => rfl
  unfold word run
  rw [hhead, startsNumber_append c cs h, htake, hdrop]
  split_ifs <;> exact ⟨rfl, rfl⟩

theorem Found.hash_extends (c : Char) (cs : List Char) {more : List Char} (h : Delimited more) :
    (hash c cs).Extends more (hash c (cs ++ more)) := by
  obtain ⟨htake, hdrop⟩ := takeWhile_dropWhile_append cs more (.inr h)
  unfold hash
  rw [htake, hdrop]
  exact ⟨rfl, rfl⟩

theorem Found.first_extends {c : Char} (hblank : ¬isBlank c = true) (hcomment : c ≠ ';')
    (hquote : c ≠ '"') (cs : List Char) {more : List Char} (h : Delimited more) :
    (first c cs).Extends more (first c (cs ++ more)) := by
  unfold first
  rw [if_neg hblank, if_neg hblank]
  split
  · exact ⟨rfl, rfl⟩
  · exact ⟨rfl, rfl⟩
  · exact ⟨rfl, rfl⟩
  · exact absurd rfl hquote
  · exact absurd rfl hcomment
  · exact hash_extends '#' cs h
  · exact word_extends c cs h

/-! ## The end of a line -/

/-- A lexeme that does not depend on what follows takes up the same characters. -/
theorem Found.Extends.written_eq {c : Char} {cs more : List Char}
    (h : (first c cs).Extends more (first c (cs ++ more))) :
    (first c (cs ++ more)).written = (first c cs).written := by
  have hlong := written_append_rest c (cs ++ more)
  rw [h.2, ← List.append_assoc, ← List.cons_append, ← written_append_rest c cs] at hlong
  exact List.append_cancel_right (List.append_cancel_right hlong)

/-- The tokens of a text that goes on in another line are those of the two parts, unless a string literal is
open at the end of the first. -/
def Separates (p : Position) (cs more : List Char) : Prop :=
  placed p (cs ++ '\n' :: more) = placed p cs ++ placed (p.after (cs ++ ['\n'])) more ∨
    ∃ ts t, StringLiteral.IsCut t.lexeme ∧ placed p cs = ts ++ [t] ∧
      ∃ others, placed p (cs ++ '\n' :: more) = ts ++ others

/-- Characters in front that give the same tokens with and without the other line may be left out. -/
theorem Separates.of_front {p : Position} {cs more front rest : List Char} {ts : List Token}
    (hcs : front ++ rest = cs) (hshort : placed p cs = ts ++ placed (p.after front) rest)
    (hlong : placed p (cs ++ '\n' :: more) = ts ++ placed (p.after front) (rest ++ '\n' :: more))
    (h : Separates (p.after front) rest more) : Separates p cs more := by
  rcases h with heq | ⟨ts', t, hcut, hts', others, hothers⟩
  · left
    rw [hlong, heq, hshort, List.append_assoc, ← Position.after_append, ← List.append_assoc front, hcs]
  · right
    refine ⟨ts ++ ts', t, hcut, ?_, others, ?_⟩
    · rw [hshort, hts', List.append_assoc]
    · rw [hlong, hothers, List.append_assoc]

theorem placed_newline (p : Position) (cs more : List Char) : Separates p cs more := by
  induction hn : cs.length using Nat.strongRecOn generalizing p cs with
  | ind n ih =>
  cases cs with
  | nil =>
    left
    rw [placed_nil]
    exact placed_blank rfl p more
  | cons c cs =>
    rw [List.length_cons] at hn
    by_cases hblank : isBlank c = true
    · have hshort : placed p (c :: cs) = [] ++ placed (p.after [c]) cs := placed_blank hblank p cs
      exact .of_front rfl hshort (placed_blank hblank p (cs ++ '\n' :: more))
        (ih cs.length (by omega) _ cs rfl)
    by_cases hcomment : c = ';'
    · subst hcomment
      obtain ⟨htake, hdrop⟩ := takeWhile_dropWhile_append (p := (· != '\n')) cs ('\n' :: more) (.inr rfl)
      have hle := (List.dropWhile_sublist (p := (· != '\n')) (l := cs)).length_le
      have hlong : placed p (';' :: cs ++ '\n' :: more) =
          [] ++ placed (p.after (';' :: cs.takeWhile (· != '\n')))
            (cs.dropWhile (· != '\n') ++ '\n' :: more) := by
        rw [List.cons_append, placed_comment, htake, hdrop]
        rfl
      refine .of_front ?_ (placed_comment p cs) hlong (ih _ (by omega) _ _ rfl)
      rw [List.cons_append, List.takeWhile_append_dropWhile]
    -- all other lexemes end before the line does, except a string literal that is open
    have hfound : (StringLiteral.IsCut (Found.first c cs).lexeme ∧ (Found.first c cs).rest = []) ∨
        (Found.first c cs).Extends ('\n' :: more) (Found.first c (cs ++ '\n' :: more)) := by
      by_cases hquote : c = '"'
      · subst hquote
        exact StringLiteral.scanFrom_append {} cs ('\n' :: more)
      · exact .inr (Found.first_extends hblank hcomment hquote cs (delimited_newline more))
    rcases hfound with ⟨hcut, hrest⟩ | hextends
    · right
      refine ⟨[], ⟨(Found.first c cs).lexeme, p, (Found.first c cs).written.length⟩, hcut, ?_, _, rfl⟩
      obtain ⟨detail, hdetail⟩ := hcut
      rw [placed_cons, hrest, placed_nil, Found.tokenAt, hdetail]
      rfl
    · have hle := Found.length_rest_first c cs
      refine .of_front (Found.written_append_rest c cs) (placed_cons p c cs) ?_ (ih _ (by omega) _ _ rfl)
      rw [List.cons_append, placed_cons, Found.tokenAt, hextends.1, hextends.written_eq, hextends.2]
      rfl

/-! ## Reading what goes on -/

namespace TokenStream

/-- Reading some tokens and then others: either the contexts that are open after the first decide, or the
first tokens settle the result. -/
theorem readFrom_append (contexts : List Context) (tokens : List Token) :
    (∃ contexts', ∀ stop more,
      readFrom stop contexts (tokens ++ more) = readFrom stop contexts' more) ∨
    (∃ d rest, ∀ stop more, readFrom stop contexts (tokens ++ more) = (.datum d, rest ++ more)) ∨
    ∃ e rest, ∀ stop more, readFrom stop contexts (tokens ++ more) = (.failed e, rest ++ more) := by
  induction tokens generalizing contexts with
  | nil => exact .inl ⟨contexts, fun stop more => rfl⟩
  | cons t tokens ih =>
    simp only [List.cons_append, readFrom_cons]
    cases Reading.next contexts t with
    | pending contexts' => exact ih contexts'
    | complete d => exact .inr (.inl ⟨d, tokens, fun stop more => rfl⟩)
    | failed e => exact .inr (.inr ⟨e, tokens, fun stop more => rfl⟩)

/-- All data of tokens that are read within open contexts, or the first failure. -/
def readDataFrom (stop : Position) (contexts : List Context) (tokens : List Token) :
    Except Error (List Datum) :=
  match readFrom stop contexts tokens with
  | (.datum d, rest) => (readData ⟨rest, stop⟩).map (d :: ·)
  | (.exhausted, _) => .ok []
  | (.failed e, _) => .error e

theorem readData_eq_from (stop : Position) (tokens : List Token) :
    readData ⟨tokens, stop⟩ = readDataFrom stop [] tokens :=
  readData_eq ⟨tokens, stop⟩

/-- All data of some tokens and then others: either those of the first come first and the rest is decided
by the contexts still open, or the first tokens fail. -/
theorem readData_append (tokens : List Token) :
    (∃ ds contexts, ∀ stop more,
      readData ⟨tokens ++ more, stop⟩ = (readDataFrom stop contexts more).map (ds ++ ·)) ∨
    ∃ e, ∀ stop more, readData ⟨tokens ++ more, stop⟩ = .error e := by
  induction hn : tokens.length using Nat.strongRecOn generalizing tokens with
  | ind n ih =>
  rcases readFrom_append [] tokens with ⟨contexts, h⟩ | ⟨d, rest, h⟩ | ⟨e, rest, h⟩
  · refine .inl ⟨[], contexts, ?_⟩
    intro stop more
    have hdata : readData ⟨tokens ++ more, stop⟩ = readDataFrom stop contexts more := by
      rw [readData_eq_from, readDataFrom, h]
      rfl
    rw [hdata]
    cases readDataFrom stop contexts more <;> rfl
  · have hlt : rest.length < tokens.length := by
      have := length_readFrom (h {} [])
      rwa [List.append_nil, List.append_nil] at this
    have hdata (stop : Position) (more : List Token) :
        readData ⟨tokens ++ more, stop⟩ = (readData ⟨rest ++ more, stop⟩).map (d :: ·) := by
      rw [readData_eq, h]
    rcases ih rest.length (hn ▸ hlt) rest rfl with ⟨ds, contexts, hrest⟩ | ⟨e, hrest⟩
    · refine .inl ⟨d :: ds, contexts, ?_⟩
      intro stop more
      rw [hdata, hrest]
      cases readDataFrom stop contexts more <;> rfl
    · refine .inr ⟨e, ?_⟩
      intro stop more
      rw [hdata, hrest]
      rfl
  · refine .inr ⟨e, ?_⟩
    intro stop more
    rw [readData_eq, h]

end TokenStream

open TokenStream

theorem readLexemes_nil : readLexemes [] = .ok [] := by
  rw [readLexemes, List.map_nil, readData_eq_from]
  rfl

/-- More text could still complete an input that fails so. -/
def Fault.IsIncomplete (fault : Fault) : Prop := (⟨fault, none⟩ : Error).isIncomplete = true

theorem isIncomplete_unterminated (detail : String) :
    (Fault.lexical (unterminatedString ++ detail)).IsIncomplete := by
  show unterminatedString.toList.isPrefixOf (unterminatedString ++ detail).toList = true
  rw [List.isPrefixOf_iff_prefix, String.toList_append]
  exact List.prefix_append _ _

/-- A token that is illegal is a failure within any contexts. -/
theorem readDataFrom_illegal (stop : Position) (contexts : List Context) {detail : String} {t : Token}
    (h : t.lexeme = .illegal detail) :
    readDataFrom stop contexts [t] = .error ⟨.lexical detail, some t.span⟩ := by
  obtain ⟨_, span⟩ := t
  subst h
  rfl

/-- **A text that goes on in another line.** Read on its own, either it awaits more, or its data come first
when it goes on, or it fails and fails in the same way when it goes on. -/
theorem readAt_newline (p : Position) (cs more : List Char) :
    (∃ e : Error, e.isIncomplete = true ∧ readAt p cs = .error e) ∨
    (∃ ds, readAt p cs = .ok ds ∧ readAt p (cs ++ '\n' :: more) =
      (readAt (p.after (cs ++ ['\n'])) more).map (ds ++ ·)) ∨
    ∃ e, readAt p cs = .error e ∧ readAt p (cs ++ '\n' :: more) = .error e := by
  have hstop : (p.after (cs ++ ['\n'])).after more = p.after (cs ++ '\n' :: more) := by
    rw [← Position.after_append, List.append_assoc]
    rfl
  unfold readAt
  rw [hstop]
  rcases placed_newline p cs more with heq | ⟨ts, t, ⟨detail, hdetail⟩, hcs, others, hothers⟩
  · rw [heq]
    rcases readData_append (placed p cs) with ⟨ds, contexts, h⟩ | ⟨e, h⟩
    · have hnil := h (p.after cs) []
      rw [List.append_nil] at hnil
      rw [hnil, h]
      cases contexts with
      | nil =>
        refine .inr (.inl ⟨ds, ?_, ?_⟩)
        · exact congrArg Except.ok (List.append_nil ds)
        · rw [readData_eq_from]
      | cons context outer => exact .inl ⟨⟨.endOfInput, some ⟨p.after cs, 0⟩⟩, rfl, rfl⟩
    · refine .inr (.inr ⟨e, ?_, h _ _⟩)
      have hnil := h (p.after cs) []
      rwa [List.append_nil] at hnil
  · rw [hcs, hothers]
    -- the literal that was cut off is met only if nothing fails before it
    rcases readData_append ts with ⟨ds, contexts, h⟩ | ⟨e, h⟩
    · refine .inl ⟨⟨.lexical (unterminatedString ++ detail), some t.span⟩,
        isIncomplete_unterminated detail, ?_⟩
      rw [h, readDataFrom_illegal _ _ hdetail]
      rfl
    · exact .inr (.inr ⟨e, h _ _, h _ _⟩)

/-- The same for the lexemes of a text. -/
theorem readLexemes_newline (cs more : List Char) :
    (∃ fault : Fault, fault.IsIncomplete ∧ readLexemes (lexemesOf cs) = .error fault) ∨
    (∃ ds, readLexemes (lexemesOf cs) = .ok ds ∧
      readLexemes (lexemesOf (cs ++ '\n' :: more)) = (readLexemes (lexemesOf more)).map (ds ++ ·)) ∨
    ∃ fault, readLexemes (lexemesOf cs) = .error fault ∧
      readLexemes (lexemesOf (cs ++ '\n' :: more)) = .error fault := by
  rw [← readAt_fault {} cs, ← readAt_fault {} (cs ++ '\n' :: more),
    ← readAt_fault (Position.after {} (cs ++ ['\n'])) more]
  rcases readAt_newline {} cs more with ⟨e, he, h⟩ | ⟨ds, h, hjoined⟩ | ⟨e, h, hjoined⟩
  · exact .inl ⟨e.fault, he, by rw [h]; rfl⟩
  · refine .inr (.inl ⟨ds, by rw [h]; rfl, ?_⟩)
    rw [hjoined]
    cases readAt (Position.after {} (cs ++ ['\n'])) more <;> rfl
  · exact .inr (.inr ⟨e.fault, by rw [h]; rfl, by rw [hjoined]; rfl⟩)

end SmallScheme
