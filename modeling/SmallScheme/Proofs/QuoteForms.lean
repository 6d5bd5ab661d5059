import SmallScheme.Proofs.Lines
import SmallScheme.Proofs.Nesting
import SmallScheme.Proofs.RoundTrip
import SmallScheme.Session

/-!
# The two forms of a quote

`quote_forms_agree`: an apostrophe in front of a text and the long form around it are read alike, and
evaluating what was read gives the quoted value back.

1. A text that can be read ends within no string literal, so its lexemes stay what they are between other
   characters (`lexemesOf_newline`); both forms have them inside.
2. Both forms add one level of nesting (`nesting_apostrophe`, `nesting_longForm`), so both stay within the
   limit or neither does.
3. Evaluation goes by the symbol in front, not by what it is bound to (`Session.eval_quote`).
-/

namespace SmallScheme

open Text TokenStream

/-! ## Lexemes -/

theorem Derives.illegal_not_mem {n : Nat} {ls : List Lexeme} {φ : Phrase} (h : Derives n ls φ)
    (detail : String) : .illegal detail ∉ ls := by
  induction h <;> simp_all

/-- What derives one datum as data derives it. -/
theorem Derives.of_data {n : Nat} {ls : List Lexeme} {d : Datum} (h : Derives n ls (.data [d])) :
    Derives n ls (.datum d) := by
  cases h with
  | more hd hnone =>
    cases hnone
    rwa [List.append_nil]

/-- A line break behind a text without illegal lexemes separates it from what follows. -/
theorem lexemesOf_newline {cs : List Char} (h : ∀ detail, .illegal detail ∉ lexemesOf cs)
    (more : List Char) : lexemesOf (cs ++ '\n' :: more) = lexemesOf cs ++ lexemesOf more := by
  rw [← map_lexeme_placed {} cs] at h
  rcases placed_newline {} cs more with heq | ⟨ts, t, ⟨detail, hdetail⟩, hcs, -⟩
  · rw [← map_lexeme_placed {}, heq, List.map_append, map_lexeme_placed, map_lexeme_placed]
  · refine absurd ?_ (h (unterminatedString ++ detail))
    rw [hcs, List.map_append, ← hdetail]
    simp

theorem lexemesOf_apostrophe (cs : List Char) : lexemesOf ('\x27' :: cs) = .quote :: lexemesOf cs :=
  lexemesOf_of_first rfl rfl

/-- The long form of a quote around a text. -/
def longForm (text : String) : String := "(quote " ++ text ++ "\n)"

theorem lexemesOf_longForm {text : String} (h : ∀ detail, .illegal detail ∉ lexemesOf text.toList) :
    lexemesOf (longForm text).toList =
      .leftParen :: (.symbol "quote" :: lexemesOf text.toList ++ [.rightParen]) := by
  have hword : IsWord 'q' "uote".toList := ⟨List.all_eq_true.mp rfl, by decide, by decide⟩
  have hsymbol := lexemesOf_symbol hword rfl (delimited_cons (c := ' ') rfl (text.toList ++ ['\n', ')']))
  have hend : lexemesOf [')'] = [.rightParen] := by rw [lexemesOf_rightParen, lexemesOf_nil]
  rw [lexemesOf_blank rfl, lexemesOf_newline h, hend] at hsymbol
  have htext : (longForm text).toList =
      '(' :: ('q' :: "uote".toList ++ ' ' :: (text.toList ++ ['\n', ')'])) := by
    simp [longForm]
  rw [htext, lexemesOf_leftParen, hsymbol]
  rfl

/-! ## Nesting -/

section Forms

variable {n : Nat} {ls : List Lexeme} {d : Datum}

theorem Derives.longForm (h : Derives n ls (.datum d)) :
    Derives (n + 1) (.leftParen :: (.symbol "quote" :: ls ++ [.rightParen])) (.datum d.quote) := by
  have hlist := (Derives.symbol "quote").more (h.more .none)
  rw [List.append_nil, List.singleton_append] at hlist
  rw [Datum.quote_eq]
  exact .list hlist

/-- An apostrophe adds one level. -/
theorem nesting_apostrophe (h : Derives n ls (.datum d)) :
    sourceNesting (.quote :: ls) = sourceNesting ls + 1 := by
  have hinside := h.nesting_spec.2.2 [.quote] [] trivial
  rw [List.append_nil] at hinside
  rw [sourceNesting, nestingFrom, Lexeme.openings, hinside]
  simp [settle, nestingFrom]
  omega

/-- The long form adds one level. -/
theorem nesting_longForm (h : Derives n ls (.datum d)) :
    sourceNesting (.leftParen :: (.symbol "quote" :: ls ++ [.rightParen])) = sourceNesting ls + 1 := by
  have hinside := h.nesting_spec.2.2 [.list] [.rightParen] trivial
  rw [sourceNesting, nestingFrom, Lexeme.openings, List.cons_append, nestingFrom, Lexeme.openings]
  show max _ (max _ (nestingFrom [.list] (ls ++ [.rightParen]))) = _
  rw [hinside]
  simp [settle, nestingFrom, Lexeme.openings]
  omega

end Forms

/-! ## Values -/

/-- A datum that can be read is equal to itself part by part. -/
theorem Datum.same_self {d : Datum} (h : ∀ a ∈ d.atoms, a.Readable) : same d d = true := by
  induction d with
  | atom a =>
    have ha := h a (List.mem_singleton_self a)
    cases a with
    | symbol s => exact beq_self_eq_true s
    | number x => exact (Decimal.beq_self_iff x).mpr ha
    | string text => exact beq_self_eq_true text
    | boolean value => exact beq_self_eq_true value
  | nil => rfl
  | pair label head tail ihHead ihTail =>
    rw [same, ihHead fun a ha => h a (List.mem_append_left _ ha),
      ihTail fun a ha => h a (List.mem_append_right _ ha)]
    rfl

/-- A quote is evaluated to what it quotes, whatever its symbol is bound to, and the store stays as it is. -/
theorem Session.eval_quote (fuel : Nat) (s : Session) (label label' : Label) (v : Value) (frame : FrameId) :
    ∃ journal, s.eval (fuel + 2) (.pair label (Value.symbol ⟨"QUOTE"⟩) (.pair label' v .nil)) frame =
      (.value v, ⟨s.store, journal⟩) :=
  ⟨_, rfl⟩

/-- A quoted datum as a value: the symbol and what is quoted, within two pairs of their own. -/
theorem Store.embed_quote (st : Store) (d : Datum) :
    st.embed d.quote =
      (.pair st.nextLabel (Value.symbol ⟨"QUOTE"⟩)
        (.pair (st.nextLabel + 1) (d.embed (st.nextLabel + 2)).1 .nil),
        { st with nextLabel := (d.embed (st.nextLabel + 2)).2 }) := by
  rw [Store.embed, Datum.embed_eq, Datum.embed_eq]
  rfl

/-- **Both forms of a quote.** Let a text be read as one datum. Unless it is nested as deep as is allowed, an
apostrophe in front of it and the long form around it are read as one datum, the list of the symbol and the
datum. Read one after the other, these are equal values, and evaluating one in any frame of any session gives
the quoted value itself and leaves all frames as they are. If the text is nested as deep as is allowed, both
forms go too deep. -/
theorem quote_forms_agree {text : String} {d : Datum} (h : readAll text = .ok [d]) :
    (sourceNesting (lexemesOf text.toList) < maxNesting ∧
      readAll ("'" ++ text) = .ok [.cons (.symbol ⟨"QUOTE"⟩) (.cons d .nil)] ∧
      readAll (longForm text) = .ok [.cons (.symbol ⟨"QUOTE"⟩) (.cons d .nil)] ∧
      (∀ next, (d.quote.embed (d.quote.embed next).2).1.equal (d.quote.embed next).1 = true) ∧
      ∀ (s : Session) (frame : FrameId) (fuel : Nat), 2 ≤ fuel → ∃ label label' v s',
        s.store.embed d.quote = (.pair label (Value.symbol ⟨"QUOTE"⟩) (.pair label' v .nil), s'.store) ∧
        v = (d.embed (label' + 1)).1 ∧ s.evalDatum fuel d.quote frame = (.value v, s') ∧
        s'.store.frames = s.store.frames) ∨
    (sourceNesting (lexemesOf text.toList) = maxNesting ∧
      (∃ span, readAll ("'" ++ text) = .error ⟨.nestingTooDeep maxNesting, some span⟩) ∧
      ∃ span, readAll (longForm text) = .error ⟨.nestingTooDeep maxNesting, some span⟩) := by
  have hd : Derives maxNesting (lexemesOf text.toList) (.datum d) := by
    rw [← lexemes_ofString]
    exact (derives_of_readData h).of_data
  have hshort : lexemesOf ("'" ++ text).toList = .quote :: lexemesOf text.toList := by
    rw [String.toList_append]
    exact lexemesOf_apostrophe text.toList
  have hlong := lexemesOf_longForm hd.illegal_not_mem
  have hreadShort := @readAll_of_datum _ ("'" ++ text) d.quote (by rw [hshort, Datum.quote_eq]; exact hd.quote)
  have hreadLong := @readAll_of_datum _ (longForm text) d.quote (by rw [hlong]; exact hd.longForm)
  rw [hshort, nesting_apostrophe hd] at hreadShort
  rw [hlong, nesting_longForm hd] at hreadLong
  rcases Nat.lt_or_eq_of_le hd.nesting_le with hlt | heq
  · refine .inl ⟨hlt, hreadShort.1 hlt, hreadLong.1 hlt, ?_, ?_⟩
    · intro next
      rw [Datum.equal_embed]
      have hread : readAll ("'" ++ text) = .ok [d.quote] := hreadShort.1 hlt
      exact Datum.same_self (delivers_of_readData hread _ List.mem_cons_self).readable.atoms
    · intro s frame fuel hfuel
      obtain ⟨fuel, rfl⟩ := Nat.exists_eq_add_of_le' hfuel
      have hembed := s.store.embed_quote d
      obtain ⟨journal, heval⟩ := Session.eval_quote fuel ⟨_, s.journal⟩ _ _ _ frame
      refine ⟨_, _, _, ⟨_, journal⟩, hembed, rfl, ?_, rfl⟩
      rw [Session.evalDatum, hembed]
      exact heval
  · refine .inr ⟨heq, hreadShort.2 ?_, hreadLong.2 ?_⟩
    · omega
    · omega

theorem lexemesOf_quotedComment : lexemesOf "'a ; (".toList = [.quote, .symbol "a"] := by
  rw [← lexemes_ofString]
  decide +kernel

/-- The text is a quote itself and ends in a comment, and the symbol is bound where the quote is evaluated. -/
theorem quotedComment_quoted :
    readAll ("'" ++ "'a ; (") = .ok [(Datum.symbol ⟨"A"⟩).quote.quote] ∧
      readAll (longForm "'a ; (") = .ok [(Datum.symbol ⟨"A"⟩).quote.quote] ∧
      ∃ v s', Session.evalDatum 2 ⟨Store.initial.bind 0 ⟨"QUOTE"⟩ .nil, .initial .off⟩
        (Datum.symbol ⟨"A"⟩).quote.quote 0 = (.value v, s') := by
  have hread : readAll "'a ; (" = .ok [(Datum.symbol ⟨"A"⟩).quote] := by
    refine readAll_of_derives ?_
    rw [lexemesOf_quotedComment]
    exact (Derives.quote (.symbol "a")).more .none
  have hnesting : sourceNesting [.quote, .symbol "a"] < maxNesting := by decide
  rcases quote_forms_agree hread with ⟨-, hshort, hlong, -, heval⟩ | ⟨heq, -⟩
  · obtain ⟨_, _, v, s', -, -, hvalue, -⟩ :=
      heval ⟨Store.initial.bind 0 ⟨"QUOTE"⟩ .nil, .initial .off⟩ 0 2 (Nat.le_refl 2)
    exact ⟨hshort, hlong, v, s', hvalue⟩
  · rw [lexemesOf_quotedComment] at heq
    exact absurd heq hnesting.ne

end SmallScheme
