import SmallScheme.Proofs.OpenTokens

/-!
# Where reading fails

`failures_point_at_tokens`: a failure of reading has the place of a token of the text, that token is to blame
for it, and the text in front of the token is nothing that fails for good.

The first part is what the account of the open contexts says of the whole text (`OpenedBy.accused`). For the
second, the tokens of the text in front of a token are those before it (`exists_tokensAt_append`), and these
were read without failure (`OpenedBy.readDataFrom`).
-/

namespace SmallScheme

open TokenStream

/-- Reading this text succeeds, or could still do so if more followed. -/
def MayGoOn (text : String) : Prop :=
  (∃ ds, readAll text = .ok ds) ∨ ∃ e, readAll text = .error e ∧ e.isIncomplete = true

theorem readAll_eq_readDataFrom (text : String) :
    readAll text = TokenStream.readDataFrom (({} : Position).after text.toList) [] (tokensAt {} text.toList) := by
  rw [readAll_eq_readAt, readAt_eq_readDataFrom]

/-- Tokens that lead into open contexts are those of a text that may go on. -/
theorem OpenedBy.mayGoOn {contexts : List Context} {cs : List Char}
    (h : OpenedBy contexts (tokensAt {} cs)) : MayGoOn (String.ofList cs) := by
  obtain ⟨ds, hread⟩ := h.readDataFrom
  have hcs := hread (({} : Position).after cs) []
  rw [List.append_nil] at hcs
  unfold MayGoOn
  rw [readAll_eq_readDataFrom, String.toList_ofList, hcs]
  cases contexts with
  | nil => exact .inl ⟨_, rfl⟩
  | cons context outer => exact .inr ⟨_, rfl, rfl⟩

/-- The characters in front of a token of a text. -/
theorem take_start {cs front rest : List Char} {t : Token} {used : List Token} (hcs : cs = front ++ rest)
    (h : tokensAt (({} : Position).after front) rest = t :: used) :
    cs.take t.span.start.offset = front := by
  cases rest with
  | nil =>
    rw [tokensAt_nil] at h
    cases h
  | cons c rest =>
    rw [tokensAt_cons] at h
    cases h
    rw [Position.offset_after, hcs]
    simp

/-- **Failures point at tokens.** If reading a text fails, the failure has the place of one of its tokens. That
token is to blame: the end token where the text ends too early, a lexeme that is illegal for the reason given,
a closing parenthesis where no list is open, a dot where none can stand or whose own list goes on wrongly, a
number that is no numeral and reads as the failure says, or a parenthesis or quotation mark where as much is
open as is allowed. The text in front of the token is read, or fails only as it awaits more. -/
theorem failures_point_at_tokens {text : String} {e : Error} (h : readAll text = .error e) :
    ∃ before t after, (ofString text).toList = before ++ t :: after ∧ e.span = some t.span ∧
      Blamed before t after e.fault ∧
      (∀ content, e.fault = .invalidNumber content → t.span.slice text.toList = content.toList) ∧
      MayGoOn (String.ofList (text.toList.take t.span.start.offset)) := by
  have hlist : (ofString text).toList = _ := toList_scanFrom {} text.toList
  have hread := h
  rw [readAll_eq_readDataFrom] at hread
  have hnil : OpenedBy [] [] := .nil .none
  have hend : ∀ t ∈ tokensAt {} text.toList, t.lexeme ≠ .endOfText :=
    fun t ht => (proper_of_mem_tokensAt ht).1
  rcases hnil.accused hend hread with ⟨contexts, before, t, used, htokens, hbefore, hspan, hblamed⟩ | ⟨-, rfl⟩
  · obtain ⟨front, rest, hcs, hfront, hrest⟩ := exists_tokensAt_append htokens
    refine ⟨before, t, used ++ [⟨.endOfText, ⟨({} : Position).after text.toList, 0⟩⟩], ?_, hspan,
      hblamed _, ?_, ?_⟩
    · rw [List.nil_append] at htokens
      rw [hlist, htokens]
      simp
    · intro content hcontent
      have ht : t ∈ tokensAt {} text.toList := by
        rw [← List.nil_append (tokensAt {} text.toList), htokens]
        simp
      have hnumber := hblamed []
      rw [hcontent] at hnumber
      cases hnumber with
      | number hlexeme _ =>
        refine (toList_of_verbatim? ht ?_).symm
        rw [hlexeme]
        rfl
    · rw [take_start hcs hrest]
      rw [← hfront] at hbefore
      exact hbefore.mayGoOn
  · refine ⟨tokensAt {} text.toList, _, [], hlist, rfl, .endOfInput rfl rfl, ?_, ?_⟩
    · intro content hcontent
      cases hcontent
    · have hall : text.toList.take (({} : Position).after text.toList).offset = text.toList := by
        rw [Position.offset_after]
        simp
      rw [hall, String.ofList_toList]
      exact .inr ⟨_, h, rfl⟩

theorem tokens_secondTail :
    tokensAt {} "(a . b 'c)".toList =
      [⟨.leftParen, ⟨{}, 1⟩⟩, ⟨.symbol "a", ⟨⟨1, 1, 2⟩, 1⟩⟩, ⟨.blank " ", ⟨⟨2, 1, 3⟩, 1⟩⟩,
        ⟨.dot, ⟨⟨3, 1, 4⟩, 1⟩⟩, ⟨.blank " ", ⟨⟨4, 1, 5⟩, 1⟩⟩, ⟨.symbol "b", ⟨⟨5, 1, 6⟩, 1⟩⟩,
        ⟨.blank " ", ⟨⟨6, 1, 7⟩, 1⟩⟩, ⟨.quote, ⟨⟨7, 1, 8⟩, 1⟩⟩, ⟨.symbol "c", ⟨⟨8, 1, 9⟩, 1⟩⟩,
        ⟨.rightParen, ⟨⟨9, 1, 10⟩, 1⟩⟩] := by
  decide +kernel

/-- Behind the tail stands a quote. The failure comes with its last token and points at the dot, and the text
in front of the dot awaits more. -/
theorem secondTail_points_at_dot :
    readAll "(a . b 'c)" =
        .error ⟨.malformedDot "more than one object follows .", some ⟨⟨3, 1, 4⟩, 1⟩⟩ ∧
      ∃ before t after, (ofString "(a . b 'c)").toList = before ++ t :: after ∧ t.lexeme = .dot ∧
        t.span = ⟨⟨3, 1, 4⟩, 1⟩ ∧ MayGoOn (String.ofList ("(a . b 'c)".toList.take 3)) := by
  have hread : readAll "(a . b 'c)" =
      .error ⟨.malformedDot "more than one object follows .", some ⟨⟨3, 1, 4⟩, 1⟩⟩ := by
    rw [readAll_eq_readDataFrom, tokens_secondTail]
    rfl
  obtain ⟨before, t, after, htokens, hspan, hblamed, -, hcut⟩ := failures_point_at_tokens hread
  have ht : t.span = ⟨⟨3, 1, 4⟩, 1⟩ := (Option.some.inj hspan).symm
  rw [ht] at hcut
  cases hblamed with
  | malformedDot hdot _ _ _ => exact ⟨hread, before, t, after, htokens, hdot, ht, hcut⟩

end SmallScheme
