import SmallScheme.Proofs.LineByLine

/-!
# What more lines do to a text

Both results come from `readAll_newline`: read on its own, a text awaits more, or is complete, or fails.

1. `readAll_after_complete`: behind complete input, a text is read as it is alone, and what fails in it
   fails in the same way, further down.
2. `definite_failure_is_final`: input that fails without awaiting more fails in the same way whatever
   follows. The shell evaluates an input only if it does not await more, so the failures that it reports
   for input that could still be continued come from evaluation (`Session.exists_evaluate_failed`).
-/

namespace SmallScheme

open TokenStream

theorem toList_append_newline (text more : String) :
    (text ++ "\n" ++ more).toList = text.toList ++ '\n' :: more.toList := by
  rw [String.toList_append, String.toList_append, List.append_assoc]
  rfl

/-- Either a text awaits more; or it is complete, and another line is read as it is alone, further down; or
it fails, and fails in the same way when it goes on. -/
theorem readAll_newline (text more : String) :
    (∃ e : Error, e.isIncomplete = true ∧ readAll text = .error e) ∨
    (∃ ds, readAll text = .ok ds ∧ readAll (text ++ "\n" ++ more) =
      ((readAll more).mapError (Error.mapSpan
        (Span.shift (text.length + 1) (text.toList.count '\n' + 1)))).map (ds ++ ·)) ∨
    ∃ e, readAll text = .error e ∧ readAll (text ++ "\n" ++ more) = .error e := by
  have h := readAt_newline {} text.toList more.toList
  rw [Position.after_newline, readAt_shift, String.length_toList, ← toList_append_newline] at h
  simp only [← readAll_eq_readAt] at h
  exact h

/-! ## Complete input -/

/-- **Complete input is read independently of what follows.** Behind a text that is read without failure,
and a line feed, another text gives its data, or the failure that it has on its own. The place of the
failure is moved by the characters and the lines in front of it; its column and length stay. -/
theorem readAll_after_complete {a : String} {ds : List Datum} (h : readAll a = .ok ds) (b : String) :
    readAll (a ++ "\n" ++ b) =
      match readAll b with
      | .ok es => .ok (ds ++ es)
      | .error ⟨fault, span⟩ =>
        .error ⟨fault, span.map (Span.shift (a.length + 1) (a.toList.count '\n' + 1))⟩ := by
  rcases readAll_newline a b with ⟨e, -, hopen⟩ | ⟨ds', hcomplete, hjoined⟩ | ⟨e, hfails, -⟩
  · rw [hopen] at h
    cases h
  · rw [hcomplete] at h
    cases h
    rw [hjoined]
    cases readAll b <;> rfl
  · rw [hfails] at h
    cases h

theorem readAll_closeParen : readAll ")" = .error ⟨.unexpectedCloseParen, some ⟨{}, 1⟩⟩ := by
  have hplaced : placed {} [')'] = [⟨.rightParen, ⟨{}, 1⟩⟩] := by
    rw [placed_cons]
    show _ ++ placed _ [] = _
    rw [placed_nil]
    rfl
  rw [readAll_eq_readAt, readAt]
  show readData ⟨placed {} [')'], _⟩ = _
  rw [hplaced, readData_eq_from]
  rfl

/-- The comment at the end of the first text ends with its line. -/
theorem closeParen_after_comment :
    readAll "() ; (" = .ok [.nil] ∧
      readAll ("() ; (" ++ "\n" ++ ")") = .error ⟨.unexpectedCloseParen, some ⟨⟨7, 2, 1⟩, 1⟩⟩ := by
  have hcomplete : readAll "() ; (" = .ok [.nil] := by
    refine readAll_of_derives ?_
    show Derives maxNesting (lexemesOf ['(', ')', ' ', ';', ' ', '(']) _
    rw [lexemesOf_leftParen, lexemesOf_rightParen, lexemesOf_blank rfl, lexemesOf_comment]
    show Derives maxNesting (.leftParen :: .rightParen :: lexemesOf []) _
    rw [lexemesOf_nil]
    exact .more (.list .none) .none
  refine ⟨hcomplete, ?_⟩
  rw [readAll_after_complete hcomplete, readAll_closeParen]
  rfl

/-! ## Definite failures -/

/-- If the data of a text can be read, a failure to evaluate the text is a failure to evaluate one of
them. -/
theorem Session.exists_evaluate_failed {fuel : Nat} {frame : FrameId} {tokens : List Token}
    {stop : Position} {ds : List Datum} (h : readData ⟨tokens, stop⟩ = .ok ds) (s : Session)
    (last : Option Value) {e : Error}
    (hfailed : (runTokens fuel frame s last ⟨tokens, stop⟩).1.ending = .failed e) :
    ∃ d ∈ ds, ∃ st : Store, (st.evaluate fuel frame d).1 = .failed e := by
  revert s last
  refine readData_induction (motive := fun tokens ds => ∀ (s : Session) (last : Option Value),
    (runTokens fuel frame s last ⟨tokens, stop⟩).1.ending = .failed e →
      ∃ d ∈ ds, ∃ st : Store, (st.evaluate fuel frame d).1 = .failed e) ?_ ?_ h
  · intro tokens rest hr s last hfailed
    rw [runTokens_step, readNext_result, hr] at hfailed
    cases hfailed
  · intro tokens d rest ds hr ih s last hfailed
    have heval := evalDatum_eq fuel (s.noteReading (readNext ⟨tokens, stop⟩).events) d frame
    rw [runTokens_step, readNext_result, readNext_rest, hr] at hfailed
    dsimp only at hfailed
    rcases hout : (s.noteReading (readNext ⟨tokens, stop⟩).events).evalDatum fuel d frame with ⟨out, s'⟩
    rw [hout] at heval hfailed
    cases out with
    | value v =>
      obtain ⟨d', hd', hst⟩ := ih s' (some v) hfailed
      exact ⟨d', List.mem_cons_of_mem d hd', hst⟩
    | failed e' =>
      cases hfailed
      exact ⟨d, List.mem_cons_self, s.store, (congrArg Prod.fst heval).symm⟩
    | quit => cases hfailed
    | unfinished => cases hfailed

theorem readAll_of_definite {text : String} {e : Error} (h : readAll text = .error e)
    (hdefinite : e.isIncomplete = false) (more : String) : readAll (text ++ "\n" ++ more) = .error e := by
  rcases readAll_newline text more with ⟨e', hopen, hfails⟩ | ⟨ds, hcomplete, -⟩ | ⟨e', hfails, hjoined⟩
  · rw [hfails] at h
    cases h
    rw [hopen] at hdefinite
    cases hdefinite
  · rw [hcomplete] at h
    cases h
  · rw [hfails] at h
    cases h
    exact hjoined

/-- What the shell evaluates does not await more. -/
theorem Shell.awaitsMore_of_input {sh : Shell} {line text : String} (h : sh.input? line = some text) :
    awaitsMore (readAll text) = false := by
  unfold input? at h
  rw [collect_snd] at h
  split_ifs at h with hblank hmore
  cases h
  exact Bool.eq_false_iff.mpr hmore

/-- **A definite failure is final.** Input that fails to be read without awaiting more fails with the same
cause at the same place, whatever lines follow. So if further lines can turn an input of the shell into
one that can be read, then it can be read as it is, and a failure that the shell reports for it is a
failure to evaluate one of its data. -/
theorem definite_failure_is_final :
    (∀ (text : String) (e : Error), readAll text = .error e → e.isIncomplete = false →
      ∀ more, readAll (text ++ "\n" ++ more) = .error e) ∧
    ∀ (fuel : Nat) (sh : Shell) (line text more : String) (ds : List Datum),
      sh.input? line = some text → readAll (text ++ "\n" ++ more) = .ok ds →
      ∃ now, readAll text = .ok now ∧
        ∀ e, (((sh.noted line).accept text).run fuel text).1.ending = .failed e →
          ∃ d ∈ now, ∃ st : Store, (st.evaluate fuel Store.globalFrame d).1 = .failed e := by
  refine ⟨fun text e h hdefinite more => readAll_of_definite h hdefinite more, ?_⟩
  intro fuel sh line text more ds hinput hjoined
  have hmore := Shell.awaitsMore_of_input hinput
  cases hread : readAll text with
  | error e =>
    rw [hread] at hmore
    rw [readAll_of_definite hread hmore more] at hjoined
    cases hjoined
  | ok now =>
    refine ⟨now, rfl, fun e hfailed => ?_⟩
    exact Session.exists_evaluate_failed hread _ none hfailed

theorem readAll_emptyList : readAll "()" = .ok [.nil] := by
  refine readAll_of_derives ?_
  show Derives maxNesting (lexemesOf ['(', ')']) _
  rw [lexemesOf_leftParen, lexemesOf_rightParen, lexemesOf_nil]
  exact .more (.list .none) .none

theorem closeParen_stays :
    readAll (")" ++ "\n" ++ "()") = .error ⟨.unexpectedCloseParen, some ⟨{}, 1⟩⟩ ∧
      ∃ now, readAll "()" = .ok now := by
  obtain ⟨hfinal, hshell⟩ := definite_failure_is_final
  refine ⟨hfinal ")" _ readAll_closeParen rfl "()", ?_⟩
  have hinput : (Shell.initial {} false).input? "()" = some "()" := by
    have hcollect : (Shell.collect "" "()").2 = .input "()" := by
      have hjoin : Shell.joinLine "" "()" = "()" := rfl
      rw [Shell.collect_snd, hjoin, readAll_emptyList]
      rfl
    have hbuffer : (Shell.initial {} false).buffer = "" := rfl
    rw [Shell.input?, hbuffer, hcollect]
  have hjoined : readAll ("()" ++ "\n" ++ "") = .ok [.nil] := by
    refine readAll_of_derives ?_
    show Derives maxNesting (lexemesOf ['(', ')', '\n']) _
    rw [lexemesOf_leftParen, lexemesOf_rightParen, lexemesOf_blank rfl, lexemesOf_nil]
    exact .more (.list .none) .none
  obtain ⟨now, hnow, -⟩ := hshell 0 (.initial {} false) "()" "()" "" [.nil] hinput hjoined
  exact ⟨now, hnow⟩

end SmallScheme
