import SmallScheme.CommandLine
import SmallScheme.Proofs.Lines
import SmallScheme.Proofs.Quoting
import SmallScheme.Proofs.Trampoline

/-!
# Line by line

`Shell.feedAll_agrees_with_run`: a text that is given to the shell line by line has the effect of the
whole text.

1. What evaluating a text does to the store is what evaluating its data in order does
   (`Session.runTokens_complete_iff`), and nothing that is noted on the way matters.
2. A line is dropped, kept or completes an input (`Shell.collect_snd`), and each of these moves the shell
   as it should (`IsAt.feed_nothing`, `IsAt.feed_partly`, `IsAt.feed_input`).
3. The lines collected at any time are nothing or the beginning of something longer (`Shell.Pending`).
   By induction on the lines, what is collected together with the lines to come reads as the data that
   are still to be evaluated (`IsAt.takes`).
-/

namespace SmallScheme

open TokenStream

/-! ## Evaluating data in order -/

namespace Store

/-- Evaluates a datum in a frame, in at most `fuel` steps. -/
def evaluate (fuel : Nat) (frame : FrameId) (st : Store) (d : Datum) : Outcome × Store :=
  (Next.step^[fuel] (.running (.start (st.embed d).1 frame 0 (st.embed d).2))).answer

/-- The store after the evaluation of data in order, if all of them have values. -/
def evaluateAll (fuel : Nat) (frame : FrameId) : Store → List Datum → Option Store
  | st, [] => some st
  | st, d :: ds =>
    match st.evaluate fuel frame d with
    | (.value _, st) => evaluateAll fuel frame st ds
    | _ => none

theorem evaluateAll_append (fuel : Nat) (frame : FrameId) (st : Store) (ds es : List Datum) :
    evaluateAll fuel frame st (ds ++ es) =
      (evaluateAll fuel frame st ds).bind (evaluateAll fuel frame · es) := by
  induction ds generalizing st with
  | nil => rfl
  | cons d ds ih =>
    rw [List.cons_append, evaluateAll, evaluateAll]
    split
    · exact ih _
    · rfl

end Store

namespace Session

theorem evalDatum_eq (fuel : Nat) (s : Session) (d : Datum) (frame : FrameId) :
    ((s.evalDatum fuel d frame).1, (s.evalDatum fuel d frame).2.store) =
      s.store.evaluate fuel frame d := by
  show ((State.start _ frame 0 _).run Journal.noteEvaluation fuel s.journal).2 = _
  rw [State.run_snd]
  rfl

/-- Evaluating a text takes the next datum and goes on behind it. -/
theorem runTokens_step (fuel : Nat) (frame : FrameId) (s : Session) (last : Option Value)
    (tokens : TokenStream) :
    runTokens fuel frame s last tokens =
      match tokens.readNext.result with
      | .exhausted => (⟨last, .complete⟩, s.noteReading tokens.readNext.events)
      | .failed e => (⟨last, .failed e⟩, s.noteReading tokens.readNext.events)
      | .datum d =>
        match (s.noteReading tokens.readNext.events).evalDatum fuel d frame with
        | (.value v, s) => runTokens fuel frame s (some v) tokens.readNext.rest
        | (.failed e, s) => (⟨last, .failed e⟩, s)
        | (.quit, s) => (⟨last, .quit⟩, s)
        | (.unfinished, s) => (⟨last, .unfinished⟩, s) := by
  rw [runTokens]
  split
  · next h => simp only [h]
  · next h => simp only [h]
  · next d events rest h =>
    rcases heval : (s.noteReading events).evalDatum fuel d frame with ⟨out, s'⟩
    cases out <;> simp only [h, heval]

/-- A text that can be read is evaluated completely exactly if its data are. -/
theorem runTokens_complete_iff {fuel : Nat} {frame : FrameId} {tokens : List Token} {stop : Position}
    {ds : List Datum} (h : readData ⟨tokens, stop⟩ = .ok ds) (s : Session) (last : Option Value)
    (st : Store) :
    ((runTokens fuel frame s last ⟨tokens, stop⟩).1.ending = .complete ∧
      (runTokens fuel frame s last ⟨tokens, stop⟩).2.store = st) ↔
    s.store.evaluateAll fuel frame ds = some st := by
  revert s last
  refine readData_induction (motive := fun tokens ds => ∀ (s : Session) (last : Option Value),
    ((runTokens fuel frame s last ⟨tokens, stop⟩).1.ending = .complete ∧
      (runTokens fuel frame s last ⟨tokens, stop⟩).2.store = st) ↔
    s.store.evaluateAll fuel frame ds = some st)
    ?_ ?_ h
  · intro tokens rest hr s last
    rw [runTokens_step, readNext_result, hr, Store.evaluateAll, Option.some.injEq]
    exact and_iff_right rfl
  · intro tokens d rest ds hr ih s last
    have heval := evalDatum_eq fuel (s.noteReading (readNext ⟨tokens, stop⟩).events) d frame
    rw [runTokens_step, readNext_result, readNext_rest, hr, Store.evaluateAll,
      show s.store = (s.noteReading (readNext ⟨tokens, stop⟩).events).store from rfl, ← heval]
    dsimp only
    rcases (s.noteReading (readNext ⟨tokens, stop⟩).events).evalDatum fuel d frame with ⟨out, s'⟩
    cases out with
    | value v => exact ih s' (some v)
    | failed e => exact iff_of_false (fun h => by cases h.1) fun h => by cases h
    | quit => exact iff_of_false (fun h => by cases h.1) fun h => by cases h
    | unfinished => exact iff_of_false (fun h => by cases h.1) fun h => by cases h

end Session

/-! ## One line -/

namespace Shell

/-- The text that the shell evaluates when it takes a line, if it evaluates one (`feed_of_input`). -/
def input? (sh : Shell) (line : String) : Option String :=
  match (collect sh.buffer line).2 with
  | .input text => some text
  | .nothing | .partly _ => none

theorem collect_snd (buffer line : String) :
    (collect buffer line).2 =
      if Text.isBlankText (joinLine buffer line) then .nothing
      else if awaitsMore (readAll (joinLine buffer line)) then .partly (joinLine buffer line)
      else .input (joinLine buffer line) := by
  unfold collect readAll
  dsimp only
  split_ifs <;> rfl

/-- The shell after it has noted how a line was read. -/
def noted (sh : Shell) (line : String) : Shell :=
  flush { sh with session := sh.session.noteReading (collect sh.buffer line).1 }

/-- A line that completes an input hands it to the evaluation. -/
theorem feed_of_input {sh : Shell} {line text : String} (h : sh.input? line = some text) (fuel : Nat) :
    sh.feed fuel line =
      (((sh.noted line).accept text).run fuel text).2.report
        (((sh.noted line).accept text).run fuel text).1 := by
  unfold input? at h
  unfold feed
  dsimp only
  split at h
  · next hc =>
    cases h
    rw [hc]
    rfl
  · cases h
  · cases h

/-- The shell has this store and these collected lines, and has not ended. -/
structure IsAt (sh : Shell) (st : Store) (buffer : String) : Prop where
  store_eq : sh.session.store = st
  buffer_eq : sh.buffer = buffer
  exit_eq : sh.exit = none

section

variable {fuel : Nat} {sh : Shell} {st st' : Store} {buffer line text : String}

/-- Evaluating a text whose data have values brings the shell to the store after them. -/
theorem IsAt.run (h : sh.IsAt st buffer) {ds : List Datum} (hread : readAll text = .ok ds)
    (heval : st.evaluateAll fuel Store.globalFrame ds = some st') :
    (sh.run fuel text).1.ending = .complete ∧ (sh.run fuel text).2.IsAt st' buffer := by
  obtain ⟨rfl, rfl, hexit⟩ := h
  obtain ⟨hending, hstore⟩ :=
    (Session.runTokens_complete_iff hread sh.session none st').mpr heval
  exact ⟨hending, hstore, rfl, hexit⟩

theorem IsAt.report (h : sh.IsAt st buffer) {result : Session.Result}
    (hresult : result.ending = .complete) : (sh.report result).IsAt st buffer := by
  obtain ⟨hstore, hbuffer, hexit⟩ := h
  unfold Shell.report
  rw [hresult]
  cases result.value with
  | none => exact ⟨hstore, hbuffer, hexit⟩
  | some v => exact ⟨hstore, hbuffer, hexit⟩

theorem IsAt.feed_nothing (fuel : Nat) (h : sh.IsAt st buffer) (hc : (collect buffer line).2 = .nothing) :
    (sh.feed fuel line).IsAt st "" ∧ sh.input? line = none := by
  obtain ⟨rfl, rfl, hexit⟩ := h
  unfold feed input?
  dsimp only
  rw [hc]
  exact ⟨⟨rfl, rfl, hexit⟩, rfl⟩

theorem IsAt.feed_partly (fuel : Nat) (h : sh.IsAt st buffer)
    (hc : (collect buffer line).2 = .partly text) :
    (sh.feed fuel line).IsAt st text ∧ sh.input? line = none := by
  obtain ⟨rfl, rfl, hexit⟩ := h
  unfold feed input?
  dsimp only
  rw [hc]
  exact ⟨⟨rfl, rfl, hexit⟩, rfl⟩

theorem IsAt.feed_input (h : sh.IsAt st buffer) (hc : (collect buffer line).2 = .input text)
    {ds : List Datum} (hread : readAll text = .ok ds)
    (heval : st.evaluateAll fuel Store.globalFrame ds = some st') :
    (sh.feed fuel line).IsAt st' "" ∧ sh.input? line = some text := by
  obtain ⟨rfl, rfl, hexit⟩ := h
  have hinput : sh.input? line = some text := by
    unfold input?
    rw [hc]
  have hat : ((sh.noted line).accept text).IsAt sh.session.store "" := ⟨rfl, rfl, hexit⟩
  obtain ⟨hending, hrun⟩ := hat.run hread heval
  rw [feed_of_input hinput]
  exact ⟨hrun.report hending, hinput⟩

end

end Shell

/-! ## All lines -/

/-- What a text is read as, by its lexemes, except for the place of a failure. -/
theorem readAll_fault (text : String) :
    (readAll text).mapError Error.fault = readLexemes (lexemesOf text.toList) := by
  rw [readAll_eq_readAt]
  exact readAt_fault {} text.toList

theorem readAll_eq_ok_iff {text : String} {ds : List Datum} :
    readAll text = .ok ds ↔ readLexemes (lexemesOf text.toList) = .ok ds := by
  rw [← readAll_fault]
  cases readAll text <;> simp [Except.mapError]

theorem awaitsMore_iff {text : String} :
    Shell.awaitsMore (readAll text) = true ↔
      ∃ fault : Fault, fault.IsIncomplete ∧ readLexemes (lexemesOf text.toList) = .error fault := by
  rw [← readAll_fault]
  cases h : readAll text with
  | ok ds => simp [Shell.awaitsMore, Except.mapError]
  | error e => simp [Shell.awaitsMore, Except.mapError, Fault.IsIncomplete, Error.isIncomplete]

/-- Lines after others, each with the line feed before it. -/
def following (lines : List String) : List Char := lines.flatMap fun line => '\n' :: line.toList

theorem lexemesOf_blanks {cs : List Char} (h : cs.all Text.isBlank = true) (more : List Char) :
    lexemesOf (cs ++ more) = lexemesOf more := by
  induction cs with
  | nil => rfl
  | cons c cs ih =>
    rw [List.all_cons, Bool.and_eq_true] at h
    rw [List.cons_append, lexemesOf_blank h.1, ih h.2]

/-- A line added to those collected before is read like a line after them. -/
theorem lexemesOf_joinLine (buffer line : String) (more : List Char) :
    lexemesOf ((Shell.joinLine buffer line).toList ++ more) =
      lexemesOf (buffer.toList ++ '\n' :: (line.toList ++ more)) := by
  unfold Shell.joinLine
  split_ifs with hempty
  · rw [String.isEmpty_iff.mp hempty]
    exact (lexemesOf_blank rfl _).symm
  · rw [String.toList_append, String.toList_append, List.append_assoc, List.append_assoc]
    rfl

/-- If a text can be read together with the lines that follow it, then it awaits more, or both can be
read alone. -/
theorem readLexemes_following {cs : List Char} {lines : List String} {ds : List Datum}
    (h : readLexemes (lexemesOf (cs ++ following lines)) = .ok ds) :
    (∃ fault : Fault, fault.IsIncomplete ∧ readLexemes (lexemesOf cs) = .error fault) ∨
    ∃ now later, ds = now ++ later ∧ readLexemes (lexemesOf cs) = .ok now ∧
      readLexemes (lexemesOf (following lines)) = .ok later := by
  cases lines with
  | nil =>
    rw [following, List.flatMap_nil, List.append_nil] at h
    refine .inr ⟨ds, [], (List.append_nil ds).symm, h, ?_⟩
    rw [following, List.flatMap_nil, lexemesOf_nil, readLexemes_nil]
  | cons line lines =>
    have hsplit : following (line :: lines) = '\n' :: (line.toList ++ following lines) := rfl
    rw [hsplit] at h ⊢
    rw [lexemesOf_blank rfl]
    rcases readLexemes_newline cs (line.toList ++ following lines) with hopen | ⟨now, hnow, hjoined⟩ |
        ⟨fault, -, hjoined⟩
    · exact .inl hopen
    · rw [h] at hjoined
      cases hlater : readLexemes (lexemesOf (line.toList ++ following lines)) with
      | error fault =>
        rw [hlater] at hjoined
        cases hjoined
      | ok later =>
        rw [hlater] at hjoined
        cases hjoined
        exact .inr ⟨now, later, rfl, hnow, rfl⟩
    · rw [h] at hjoined
      cases hjoined

namespace Shell

/-- The texts that the shell evaluates when it takes lines, as long as it has not ended. -/
def inputs (fuel : Nat) : Shell → List String → List String
  | _, [] => []
  | sh, line :: lines =>
    (sh.input? line).toList ++
      if (sh.feed fuel line).exit.isSome then [] else inputs fuel (sh.feed fuel line) lines

/-- Taking these lines, the shell evaluates texts whose data are `ds`, and comes to the end of the lines
with this store and nothing collected. -/
structure Takes (fuel : Nat) (sh : Shell) (lines : List String) (ds : List Datum) (st : Store) :
    Prop where
  data : ∃ parts : List (List Datum),
    (sh.inputs fuel lines).map readAll = parts.map Except.ok ∧ parts.flatten = ds
  last : (sh.feedAll fuel (lines.map some)).2 = .exhausted
  isAt : (sh.feedAll fuel (lines.map some)).1.IsAt st ""

section

variable {fuel : Nat} {sh : Shell} {st st' : Store} {buffer line text : String} {lines : List String}
  {now later : List Datum}

theorem feedAll_cons (hexit : (sh.feed fuel line).exit = none) :
    sh.feedAll fuel ((line :: lines).map some) = (sh.feed fuel line).feedAll fuel (lines.map some) := by
  rw [List.map_cons, feedAll, hexit]
  rfl

theorem inputs_cons (hexit : (sh.feed fuel line).exit = none) :
    sh.inputs fuel (line :: lines) = (sh.input? line).toList ++ (sh.feed fuel line).inputs fuel lines := by
  rw [inputs, hexit]
  rfl

/-- A line that makes up no input in front of others. -/
theorem Takes.cons_none (hexit : (sh.feed fuel line).exit = none) (hinput : sh.input? line = none)
    (h : (sh.feed fuel line).Takes fuel lines later st) : sh.Takes fuel (line :: lines) later st := by
  obtain ⟨hdata, hlast, hat⟩ := h
  refine ⟨?_, ?_, ?_⟩
  · rw [inputs_cons hexit, hinput]
    exact hdata
  · rw [feedAll_cons hexit, hlast]
  · rw [feedAll_cons hexit]
    exact hat

/-- A line that makes up an input in front of others. -/
theorem Takes.cons_some (hexit : (sh.feed fuel line).exit = none) (hinput : sh.input? line = some text)
    (hread : readAll text = .ok now) (h : (sh.feed fuel line).Takes fuel lines later st) :
    sh.Takes fuel (line :: lines) (now ++ later) st := by
  obtain ⟨⟨parts, hparts, rfl⟩, hlast, hat⟩ := h
  refine ⟨⟨now :: parts, ?_, rfl⟩, ?_, ?_⟩
  · rw [inputs_cons hexit, hinput, List.map_append, hparts, Option.toList_some, List.map_singleton, hread]
    rfl
  · rw [feedAll_cons hexit, hlast]
  · rw [feedAll_cons hexit]
    exact hat

/-- **The invariant.** What was collected is nothing, or the beginning of something longer. -/
def Pending (buffer : String) : Prop := buffer = "" ∨ awaitsMore (readAll buffer) = true

theorem IsAt.takes {ds : List Datum} (h : sh.IsAt st buffer) (hpending : Pending buffer)
    (hread : readLexemes (lexemesOf (buffer.toList ++ following lines)) = .ok ds)
    (heval : st.evaluateAll fuel Store.globalFrame ds = some st') :
    sh.Takes fuel lines ds st' := by
  induction lines generalizing sh st buffer ds with
  | nil =>
    rw [following, List.flatMap_nil, List.append_nil] at hread
    rcases hpending with rfl | hmore
    · have hnil : readLexemes (lexemesOf "".toList) = .ok [] := by
        rw [String.toList_empty, lexemesOf_nil, readLexemes_nil]
      rw [hnil] at hread
      cases hread
      cases heval
      exact ⟨⟨[], rfl, rfl⟩, rfl, h⟩
    · obtain ⟨fault, -, hfault⟩ := awaitsMore_iff.mp hmore
      rw [hfault] at hread
      cases hread
  | cons line lines ih =>
    have hcollect := collect_snd buffer line
    have hjoined :
        readLexemes (lexemesOf ((joinLine buffer line).toList ++ following lines)) = .ok ds := by
      rw [lexemesOf_joinLine]
      exact hread
    split_ifs at hcollect with hblank hmore
    · -- white space is dropped
      obtain ⟨hat, hinput⟩ := h.feed_nothing fuel hcollect
      rw [lexemesOf_blanks hblank] at hjoined
      exact .cons_none hat.exit_eq hinput (ih hat (.inl rfl) hjoined heval)
    · -- the collected lines are kept
      obtain ⟨hat, hinput⟩ := h.feed_partly fuel hcollect
      exact .cons_none hat.exit_eq hinput (ih hat (.inr hmore) hjoined heval)
    · rcases readLexemes_following hjoined with hopen | ⟨now, later, rfl, hnow, hlater⟩
      · exact absurd (awaitsMore_iff.mpr hopen) hmore
      · rw [Store.evaluateAll_append] at heval
        obtain ⟨st₁, hst₁, heval⟩ := Option.bind_eq_some_iff.mp heval
        obtain ⟨hat, hinput⟩ := h.feed_input hcollect (readAll_eq_ok_iff.mpr hnow) hst₁
        exact .cons_some hat.exit_eq hinput (readAll_eq_ok_iff.mpr hnow)
          (ih hat (.inl rfl) hlater heval)

end

theorem toList_intercalate_following (line : String) (lines : List String) :
    ("\n".intercalate (line :: lines)).toList = line.toList ++ following lines := by
  induction lines generalizing line with
  | nil => simp [following]
  | cons line' lines ih =>
    rw [String.intercalate_cons_cons, String.toList_append, String.toList_append, ih, List.append_assoc]
    rfl

/-- **Lines are taken like the whole text.** If the text of all lines can be read, and evaluated without
failure, then the shell, given the lines one by one, evaluates texts whose data are together those of the
whole text. It comes to the end of the lines with nothing collected and with the store that evaluating the
whole text leaves. -/
theorem feedAll_agrees_with_run {fuel : Nat} (sh : Shell) {lines : List String} {ds : List Datum}
    (hbuffer : sh.buffer = "") (hexit : sh.exit = none)
    (hread : readAll ("\n".intercalate lines) = .ok ds)
    (hrun : (sh.session.run fuel ("\n".intercalate lines) Store.globalFrame).1.ending = .complete) :
    (∃ parts : List (List Datum),
        (sh.inputs fuel lines).map readAll = parts.map Except.ok ∧ parts.flatten = ds) ∧
      (sh.feedAll fuel (lines.map some)).2 = .exhausted ∧
      (sh.feedAll fuel (lines.map some)).1.buffer = "" ∧
      (sh.feedAll fuel (lines.map some)).1.exit = none ∧
      (sh.feedAll fuel (lines.map some)).1.session.store =
        (sh.session.run fuel ("\n".intercalate lines) Store.globalFrame).2.store := by
  have heval := (Session.runTokens_complete_iff hread sh.session none _).mp ⟨hrun, rfl⟩
  have hlines : readLexemes (lexemesOf ("".toList ++ following lines)) = .ok ds := by
    rw [← readAll_eq_ok_iff.mp hread]
    cases lines with
    | nil => rfl
    | cons line lines =>
      rw [toList_intercalate_following]
      exact congrArg readLexemes (lexemesOf_blank rfl _)
  obtain ⟨hdata, hlast, hat⟩ := IsAt.takes ⟨rfl, hbuffer, hexit⟩ (.inl rfl) hlines heval
  exact ⟨hdata, hlast, hat.buffer_eq, hat.exit_eq, hat.store_eq⟩

/-- A string literal over three lines, one of them empty, with a comment behind it, and a truth value. -/
def spread : List String := ["\"a ; b", "", "c\" ; (", "#t"]

theorem readAll_spread :
    readAll ("\n".intercalate spread) = .ok [.atom (.string "a ; b\n\nc"), .atom (.boolean true)] := by
  have hlexemes : lexemesOf ("\n".intercalate spread).toList =
      [.string "a ; b\n\nc", .boolean true] := by
    have hplain : ∀ c ∈ "a ; b\n\nc".toList, c ≠ '"' ∧ c ≠ '\\' := by simp
    obtain ⟨p, hadds, hscan⟩ := StringLiteral.scanFrom_plains hplain {}
    show lexemesOf ('"' :: ("a ; b\n\nc".toList ++ '"' :: [' ', ';', ' ', '(', '\n', '#', 't'])) = _
    rw [lexemesOf_string hadds hscan, lexemesOf_blank (rfl : Text.isBlank ' ' = true), lexemesOf_comment]
    show _ :: lexemesOf ('\n' :: ((Literal.boolean true).text.toList ++ [])) = _
    rw [lexemesOf_blank (rfl : Text.isBlank '\n' = true), lexemesOf_boolean true (rfl : Delimited []), lexemesOf_nil]
    rfl
  refine readAll_of_derives ?_
  rw [hlexemes]
  exact .more (.string _) (.more (.boolean true) .none)

theorem evaluateAll_spread (st : Store) :
    st.evaluateAll 2 Store.globalFrame [.atom (.string "a ; b\n\nc"), .atom (.boolean true)] = some st := by
  have hembed (a : Literal) : st.embed (.atom a) = (.atom (.literal a), st) := by
    unfold Store.embed Datum.embed
    rw [Datum.embedWithin]
    rfl
  unfold Store.evaluateAll Store.evaluate
  rw [hembed]
  show (st.evaluateAll 2 Store.globalFrame [.atom (.boolean true)]) = _
  unfold Store.evaluateAll Store.evaluate
  rw [hembed]
  rfl

theorem spread_taken :
    (∃ parts : List (List Datum),
      ((initial {} false).inputs 2 spread).map readAll = parts.map Except.ok ∧
        parts.flatten = [.atom (.string "a ; b\n\nc"), .atom (.boolean true)]) ∧
      ((initial {} false).feedAll 2 (spread.map some)).1.buffer = "" := by
  have hrun := (Session.runTokens_complete_iff readAll_spread (initial {} false).session none _).mpr
    (evaluateAll_spread _)
  have h := feedAll_agrees_with_run (initial {} false) rfl rfl readAll_spread hrun.1
  exact ⟨h.1, h.2.2.1⟩

end Shell

end SmallScheme
