import SmallScheme.Proofs.Continuation
import SmallScheme.Proofs.Faults

/-!
# Reading first

`run_reads_first`: a text is read and evaluated datum by datum, with the result and the effect of reading
all of it first and then evaluating.

1. What is delivered before the end or the first failure does not depend on evaluation
   (`TokenStream.deliveries`).
2. Evaluating data in order (`Session.evalInOrder`) depends on the store and not on what was noted, so it
   makes no difference that reading is noted in between (`Session.evalInOrder_congr`).
3. By induction on the data, evaluating a text is evaluating what it delivers
   (`Session.runTokens_eq`).
-/

namespace SmallScheme

open TokenStream

/-! ## What is delivered -/

namespace TokenStream

/-- The data that are read before the end of the input or the first failure, and that failure. -/
def deliveries (s : TokenStream) : List Datum × Option Error :=
  match h : s.readNext with
  | ⟨.datum d, _, rest⟩ =>
    have := length_readNext h
    (d :: rest.deliveries.1, rest.deliveries.2)
  | ⟨.exhausted, _, _⟩ => ([], none)
  | ⟨.failed e, _, _⟩ => ([], some e)
termination_by s.tokens.length

theorem deliveries_step (s : TokenStream) :
    s.deliveries =
      match s.readNext.result with
      | .datum d => (d :: s.readNext.rest.deliveries.1, s.readNext.rest.deliveries.2)
      | .exhausted => ([], none)
      | .failed e => ([], some e) := by
  rw [deliveries]
  split
  · next h => simp only [h]
  · next h => simp only [h]
  · next h => simp only [h]

/-- All data of a stream are those that it delivers, unless there is a failure behind them. -/
theorem readData_eq_deliveries (s : TokenStream) :
    s.readData =
      match s.deliveries.2 with
      | none => .ok s.deliveries.1
      | some e => .error e := by
  induction hn : s.tokens.length using Nat.strongRecOn generalizing s with
  | ind n ih =>
  rw [readData, readAllFrom_step, deliveries_step]
  cases hr : s.readNext.result with
  | exhausted => rfl
  | failed e => rfl
  | datum d =>
    have hlt : s.readNext.rest.tokens.length < n := hn ▸ length_readWithin _ _ _ _ d hr
    dsimp only
    rw [readAllFrom_snd, ih _ hlt _ rfl]
    cases s.readNext.rest.deliveries.2 <;> rfl

end TokenStream

namespace Session

/-- How a text ends of which everything that was delivered has a value. -/
def Ending.ofReading : Option Error → Ending
  | none => .complete
  | some e => .failed e

/-- Evaluates data in order up to the first that has no value: the values before it, how it ended, and the
session after it. -/
def evalInOrder (fuel : Nat) (frame : FrameId) (s : Session) :
    List Datum → List Value × Option Ending × Session
  | [] => ([], none, s)
  | d :: ds =>
    match s.evalDatum fuel d frame with
    | (.value v, s) =>
      let (vs, stopped, s) := evalInOrder fuel frame s ds
      (v :: vs, stopped, s)
    | (.failed e, s) => ([], some (.failed e), s)
    | (.quit, s) => ([], some .quit, s)
    | (.unfinished, s) => ([], some .unfinished, s)

variable (fuel : Nat) (frame : FrameId)

/-- What was noted before does not matter to evaluation. -/
theorem evalInOrder_congr {s s' : Session} (h : s.store = s'.store) (ds : List Datum) :
    (s.evalInOrder fuel frame ds).1 = (s'.evalInOrder fuel frame ds).1 ∧
      (s.evalInOrder fuel frame ds).2.1 = (s'.evalInOrder fuel frame ds).2.1 ∧
      (s.evalInOrder fuel frame ds).2.2.store = (s'.evalInOrder fuel frame ds).2.2.store := by
  induction ds generalizing s s' with
  | nil => exact ⟨rfl, rfl, h⟩
  | cons d ds ih =>
    have heval := evalDatum_eq fuel s d frame
    rw [h, ← evalDatum_eq fuel s' d frame] at heval
    rcases hout : s.evalDatum fuel d frame with ⟨out, t⟩
    rcases hout' : s'.evalDatum fuel d frame with ⟨out', t'⟩
    rw [hout, hout'] at heval
    obtain ⟨rfl, hstore⟩ := Prod.mk.inj heval
    simp only [evalInOrder, hout, hout']
    cases out with
    | value v =>
      obtain ⟨hvs, hstopped, hst⟩ := ih hstore
      exact ⟨congrArg (v :: ·) hvs, hstopped, hst⟩
    | _ => exact ⟨rfl, rfl, hstore⟩

/-- **One datum at a time.** Evaluating a text is evaluating what it delivers. -/
theorem runTokens_eq (s : Session) (last : Option Value) (tokens : TokenStream) :
    (runTokens fuel frame s last tokens).1 =
        ⟨(s.evalInOrder fuel frame tokens.deliveries.1).1.getLast?.or last,
          (s.evalInOrder fuel frame tokens.deliveries.1).2.1.getD (.ofReading tokens.deliveries.2)⟩ ∧
      (runTokens fuel frame s last tokens).2.store =
        (s.evalInOrder fuel frame tokens.deliveries.1).2.2.store := by
  induction hn : tokens.tokens.length using Nat.strongRecOn generalizing s last tokens with
  | ind n ih =>
  rw [runTokens_step, deliveries_step]
  cases hr : tokens.readNext.result with
  | exhausted => exact ⟨rfl, rfl⟩
  | failed e => exact ⟨rfl, rfl⟩
  | datum d =>
    have hlt : tokens.readNext.rest.tokens.length < n := hn ▸ length_readWithin _ _ _ _ d hr
    -- reading is noted before the datum is evaluated
    have hnoted : s.store = (s.noteReading tokens.readNext.events).store := rfl
    obtain ⟨hvs, hstopped, hstore⟩ := evalInOrder_congr fuel frame hnoted
      (d :: tokens.readNext.rest.deliveries.1)
    dsimp only
    rw [hvs, hstopped, hstore]
    simp only [evalInOrder]
    rcases (s.noteReading tokens.readNext.events).evalDatum fuel d frame with ⟨out, s'⟩
    cases out with
    | value v =>
      obtain ⟨hresult, hst⟩ := ih _ hlt s' (some v) tokens.readNext.rest rfl
      refine ⟨?_, hst⟩
      dsimp only
      rw [hresult, List.getLast?_cons]
      cases (s'.evalInOrder fuel frame tokens.readNext.rest.deliveries.1).1.getLast? <;> rfl
    | _ => exact ⟨rfl, rfl⟩

/-! ## Failures -/

variable {fuel frame}

theorem ofEvaluation_of_eval {s : Session} {exp : Value} {e : Error}
    (h : (s.eval fuel exp frame).1 = .failed e) : e.OfEvaluation :=
  State.run_fails Journal.noteEvaluation h

/-- What stops the evaluation of data is a failure of evaluation, if it is a failure. -/
theorem ofEvaluation_of_evalInOrder {s : Session} {ds : List Datum} {e : Error}
    (h : (s.evalInOrder fuel frame ds).2.1 = some (.failed e)) : e.OfEvaluation := by
  induction ds generalizing s with
  | nil => cases h
  | cons d ds ih =>
    simp only [evalInOrder] at h
    rcases heval : s.evalDatum fuel d frame with ⟨out, s'⟩
    rw [heval] at h
    cases out with
    | value v => exact ih h
    | failed e' =>
      cases h
      exact ofEvaluation_of_eval (congrArg Prod.fst heval)
    | quit => cases h
    | unfinished => cases h

end Session

/-- Input that awaits more has failed to be read. -/
theorem Error.OfEvaluation.isIncomplete_eq {e : Error} (h : e.OfEvaluation) : e.isIncomplete = false := by
  obtain ⟨fault, span⟩ := e
  obtain ⟨-, hfault⟩ := h
  cases fault <;> simp_all [Error.isIncomplete, Fault.isEvaluation]

/-- **Reading first.** Reading and evaluating a text datum by datum gives the result and the store of
evaluating in order all that the text delivers: the value of the last datum that has one, and the ending of
the first that has none; if all have values, the text ends as reading it does. Evaluation fails without a
place and by its own causes, reading at a place and by others. So a text that fails awaiting more is one that
cannot be read. -/
theorem run_reads_first (fuel : Nat) (s : Session) (text : String) (frame : FrameId) :
    ((s.run fuel text frame).1 =
        ⟨(s.evalInOrder fuel frame (ofString text).deliveries.1).1.getLast?,
          (s.evalInOrder fuel frame (ofString text).deliveries.1).2.1.getD
            (.ofReading (ofString text).deliveries.2)⟩ ∧
      (s.run fuel text frame).2.store =
        (s.evalInOrder fuel frame (ofString text).deliveries.1).2.2.store) ∧
    (∀ (exp : Value) (e : Error), (s.eval fuel exp frame).1 = .failed e → e.OfEvaluation) ∧
    (∀ (stream : TokenStream) (e : Error), stream.readNext.result = .failed e → e.OfReading) ∧
    ∀ e : Error, (s.run fuel text frame).1.ending = .failed e → e.isIncomplete = true →
      readAll text = .error e := by
  obtain ⟨hresult, hstore⟩ := Session.runTokens_eq fuel frame s none (ofString text)
  rw [Option.or_none] at hresult
  refine ⟨⟨hresult, hstore⟩, ?_, ?_, ?_⟩
  · intro exp e h
    exact Session.ofEvaluation_of_eval h
  · intro stream e h
    rw [readNext_result] at h
    exact ofReading_of_readFrom h
  · intro e hending hincomplete
    have hread : readAll text = _ := readData_eq_deliveries (ofString text)
    rw [Session.run, hresult] at hending
    dsimp only at hending
    cases hstopped : (s.evalInOrder fuel frame (ofString text).deliveries.1).2.1 with
    | some ending =>
      rw [hstopped, Option.getD_some] at hending
      rw [hending] at hstopped
      rw [(Session.ofEvaluation_of_evalInOrder hstopped).isIncomplete_eq] at hincomplete
      cases hincomplete
    | none =>
      rw [hstopped, Option.getD_none] at hending
      rw [hread]
      cases hfailure : (ofString text).deliveries.2 with
      | none =>
        rw [hfailure] at hending
        cases hending
      | some e' =>
        rw [hfailure] at hending
        cases hending
        rfl

theorem ofString_leftParen : ofString "(" = ⟨[⟨.leftParen, ⟨{}, 1⟩⟩], ⟨1, 1, 2⟩⟩ := by
  show scanFrom [] {} ['('] = _
  rw [scanFrom]
  show scanFrom _ _ [] = _
  rw [scanFrom]
  rfl

/-- A name that nothing binds and a list that is left open, in a program without a frame. -/
theorem openList_read_first :
    (⟨.unboundSymbol "X", none⟩ : Error).OfEvaluation ∧
      (⟨.endOfInput, some ⟨⟨1, 1, 2⟩, 0⟩⟩ : Error).OfReading ∧
      readAll "(" = .error ⟨.endOfInput, some ⟨⟨1, 1, 2⟩, 0⟩⟩ := by
  obtain ⟨-, heval, hread, hawaits⟩ := run_reads_first 1 ⟨{}, .initial .off⟩ "(" 0
  refine ⟨?_, ?_, ?_⟩
  · refine heval (.symbol ⟨"X"⟩) _ ?_
    have hlookup : Store.lookup {} 0 ⟨"X"⟩ = .error ⟨.unboundSymbol "X", none⟩ := by
      rw [Store.lookup, Store.get?]
      rfl
    show (State.run _ 1 _ _).2.1 = _
    simp [State.run, State.start, State.step, Stack.eval, hlookup]
  · refine hread (ofString "(") _ ?_
    rw [ofString_leftParen]
    rfl
  · refine hawaits _ ?_ rfl
    rw [Session.run, Session.runTokens_step, ofString_leftParen]
    rfl

end SmallScheme
