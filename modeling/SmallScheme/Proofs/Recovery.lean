import SmallScheme.Proofs.Descent
import SmallScheme.Proofs.Tiling

/-!
# Reading on after a failure

`reader_recovers`: a reader that has been asked for data, any number of times and whatever came of it, is a
new reader of the text that is left.

1. A text that begins at a place has its tokens moved there (`scanFrom_translate`), and a reader of moved
   tokens does the same as before, at moved places, events included (`TokenStream.readNext_translate`).
2. What a call leaves is a stream of the text behind some characters, and behind at least one if it has
   found anything (`readNext_rest_scanFrom`). This carries over to any number of calls
   (`exists_afterCalls_eq`).
3. A call takes tokens from the front of the stream, one after the other (`TokenStream.scannedBy_readNext`).
-/

namespace SmallScheme

open TokenStream

/-! ## Places in a text that begins elsewhere -/

namespace Position

/-- A place of a text, when the text begins at `p`. Only the first line of it begins within a line. -/
def translate (p q : Position) : Position :=
  ⟨p.offset + q.offset, p.line + (q.line - 1),
    if q.line = 1 then p.column + (q.column - 1) else q.column⟩

/-- Lines and columns are counted from 1. -/
def Counted (p : Position) : Prop := 1 ≤ p.line ∧ 1 ≤ p.column

theorem Counted.advance {p : Position} (h : p.Counted) (c : Char) : (p.advance c).Counted := by
  unfold Counted Position.advance at *
  split_ifs
  · exact ⟨by simp, Nat.le_refl 1⟩
  · exact ⟨h.1, by simp⟩

theorem Counted.after {p : Position} (h : p.Counted) (cs : List Char) : (p.after cs).Counted := by
  induction cs generalizing p with
  | nil => exact h
  | cons c cs ih => exact ih (h.advance c)

theorem counted_start : ({} : Position).Counted := ⟨Nat.le_refl 1, Nat.le_refl 1⟩

@[simp] theorem translate_start (p : Position) : p.translate {} = p := by
  simp [translate]

theorem advance_translate (p : Position) {q : Position} (h : q.Counted) (c : Char) :
    (p.translate q).advance c = p.translate (q.advance c) := by
  obtain ⟨hline, hcolumn⟩ := h
  by_cases hc : c = '\n'
  · simp only [translate, advance, if_pos hc, mk.injEq]
    refine ⟨by omega, by omega, ?_⟩
    rw [if_neg (by omega)]
  · simp only [translate, advance, if_neg hc, mk.injEq]
    refine ⟨by omega, trivial, ?_⟩
    by_cases hq : q.line = 1
    · rw [if_pos hq, if_pos hq]
      omega
    · rw [if_neg hq, if_neg hq]

theorem after_translate (p : Position) {q : Position} (h : q.Counted) (cs : List Char) :
    (p.translate q).after cs = p.translate (q.after cs) := by
  induction cs generalizing q with
  | nil => rfl
  | cons c cs ih => rw [after_cons, after_cons, advance_translate p h c, ih (h.advance c)]

end Position

/-- A span of a text, when the text begins at `p`. -/
def Span.translate (p : Position) (s : Span) : Span := ⟨p.translate s.start, s.length⟩

theorem Span.merge_translate (p : Position) (a b : Span) :
    (a.translate p).merge (b.translate p) = (a.merge b).translate p := by
  have hlength : p.offset + b.start.offset + b.length - (p.offset + a.start.offset) =
      b.start.offset + b.length - a.start.offset := by omega
  exact congrArg (Span.mk (p.translate a.start)) hlength

/-- The tokens of a text that begins at `p`, given by those of the text on its own. -/
def TokenStream.translate (p : Position) (s : TokenStream) : TokenStream :=
  ⟨s.tokens.map (Token.mapSpan (Span.translate p)), p.translate s.stop⟩

theorem tokensAt_translate (p : Position) {q : Position} (h : q.Counted) (cs : List Char) :
    tokensAt (p.translate q) cs = (tokensAt q cs).map (Token.mapSpan (Span.translate p)) := by
  induction q, cs using placed.induct with
  | case1 q => rw [tokensAt_nil, tokensAt_nil, List.map_nil]
  | case2 q c cs ih =>
    rw [tokensAt_cons, tokensAt_cons, Position.after_translate p h, ih (h.after _), List.map_cons]
    rfl

theorem scanFrom_translate (p : Position) (cs : List Char) :
    scanFrom [] p cs = (ofString (String.ofList cs)).translate p := by
  have htokens := tokensAt_translate p Position.counted_start cs
  have hstop := Position.after_translate p Position.counted_start cs
  rw [Position.translate_start] at htokens hstop
  rw [ofString, String.toList_ofList, scanFrom_eq, scanFrom_eq, TokenStream.translate, htokens,
    hstop]

/-! ## A reader of moved tokens -/

/-- An event with its place moved. -/
def ReadEvent.mapSpan (f : Span → Span) : ReadEvent → ReadEvent
  | scanned lexeme => scanned lexeme
  | interned s => interned s
  | listRead length span => listRead length (f span)

/-- What a reader does, when the text begins at `p`. -/
def ReadStep.translate (p : Position) (step : ReadStep) : ReadStep :=
  ⟨step.result.mapSpan (Span.translate p), step.events.map (ReadEvent.mapSpan (Span.translate p)),
    step.rest.translate p⟩

section

variable (p : Position)

namespace Reading

theorem deliver_fst_translate (events : List ReadEvent) (d : Datum) (contexts : List Context) :
    (deliver (events.map (ReadEvent.mapSpan (Span.translate p))) d
        (contexts.map (Context.mapSpan (Span.translate p)))).1 =
      (deliver events d contexts).1.map (ReadEvent.mapSpan (Span.translate p)) := by
  induction contexts generalizing events d with
  | nil => rfl
  | cons context outer ih =>
    cases context with
    | quote => exact ih (.interned Datum.quoteSymbol :: events) d.quote
    | _ => rfl

theorem close_fst_translate (events : List ReadEvent) (span : Span) (contexts : List Context) :
    (close (events.map (ReadEvent.mapSpan (Span.translate p))) (span.translate p)
        (contexts.map (Context.mapSpan (Span.translate p)))).1 =
      (close events span contexts).1.map (ReadEvent.mapSpan (Span.translate p)) := by
  match contexts with
  | [] | .quote :: _ | .dotted .. :: _ => rfl
  | .items start found :: outer =>
    rw [close, ← deliver_fst_translate, List.map_cons, List.map_cons, Context.mapSpan, close,
      Span.merge_translate]
    rfl
  | .tailed found dot tail :: outer => exact deliver_fst_translate p events _ outer

theorem take_fst_translate (events : List ReadEvent) (contexts : List Context) (t : Token) :
    (take (events.map (ReadEvent.mapSpan (Span.translate p)))
        (contexts.map (Context.mapSpan (Span.translate p))) (t.mapSpan (Span.translate p))).1 =
      (take events contexts t).1.map (ReadEvent.mapSpan (Span.translate p)) := by
  obtain ⟨lexeme, span⟩ := t
  cases lexeme with
  | rightParen => exact close_fst_translate p (.scanned .rightParen :: events) span contexts
  | symbol name =>
    exact deliver_fst_translate p (.interned (.ofName name) :: .scanned (.symbol name) :: events) _
      contexts
  | string text => exact deliver_fst_translate p (.scanned (.string text) :: events) _ contexts
  | boolean value => exact deliver_fst_translate p (.scanned (.boolean value) :: events) _ contexts
  | number text =>
    simp only [take, Token.mapSpan]
    cases Decimal.number? text with
    | none => rfl
    | some x => exact deliver_fst_translate p (.scanned (.number text) :: events) _ contexts
  | _ => rfl

/-- Taking a moved token. -/
theorem take_translate (events : List ReadEvent) (contexts : List Context) (t : Token) :
    take (events.map (ReadEvent.mapSpan (Span.translate p)))
        (contexts.map (Context.mapSpan (Span.translate p))) (t.mapSpan (Span.translate p)) =
      ((take events contexts t).1.map (ReadEvent.mapSpan (Span.translate p)),
        (take events contexts t).2.mapSpan (Span.translate p)) := by
  ext : 1
  · exact take_fst_translate p events contexts t
  · rw [take_snd, next_mapSpan, take_snd]

end Reading

namespace TokenStream

theorem readWithin_translate (stop : Position) (events : List ReadEvent) (contexts : List Context)
    (tokens : List Token) :
    readWithin (p.translate stop) (events.map (ReadEvent.mapSpan (Span.translate p)))
        (contexts.map (Context.mapSpan (Span.translate p)))
        (tokens.map (Token.mapSpan (Span.translate p))) =
      (readWithin stop events contexts tokens).translate p := by
  induction tokens generalizing events contexts with
  | nil =>
    simp only [readWithin, List.map_nil, List.isEmpty_map, ReadStep.translate, List.map_reverse,
      ReadStep.mk.injEq]
    refine ⟨?_, rfl, rfl⟩
    split <;> rfl
  | cons t tokens ih =>
    rw [List.map_cons, readWithin, readWithin, Reading.take_translate]
    rcases Reading.take events contexts t with ⟨events', contexts' | d | e⟩
    · exact ih events' contexts'
    · simp only [Reading.mapSpan, ReadStep.translate, List.map_reverse]
      rfl
    · simp only [Reading.mapSpan, ReadStep.translate, List.map_reverse]
      rfl

/-- **A reader of moved tokens** does what it does with the tokens, at moved places. -/
theorem readNext_translate (s : TokenStream) : (s.translate p).readNext = s.readNext.translate p :=
  readWithin_translate p s.stop [] [] s.tokens

end TokenStream

end

/-! ## What a call leaves -/

/-- The tokens behind some tokens of a text are those of the text behind the characters of these. -/
theorem exists_tokensAt_eq {p : Position} {cs : List Char} {taken rest : List Token}
    (h : tokensAt p cs = taken ++ rest) :
    ∃ used remaining, cs = used ++ remaining ∧ rest = tokensAt (p.after used) remaining ∧
      taken.length ≤ used.length := by
  obtain ⟨used, remaining, hcs, htaken, hrest⟩ := exists_tokensAt_append h
  refine ⟨used, remaining, hcs, hrest.symm, ?_⟩
  rw [← htaken]
  exact length_tokensAt_le p used

/-- A call that is given a token takes it. -/
theorem readFrom_cons_suffix (stop : Position) (contexts : List Context) (t : Token)
    (tokens : List Token) : ∃ taken, tokens = taken ++ (readFrom stop contexts (t :: tokens)).2 := by
  rw [readFrom_cons]
  cases Reading.next contexts t with
  | pending contexts' => exact readFrom_suffix stop contexts' tokens
  | complete d => exact ⟨[], rfl⟩
  | failed e => exact ⟨[], rfl⟩

/-- What is left by a call is a stream of the text that is left, behind at least one character if there was
anything to take. -/
theorem readNext_rest_scanFrom (p : Position) (cs : List Char) :
    ∃ taken remaining, cs = taken ++ remaining ∧
      (scanFrom [] p cs).readNext.rest = scanFrom [] (p.after taken) remaining ∧
      (cs ≠ [] → taken ≠ []) := by
  have hstop : (scanFrom [] p cs).stop = p.after cs := stop_scanFrom [] p cs
  have hrest := readNext_rest (scanFrom [] p cs)
  have hread : ∃ used, tokensAt p cs = used ++ (scanFrom [] p cs).readNext.rest.tokens ∧
      (cs ≠ [] → used ≠ []) := by
    rw [hrest]
    cases cs with
    | nil =>
      rw [scanFrom_eq, tokensAt_nil]
      exact ⟨[], rfl, fun h => absurd rfl h⟩
    | cons c cs =>
      show ∃ used, _ = used ++ (readFrom _ _ (tokensAt p (c :: cs))).2 ∧ _
      rw [tokensAt_cons]
      obtain ⟨used, hused⟩ := readFrom_cons_suffix (scanFrom [] p (c :: cs)).stop []
        ⟨(Found.first c cs).lexeme, ⟨p, (Found.first c cs).written.length⟩⟩
        (tokensAt (p.after (Found.first c cs).written) (Found.first c cs).rest)
      exact ⟨_ :: used, congrArg (List.cons _) hused, fun _ => List.cons_ne_nil _ _⟩
  obtain ⟨used, htokens, hne⟩ := hread
  obtain ⟨taken, remaining, rfl, hremaining, hle⟩ := exists_tokensAt_eq htokens
  refine ⟨taken, remaining, rfl, ?_, ?_⟩
  · rw [scanFrom_eq (p.after taken), ← hremaining, ← Position.after_append, ← hstop, hrest]
  · intro h
    have := List.length_pos_iff.mpr (hne h)
    exact List.ne_nil_of_length_pos (by omega)

namespace TokenStream

theorem readNext_of_tokens_nil {s : TokenStream} (h : s.tokens = []) :
    s.readNext.result = .exhausted ∧ s.readNext.rest.tokens = [] := by
  rw [readNext_result, readNext_rest, h]
  exact ⟨rfl, rfl⟩

/-- At the end of the input nothing is left. -/
theorem tokens_of_exhausted {s : TokenStream} (h : s.readNext.result = .exhausted) :
    s.readNext.rest.tokens = [] := by
  rw [readNext_result] at h
  have hblank := (Opened.nil.exhausted (Prod.ext h rfl)).2
  rw [readNext_rest, readFrom_of_lexemes_nil s.stop hblank]

/-- Every call takes a token, unless there is none. -/
theorem length_readNext_rest (s : TokenStream) :
    s.readNext.rest.tokens.length ≤ s.tokens.length - 1 := by
  rw [readNext_rest]
  cases hs : s.tokens with
  | nil => exact Nat.le_refl 0
  | cons t tokens =>
    obtain ⟨taken, htaken⟩ := readFrom_cons_suffix s.stop [] t tokens
    have hlength := congrArg List.length htaken
    rw [List.length_append] at hlength
    rw [List.length_cons]
    dsimp only
    omega

end TokenStream

/-! ## The tokens that are pulled -/

/-- The lexeme of the token that was pulled, if the event says so. -/
def ReadEvent.scanned? : ReadEvent → Option Lexeme
  | scanned lexeme => some lexeme
  | _ => none

/-- The lexemes of the tokens that were pulled, by the events. -/
def scannedBy (events : List ReadEvent) : List Lexeme := events.filterMap ReadEvent.scanned?

namespace Reading

/-- To hand a datum over is noted in symbols at most. -/
theorem filterMap_deliver {α : Type} {f : ReadEvent → Option α} (hf : ∀ s, f (.interned s) = none)
    (events : List ReadEvent) (d : Datum) (contexts : List Context) :
    (deliver events d contexts).1.filterMap f = events.filterMap f := by
  induction contexts generalizing events d with
  | nil => rfl
  | cons context outer ih =>
    cases context with
    | quote => rw [deliver, ih, List.filterMap_cons_none (hf _)]
    | _ => rfl

theorem scannedBy_deliver (events : List ReadEvent) (d : Datum) (contexts : List Context) :
    scannedBy (deliver events d contexts).1 = scannedBy events :=
  filterMap_deliver (fun _ => rfl) events d contexts

theorem scannedBy_close (events : List ReadEvent) (span : Span) (contexts : List Context) :
    scannedBy (close events span contexts).1 = scannedBy events := by
  match contexts with
  | [] | .quote :: _ | .dotted .. :: _ => rfl
  | .items start found :: outer => exact scannedBy_deliver _ _ _
  | .tailed found dot tail :: outer => exact scannedBy_deliver _ _ _

/-- Taking a token is noted once. -/
theorem scannedBy_take (events : List ReadEvent) (contexts : List Context) (t : Token) :
    scannedBy (take events contexts t).1 = t.lexeme :: scannedBy events := by
  obtain ⟨lexeme, span⟩ := t
  cases lexeme with
  | rightParen => exact scannedBy_close _ _ _
  | symbol name => exact scannedBy_deliver _ _ _
  | string text => exact scannedBy_deliver _ _ _
  | boolean value => exact scannedBy_deliver _ _ _
  | number text =>
    simp only [take]
    cases Decimal.number? text with
    | none => rfl
    | some x => exact scannedBy_deliver _ _ _
  | _ => rfl

end Reading

namespace TokenStream

theorem scannedBy_readWithin (stop : Position) (events : List ReadEvent) (contexts : List Context)
    (tokens : List Token) :
    ∃ k, scannedBy (readWithin stop events contexts tokens).events =
        (scannedBy events).reverse ++ ((⟨tokens, stop⟩ : TokenStream).pulled k).map Token.lexeme ∧
      (readWithin stop events contexts tokens).rest = (⟨tokens, stop⟩ : TokenStream).skip k := by
  induction tokens generalizing events contexts with
  | nil =>
    refine ⟨1, ?_, rfl⟩
    simp [readWithin, scannedBy, pulled, pull, endToken, ReadEvent.scanned?, List.filterMap_reverse]
  | cons t tokens ih =>
    have hscanned := Reading.scannedBy_take events contexts t
    rw [readWithin]
    rcases htake : Reading.take events contexts t with ⟨events', contexts' | d | e⟩
    · rw [htake] at hscanned
      obtain ⟨k, hk, hrest⟩ := ih events' contexts'
      refine ⟨k + 1, ?_, hrest⟩
      dsimp only at hscanned ⊢
      rw [hk, hscanned]
      simp [pulled, pull]
    · rw [htake] at hscanned
      refine ⟨1, ?_, rfl⟩
      dsimp only at hscanned ⊢
      rw [scannedBy, List.filterMap_reverse, ← scannedBy, hscanned]
      simp [pulled, pull]
    · rw [htake] at hscanned
      refine ⟨1, ?_, rfl⟩
      dsimp only at hscanned ⊢
      rw [scannedBy, List.filterMap_reverse, ← scannedBy, hscanned]
      simp [pulled, pull]

/-- A call pulls tokens from the front of the stream, and leaves those behind them. -/
theorem scannedBy_readNext (s : TokenStream) :
    ∃ k, scannedBy s.readNext.events = (s.pulled k).map Token.lexeme ∧ s.readNext.rest = s.skip k :=
  scannedBy_readWithin s.stop [] [] s.tokens

theorem pulled_add (s : TokenStream) (j k : Nat) :
    s.pulled (j + k) = s.pulled j ++ (s.skip j).pulled k := by
  induction j generalizing s with
  | zero => rw [Nat.zero_add]; rfl
  | succ j ih => rw [Nat.succ_add, pulled, ih]; rfl

theorem skip_add (s : TokenStream) (j k : Nat) : s.skip (j + k) = (s.skip j).skip k := by
  induction j generalizing s with
  | zero => rw [Nat.zero_add]; rfl
  | succ j ih => rw [Nat.succ_add, skip, ih]; rfl

end TokenStream

/-! ## Calls -/

/-- The two ways to ask a reader for a datum. -/
inductive Call where
  /-- The datum is needed: the end of the input is a failure. -/
  | read
  /-- The end of the input is an answer like others. -/
  | readNext

/-- What a reader answers. -/
inductive Answer where
  | read (result : Except Error Datum)
  | readNext (result : ReadResult)

/-- The answer to a call, by what was found. -/
def Call.answer : Call → ReadResult → Answer
  | read, result => .read result.required
  | readNext, result => .readNext result

/-- An answer with its place moved. -/
def Answer.mapSpan (f : Span → Span) : Answer → Answer
  | read result => read (result.mapError (Error.mapSpan f))
  | readNext result => readNext (result.mapSpan f)

theorem Call.answer_mapSpan (f : Span → Span) (call : Call) (result : ReadResult) :
    call.answer (result.mapSpan f) = (call.answer result).mapSpan f := by
  cases call <;> cases result <;> rfl

/-- What a reader does when it is called. -/
structure Reply where
  answer : Answer
  events : List ReadEvent
  /-- The tokens not taken. -/
  rest : TokenStream

/-- What a reader does when it is called and the text begins at `p`. -/
def Reply.translate (p : Position) (reply : Reply) : Reply :=
  ⟨reply.answer.mapSpan (Span.translate p), reply.events.map (ReadEvent.mapSpan (Span.translate p)),
    reply.rest.translate p⟩

namespace TokenStream

/-- Answers a call. -/
def serve (s : TokenStream) (call : Call) : Reply :=
  ⟨call.answer s.readNext.result, s.readNext.events, s.readNext.rest⟩

/-- Answers calls one after the other. -/
def serveAll (s : TokenStream) : List Call → List Reply
  | [] => []
  | call :: calls => s.serve call :: (s.serve call).rest.serveAll calls

/-- The stream that calls leave. -/
def afterCalls (s : TokenStream) : List Call → TokenStream
  | [] => s
  | call :: calls => (s.serve call).rest.afterCalls calls

theorem serve_translate (p : Position) (s : TokenStream) (call : Call) :
    (s.translate p).serve call = (s.serve call).translate p := by
  rw [serve, readNext_translate, serve, Reply.translate]
  simp only [ReadStep.translate, Call.answer_mapSpan]

/-- All calls together pull tokens from the front of the stream, and leave those behind them. -/
theorem scannedBy_serveAll (s : TokenStream) (calls : List Call) :
    ∃ k, scannedBy ((s.serveAll calls).flatMap Reply.events) = (s.pulled k).map Token.lexeme ∧
      s.afterCalls calls = s.skip k := by
  induction calls generalizing s with
  | nil => exact ⟨0, rfl, rfl⟩
  | cons call calls ih =>
    obtain ⟨j, hj, hskip⟩ := scannedBy_readNext s
    obtain ⟨k, hk, hrest⟩ := ih (s.serve call).rest
    have hserved : (s.serve call).rest = s.skip j := hskip
    rw [hserved] at hk hrest
    refine ⟨j + k, ?_, ?_⟩
    · rw [serveAll, List.flatMap_cons, scannedBy, List.filterMap_append, pulled_add, List.map_append,
        ← hj, ← hk, hserved]
      rfl
    · rw [afterCalls, skip_add, hserved, hrest]

/-- Every call takes a token while there is one, so that none is left after as many calls. -/
theorem length_afterCalls (s : TokenStream) (calls : List Call) :
    (s.afterCalls calls).tokens.length ≤ s.tokens.length - calls.length := by
  induction calls generalizing s with
  | nil => exact Nat.le_refl _
  | cons call calls ih =>
    have hfirst : (s.serve call).rest.tokens.length ≤ s.tokens.length - 1 := length_readNext_rest s
    have hothers := ih (s.serve call).rest
    rw [afterCalls, List.length_cons]
    omega

theorem afterCalls_of_tokens_nil {s : TokenStream} (h : s.tokens = []) (calls : List Call) :
    (s.afterCalls calls).tokens = [] := by
  have hle := length_afterCalls s calls
  rw [h, List.length_nil, Nat.zero_sub] at hle
  exact List.eq_nil_of_length_eq_zero (by omega)

/-- Behind the end of the input there is nothing but the end. -/
theorem exhausted_afterCalls {s : TokenStream} (h : s.readNext.result = .exhausted)
    (calls : List Call) : (s.afterCalls calls).readNext.result = .exhausted := by
  cases calls with
  | nil => exact h
  | cons call calls =>
    exact (readNext_of_tokens_nil (afterCalls_of_tokens_nil (tokens_of_exhausted h) calls)).1

end TokenStream

/-- What calls leave is a stream of the text that is left. -/
theorem exists_afterCalls_eq (p : Position) (cs : List Char) (calls : List Call) :
    ∃ used remaining, cs = used ++ remaining ∧
      (scanFrom [] p cs).afterCalls calls = scanFrom [] (p.after used) remaining := by
  induction calls generalizing p cs with
  | nil => exact ⟨[], cs, rfl, rfl⟩
  | cons call calls ih =>
    obtain ⟨taken, left, rfl, hrest, -⟩ := readNext_rest_scanFrom p cs
    obtain ⟨used, remaining, rfl, hafter⟩ := ih (p.after taken) left
    refine ⟨taken ++ used, remaining, (List.append_assoc ..).symm, ?_⟩
    have hserved : ((scanFrom [] p (taken ++ (used ++ remaining))).serve call).rest = _ := hrest
    rw [afterCalls, hserved, hafter, Position.after_append]

/-! ## Recovery -/

/-- A reader of a text has answered calls, with these characters of the text used and those remaining. -/
structure Recovered (text : String) (calls : List Call) (used remaining : List Char) : Prop where
  /-- The reader stands behind the characters used. -/
  split : text.toList = used ++ remaining
  stream : (ofString text).afterCalls calls = scanFrom [] (({} : Position).after used) remaining
  /-- It answers as a new reader of the remaining text does, at places moved behind the characters used. -/
  fresh : ∀ call, ((ofString text).afterCalls calls).serve call =
    ((ofString (String.ofList remaining)).serve call).translate (({} : Position).after used)
  /-- The tokens pulled so far are the first of the text, and no others have been left out. -/
  pulled : ∃ k, scannedBy (((ofString text).serveAll calls).flatMap Reply.events) =
      ((ofString text).pulled k).map Token.lexeme ∧
    (ofString text).afterCalls calls = (ofString text).skip k
  /-- A call that finds something begins and ends with the counter of open lists and quotes at 0. -/
  descends : ((ofString text).afterCalls calls).readNext.result ≠ .exhausted →
    ∃ item, ((ofString text).afterCalls calls).readNext.result = .ofItem item ∧
      Descends ((ofString text).afterCalls calls).stop .item 0
        ((ofString text).afterCalls calls).tokens item 0
        ((ofString text).afterCalls calls).readNext.rest.tokens
  /-- It takes up at least one character. -/
  consumes : ((ofString text).afterCalls calls).readNext.result ≠ .exhausted →
    ∃ taken left, taken ≠ [] ∧ remaining = taken ++ left ∧
      ((ofString text).afterCalls calls).readNext.rest =
        scanFrom [] (({} : Position).after (used ++ taken)) left
  /-- So the end is found after as many calls as there are characters, and found again from then on. -/
  exhausts : text.length ≤ calls.length →
    ((ofString text).afterCalls calls).readNext.result = .exhausted
  stays : ((ofString text).afterCalls calls).readNext.result = .exhausted → ∀ more,
    (((ofString text).afterCalls calls).afterCalls more).readNext.result = .exhausted

/-- **Reading on.** Whatever a reader has been asked and has answered, it goes on as a new reader of the text
that remains. The counter of open lists and quotes is back at its value behind every nested reading, failed or
not. -/
theorem reader_recovers (text : String) (calls : List Call) :
    (∃ used remaining, Recovered text calls used remaining) ∧
      ∀ stop goal n tokens item n' rest, Descends stop goal n tokens item n' rest → n' = n := by
  refine ⟨?_, fun stop goal n tokens item n' rest h => h.depth_eq⟩
  obtain ⟨used, remaining, hsplit, hstream⟩ := exists_afterCalls_eq {} text.toList calls
  have hstream : (ofString text).afterCalls calls = _ := hstream
  refine ⟨used, remaining, hsplit, hstream, ?_, scannedBy_serveAll _ calls, ?_, ?_, ?_,
    exhausted_afterCalls⟩
  · intro call
    rw [hstream, scanFrom_translate, serve_translate]
  · intro hfound
    obtain ⟨item, hdescends, hresult⟩ := readNext_descends hfound
    exact ⟨item, hresult, hdescends⟩
  · intro hfound
    rw [hstream] at hfound ⊢
    obtain ⟨taken, left, hremaining, hrest, htaken⟩ :=
      readNext_rest_scanFrom (({} : Position).after used) remaining
    refine ⟨taken, left, htaken ?_, hremaining, ?_⟩
    · rintro rfl
      exact hfound (readNext_of_tokens_nil (tokensAt_nil _)).1
    · rw [hrest, Position.after_append]
  · intro hle
    have htokens := length_tokensAt_le {} text.toList
    have hlength := length_afterCalls (ofString text) calls
    have hofString : (ofString text).tokens = tokensAt {} text.toList := rfl
    rw [hofString] at hlength
    rw [String.length_toList] at htokens
    exact (readNext_of_tokens_nil (List.eq_nil_of_length_eq_zero (by omega))).1

theorem afterCalls_closeParen :
    (ofString ")(").afterCalls [.readNext] = ⟨[⟨.leftParen, ⟨⟨1, 1, 2⟩, 1⟩⟩], ⟨2, 1, 3⟩⟩ := by
  have htokens : (ofString ")(").tokens = [⟨.rightParen, ⟨{}, 1⟩⟩, ⟨.leftParen, ⟨⟨1, 1, 2⟩, 1⟩⟩] := by
    show tokensAt {} [')', '('] = _
    rw [tokensAt_cons]
    show _ :: tokensAt _ ['('] = _
    rw [tokensAt_cons]
    show _ :: _ :: tokensAt _ [] = _
    rw [tokensAt_nil]
    rfl
  have hstop : (ofString ")(").stop = ⟨2, 1, 3⟩ := stop_scanFrom [] {} [')', '(']
  show (ofString ")(").readNext.rest = _
  rw [readNext_rest, htokens, hstop]
  rfl

/-- Behind a parenthesis that closes nothing, a list begins: the reader descends into it, and the end of the
text is all that it finds there. -/
theorem openList_behind_closeParen :
    ((ofString ")(").afterCalls [.readNext]).readNext.result =
        .failed ⟨.endOfInput, some ⟨⟨2, 1, 3⟩, 0⟩⟩ ∧
      ∃ item n', Descends ⟨2, 1, 3⟩ .item 0 [⟨.leftParen, ⟨⟨1, 1, 2⟩, 1⟩⟩] item n' [] ∧ n' = 0 := by
  have hresult : ((ofString ")(").afterCalls [.readNext]).readNext.result =
      .failed ⟨.endOfInput, some ⟨⟨2, 1, 3⟩, 0⟩⟩ := by
    rw [afterCalls_closeParen]
    rfl
  refine ⟨hresult, ?_⟩
  obtain ⟨⟨used, remaining, hrecovered⟩, hcounter⟩ := reader_recovers ")(" [.readNext]
  have hfound : ((ofString ")(").afterCalls [.readNext]).readNext.result ≠ .exhausted := by
    rw [hresult]
    exact ReadResult.noConfusion
  obtain ⟨item, -, hdescends⟩ := hrecovered.descends hfound
  rw [afterCalls_closeParen] at hdescends
  exact ⟨item, 0, hdescends, hcounter _ _ _ _ _ _ _ hdescends⟩

end SmallScheme
