import Mathlib.Data.List.Basic
import SmallScheme.Datum.Reader

/-!
# What reading depends on

Reading is studied here without the events that it reports. `Reading.next` is what one token does; its cases
are those of `Reading.next_cases`. `readFrom` is the loop of the reader on a list of tokens, `readData` all
data of a token stream. Neither depends on what was observed before (`readWithin_eq`, `readAllFrom_snd`) or on
white space and comments (`readFrom_significant`, `readData_significant`), and when all tokens are moved the
failures move with them (`readFrom_mapSpan`, `readData_mapSpan`).
-/

namespace SmallScheme

/-! ## Reading without events -/

/-- The datum that a lexeme is by itself, or what is wrong with it. Other lexemes only mark the beginning,
the end or the dot of something, or separate others. -/
def Lexeme.atom? : Lexeme → Option (Except Fault Datum)
  | symbol name => some (.ok (.symbol (.ofName name)))
  | string text => some (.ok (.atom (.string text)))
  | boolean value => some (.ok (.atom (.boolean value)))
  | number text =>
    some (match Decimal.number? text with
      | some x => .ok (.atom (.number x))
      | none => .error (.invalidNumber text))
  | illegal detail => some (.error (.lexical detail))
  | endOfText => some (.error .endOfInput)
  | _ => none

namespace Reading

/-- The reading after one token, whatever was observed before. -/
def next (contexts : List Context) (t : Token) : Reading := (take [] contexts t).2

theorem deliver_snd (events : List ReadEvent) (d : Datum) (contexts : List Context) :
    (deliver events d contexts).2 = (deliver [] d contexts).2 := by
  induction contexts generalizing events d with
  | nil => rfl
  | cons context outer ih =>
    cases context with
    | quote => rw [deliver, deliver, ih, ih [_]]
    | _ => rfl

theorem close_snd (events : List ReadEvent) (span : Span) (contexts : List Context) :
    (close events span contexts).2 = (close [] span contexts).2 := by
  match contexts with
  | [] | .quote :: _ | .dotted .. :: _ => rfl
  | .items start found :: outer => rw [close, close, deliver_snd, deliver_snd [_]]
  | .tailed found dot tail :: outer => rw [close, close, deliver_snd]

theorem take_snd (events : List ReadEvent) (contexts : List Context) (t : Token) :
    (take events contexts t).2 = next contexts t := by
  obtain ⟨lexeme, span⟩ := t
  cases lexeme with
  | rightParen => exact (close_snd _ _ _).trans (close_snd _ _ _).symm
  | symbol name => exact (deliver_snd _ _ _).trans (deliver_snd _ _ _).symm
  | string text => exact (deliver_snd _ _ _).trans (deliver_snd _ _ _).symm
  | boolean value => exact (deliver_snd _ _ _).trans (deliver_snd _ _ _).symm
  | number text =>
    simp only [next, take]
    cases Decimal.number? text with
    | none => rfl
    | some x => exact (deliver_snd _ _ _).trans (deliver_snd _ _ _).symm
  | _ => rfl

section Next

variable (contexts : List Context) (span : Span)

theorem next_leftParen :
    next contexts ⟨.leftParen, span⟩ = enter (.items span []) span contexts := rfl

theorem next_rightParen : next contexts ⟨.rightParen, span⟩ = (close [] span contexts).2 :=
  close_snd _ _ _

theorem next_quote : next contexts ⟨.quote, span⟩ = enter .quote span contexts := rfl

theorem next_dot : next contexts ⟨.dot, span⟩ = dot span contexts := rfl

theorem next_symbol (name : String) :
    next contexts ⟨.symbol name, span⟩ = (deliver [] (.symbol (.ofName name)) contexts).2 :=
  deliver_snd _ _ _

theorem next_string (text : String) :
    next contexts ⟨.string text, span⟩ = (deliver [] (.atom (.string text)) contexts).2 :=
  deliver_snd _ _ _

theorem next_boolean (value : Bool) :
    next contexts ⟨.boolean value, span⟩ = (deliver [] (.atom (.boolean value)) contexts).2 :=
  deliver_snd _ _ _

theorem next_number (text : String) :
    next contexts ⟨.number text, span⟩ =
      match Decimal.number? text with
      | some x => (deliver [] (.atom (.number x)) contexts).2
      | none => failAt (.invalidNumber text) span := by
  simp only [next, take]
  cases Decimal.number? text with
  | none => rfl
  | some x => exact deliver_snd _ _ _

/-- White space and comments change nothing. -/
theorem next_separator {t : Token} (h : t.lexeme.isSeparator = true) :
    next contexts t = .pending contexts := by
  obtain ⟨lexeme, span⟩ := t
  cases lexeme with
  | blank text => rfl
  | comment text => rfl
  | _ => cases h

theorem next_atom {t : Token} {d : Datum} (h : t.lexeme.atom? = some (.ok d)) :
    next contexts t = (deliver [] d contexts).2 := by
  obtain ⟨lexeme, span⟩ := t
  cases lexeme with
  | symbol name =>
    cases h
    exact next_symbol contexts span name
  | string text =>
    cases h
    exact next_string contexts span text
  | boolean value =>
    cases h
    exact next_boolean contexts span value
  | number text =>
    simp only [Lexeme.atom?, Option.some.injEq] at h
    rw [next_number]
    cases hx : Decimal.number? text with
    | none =>
      rw [hx] at h
      cases h
    | some x =>
      rw [hx] at h
      cases h
      rfl
  | _ => cases h

theorem next_fault {t : Token} {fault : Fault} (h : t.lexeme.atom? = some (.error fault)) :
    next contexts t = failAt fault t.span := by
  obtain ⟨lexeme, span⟩ := t
  cases lexeme with
  | number text =>
    simp only [Lexeme.atom?, Option.some.injEq] at h
    rw [next_number]
    cases hx : Decimal.number? text with
    | none =>
      rw [hx] at h
      cases h
      rfl
    | some x =>
      rw [hx] at h
      cases h
  | illegal detail =>
    cases h
    rfl
  | endOfText =>
    cases h
    rfl
  | _ => cases h

end Next

/-- What a token can do to a reading. -/
@[elab_as_elim]
theorem next_cases {contexts : List Context} {motive : Token → Reading → Prop}
    (separator : ∀ t, t.lexeme.isSeparator = true → motive t (pending contexts))
    (atom : ∀ t d, t.lexeme.atom? = some (.ok d) → motive t (deliver [] d contexts).2)
    (fault : ∀ t fault, t.lexeme.atom? = some (.error fault) → motive t (failAt fault t.span))
    (leftParen : ∀ span, motive ⟨.leftParen, span⟩ (enter (.items span []) span contexts))
    (rightParen : ∀ span, motive ⟨.rightParen, span⟩ (close [] span contexts).2)
    (quote : ∀ span, motive ⟨.quote, span⟩ (enter .quote span contexts))
    (dot : ∀ span, motive ⟨.dot, span⟩ (dot span contexts)) (t : Token) : motive t (next contexts t) := by
  cases hatom : t.lexeme.atom? with
  | some result =>
    cases result with
    | ok d =>
      rw [next_atom contexts hatom]
      exact atom t d hatom
    | error e =>
      rw [next_fault contexts hatom]
      exact fault t e hatom
  | none =>
    obtain ⟨lexeme, span⟩ := t
    cases lexeme with
    | blank text => exact separator _ rfl
    | comment text => exact separator _ rfl
    | leftParen => exact leftParen span
    | quote => exact quote span
    | dot => exact dot span
    | rightParen =>
      rw [next_rightParen]
      exact rightParen span
    | _ => cases hatom

end Reading

namespace TokenStream

/-- Goes on reading within open contexts: the result, and the tokens not taken. -/
def readFrom (stop : Position) (contexts : List Context) : List Token → ReadResult × List Token
  | [] => (if contexts.isEmpty then .exhausted else .failed ⟨.endOfInput, some ⟨stop, 0⟩⟩, [])
  | t :: tokens =>
    match Reading.next contexts t with
    | .pending contexts => readFrom stop contexts tokens
    | .complete d => (.datum d, tokens)
    | .failed e => (.failed e, tokens)

theorem readWithin_eq (stop : Position) (events : List ReadEvent) (contexts : List Context)
    (tokens : List Token) :
    (readWithin stop events contexts tokens).result = (readFrom stop contexts tokens).1 ∧
      (readWithin stop events contexts tokens).rest = ⟨(readFrom stop contexts tokens).2, stop⟩ := by
  induction tokens generalizing events contexts with
  | nil => exact ⟨rfl, rfl⟩
  | cons t tokens ih =>
    have h := Reading.take_snd events contexts t
    rw [readWithin, readFrom, ← h]
    rcases Reading.take events contexts t with ⟨events', contexts' | d | e⟩
    · exact ih events' contexts'
    · exact ⟨rfl, rfl⟩
    · exact ⟨rfl, rfl⟩

theorem readNext_result (s : TokenStream) : s.readNext.result = (readFrom s.stop [] s.tokens).1 :=
  (readWithin_eq _ _ _ _).1

theorem readNext_rest (s : TokenStream) :
    s.readNext.rest = ⟨(readFrom s.stop [] s.tokens).2, s.stop⟩ :=
  (readWithin_eq _ _ _ _).2

/-- All data of a token stream, or the first failure. -/
def readData (s : TokenStream) : Except Error (List Datum) := (s.readAllFrom [] []).2

/-- Reading all data reads the next one and goes on behind it. -/
theorem readAllFrom_step (found : List Datum) (events : List ReadEvent) (s : TokenStream) :
    (s.readAllFrom found events).2 =
      match s.readNext.result with
      | .datum d =>
        (s.readNext.rest.readAllFrom (d :: found) (s.readNext.events.reverse ++ events)).2
      | .exhausted => .ok found.reverse
      | .failed e => .error e := by
  rw [readAllFrom]
  split
  · next h => simp only [h]
  · next h => simp only [h]
  · next h => simp only [h]

theorem length_readFrom {stop : Position} {contexts : List Context} {tokens rest : List Token}
    {d : Datum} (h : readFrom stop contexts tokens = (.datum d, rest)) :
    rest.length < tokens.length := by
  have hr := readWithin_eq stop [] contexts tokens
  have := length_readWithin stop [] contexts tokens d (by rw [hr.1, h])
  rwa [hr.2, h] at this

/-- Data read before and events do not matter to what is read. -/
theorem readAllFrom_snd (found : List Datum) (events : List ReadEvent) (s : TokenStream) :
    (s.readAllFrom found events).2 = s.readData.map (found.reverse ++ ·) := by
  induction hn : s.tokens.length using Nat.strongRecOn generalizing found events s with
  | ind n ih =>
  rw [readData, readAllFrom_step, readAllFrom_step]
  cases hr : s.readNext.result with
  | exhausted => simp [Except.map]
  | failed e => rfl
  | datum d =>
    have hlt : s.readNext.rest.tokens.length < n := hn ▸ length_readWithin _ _ _ _ d hr
    simp only [ih _ hlt _ _ _ rfl]
    cases s.readNext.rest.readData <;> simp [Except.map]

/-- All data of a token stream, by the first of them. -/
theorem readData_eq (s : TokenStream) :
    s.readData =
      match readFrom s.stop [] s.tokens with
      | (.datum d, rest) => (readData ⟨rest, s.stop⟩).map (d :: ·)
      | (.exhausted, _) => .ok []
      | (.failed e, _) => .error e := by
  rw [readData, readAllFrom_step, readNext_result, readNext_rest]
  rcases readFrom s.stop [] s.tokens with ⟨d | _ | e, rest⟩
  · exact readAllFrom_snd [d] _ _
  · rfl
  · rfl

/-- Induction over the data of a stream that is read without failure: one after the other, up to the
end. -/
theorem readData_induction {stop : Position} {motive : List Token → List Datum → Prop}
    (exhausted : ∀ tokens rest, readFrom stop [] tokens = (.exhausted, rest) → motive tokens [])
    (datum : ∀ tokens d rest ds, readFrom stop [] tokens = (.datum d, rest) → motive rest ds →
      motive tokens (d :: ds))
    {tokens : List Token} {ds : List Datum} (h : readData ⟨tokens, stop⟩ = .ok ds) :
    motive tokens ds := by
  induction hn : tokens.length using Nat.strongRecOn generalizing tokens ds with
  | ind n ih =>
  rw [readData_eq] at h
  rcases hr : readFrom stop [] tokens with ⟨d | _ | e, rest⟩
  · simp only [hr] at h
    cases hrest : readData ⟨rest, stop⟩ with
    | error e =>
      rw [hrest] at h
      cases h
    | ok ds' =>
      rw [hrest] at h
      cases h
      exact datum tokens d rest ds' hr (ih _ (hn ▸ length_readFrom hr) hrest rfl)
  · simp only [hr] at h
    cases h
    exact exhausted tokens rest hr
  · simp only [hr] at h
    cases h

/-! ## White space and comments -/

/-- The tokens that are not white space or comments. -/
def significant (tokens : List Token) : List Token :=
  tokens.filter fun t => !t.lexeme.isSeparator

theorem significant_append (tokens tokens' : List Token) :
    significant (tokens ++ tokens') = significant tokens ++ significant tokens' :=
  List.filter_append ..

/-- The reader skips white space and comments. -/
theorem readFrom_significant (stop : Position) (contexts : List Context) (tokens : List Token) :
    readFrom stop contexts (significant tokens) =
      ((readFrom stop contexts tokens).1, significant (readFrom stop contexts tokens).2) := by
  induction tokens generalizing contexts with
  | nil => rfl
  | cons t tokens ih =>
    cases ht : t.lexeme.isSeparator with
    | true =>
      have hs : significant (t :: tokens) = significant tokens := by simp [significant, ht]
      rw [hs, ih, readFrom, Reading.next_separator contexts ht]
    | false =>
      have hs : significant (t :: tokens) = t :: significant tokens := by simp [significant, ht]
      rw [hs, readFrom, readFrom]
      cases Reading.next contexts t with
      | pending contexts' => exact ih contexts'
      | complete d => rfl
      | failed e => rfl

theorem readData_significant (tokens : List Token) (stop : Position) :
    readData ⟨significant tokens, stop⟩ = readData ⟨tokens, stop⟩ := by
  induction hn : tokens.length using Nat.strongRecOn generalizing tokens with
  | ind n ih =>
  rw [readData_eq, readData_eq ⟨tokens, stop⟩]
  simp only [readFrom_significant]
  rcases hr : readFrom stop [] tokens with ⟨d | _ | e, rest⟩
  · simp only [ih _ (hn ▸ length_readFrom hr) rest rfl]
  · rfl
  · rfl

end TokenStream

/-! ## Places

Moving all tokens by a map on spans moves the failures with them and changes nothing else.
-/

/-- A failure with its place moved. -/
def Error.mapSpan (f : Span → Span) (e : Error) : Error := ⟨e.fault, e.span.map f⟩

/-- A token with its place moved. -/
def Token.mapSpan (f : Span → Span) (t : Token) : Token := ⟨t.lexeme, f t.span⟩

/-- A context with its places moved. -/
def Context.mapSpan (f : Span → Span) : Context → Context
  | .items start found => .items (f start) found
  | .dotted found dot => .dotted found (f dot)
  | .tailed found dot tail => .tailed found (f dot) tail
  | .quote => .quote

/-- The result of looking for a datum with its place moved. -/
def ReadResult.mapSpan (f : Span → Span) : ReadResult → ReadResult
  | .datum d => .datum d
  | .exhausted => .exhausted
  | .failed e => .failed (e.mapSpan f)

namespace Reading

/-- A reading with its places moved. -/
def mapSpan (f : Span → Span) : Reading → Reading
  | pending contexts => pending (contexts.map (Context.mapSpan f))
  | complete d => complete d
  | failed e => failed (e.mapSpan f)

variable (f : Span → Span)

theorem deliver_mapSpan (d : Datum) (contexts : List Context) :
    (deliver [] d (contexts.map (Context.mapSpan f))).2 = (deliver [] d contexts).2.mapSpan f := by
  induction contexts generalizing d with
  | nil => rfl
  | cons context outer ih =>
    cases context with
    | quote =>
      rw [List.map_cons, Context.mapSpan, deliver, deliver, deliver_snd, deliver_snd [_], ih]
    | _ => rfl

theorem close_mapSpan (span : Span) (contexts : List Context) :
    (close [] (f span) (contexts.map (Context.mapSpan f))).2 =
      (close [] span contexts).2.mapSpan f := by
  match contexts with
  | [] | .quote :: _ | .dotted .. :: _ => rfl
  | .items start found :: outer =>
    rw [List.map_cons, Context.mapSpan, close, close, deliver_snd, deliver_snd [_], deliver_mapSpan]
  | .tailed found dot tail :: outer =>
    rw [List.map_cons, Context.mapSpan, close, close, deliver_mapSpan]

theorem dot_mapSpan (span : Span) (contexts : List Context) :
    dot (f span) (contexts.map (Context.mapSpan f)) = (dot span contexts).mapSpan f := by
  match contexts with
  | [] | .quote :: _ | .dotted .. :: _ | .items .. :: _ | .tailed .. :: _ => rfl

theorem enter_mapSpan (context : Context) (span : Span) (contexts : List Context) :
    enter (context.mapSpan f) (f span) (contexts.map (Context.mapSpan f)) =
      (enter context span contexts).mapSpan f := by
  unfold enter
  rw [List.length_map]
  split_ifs <;> rfl

theorem next_mapSpan (contexts : List Context) (t : Token) :
    next (contexts.map (Context.mapSpan f)) (t.mapSpan f) = (next contexts t).mapSpan f := by
  obtain ⟨lexeme, span⟩ := t
  simp only [Token.mapSpan]
  cases lexeme with
  | leftParen => exact enter_mapSpan f (.items span []) span contexts
  | rightParen => rw [next_rightParen, next_rightParen, close_mapSpan]
  | quote => exact enter_mapSpan f .quote span contexts
  | dot => exact dot_mapSpan f span contexts
  | symbol name => rw [next_symbol, next_symbol, deliver_mapSpan]
  | string text => rw [next_string, next_string, deliver_mapSpan]
  | boolean value => rw [next_boolean, next_boolean, deliver_mapSpan]
  | number text =>
    rw [next_number, next_number]
    cases Decimal.number? text with
    | none => rfl
    | some x => exact deliver_mapSpan f _ _
  | _ => rfl

end Reading

namespace TokenStream

variable {f : Span → Span} {stop stop' : Position}

theorem readFrom_mapSpan (hf : f ⟨stop, 0⟩ = ⟨stop', 0⟩) (contexts : List Context)
    (tokens : List Token) :
    readFrom stop' (contexts.map (Context.mapSpan f)) (tokens.map (Token.mapSpan f)) =
      ((readFrom stop contexts tokens).1.mapSpan f,
        (readFrom stop contexts tokens).2.map (Token.mapSpan f)) := by
  induction tokens generalizing contexts with
  | nil =>
    cases contexts with
    | nil => rfl
    | cons context outer =>
      show (ReadResult.failed ⟨.endOfInput, some ⟨stop', 0⟩⟩, []) = _
      rw [← hf]
      rfl
  | cons t tokens ih =>
    rw [List.map_cons, readFrom, readFrom, Reading.next_mapSpan]
    cases Reading.next contexts t with
    | pending contexts' => exact ih contexts'
    | complete d => rfl
    | failed e => rfl

theorem readData_mapSpan (hf : f ⟨stop, 0⟩ = ⟨stop', 0⟩) (tokens : List Token) :
    readData ⟨tokens.map (Token.mapSpan f), stop'⟩ =
      (readData ⟨tokens, stop⟩).mapError (Error.mapSpan f) := by
  induction hn : tokens.length using Nat.strongRecOn generalizing tokens with
  | ind n ih =>
  have hfrom := readFrom_mapSpan hf [] tokens
  rw [List.map_nil] at hfrom
  rw [readData_eq, readData_eq ⟨tokens, stop⟩, hfrom]
  rcases hr : readFrom stop [] tokens with ⟨d | _ | e, rest⟩
  · simp only [ReadResult.mapSpan, ih _ (hn ▸ length_readFrom hr) rest rfl]
    cases readData ⟨rest, stop⟩ <;> rfl
  · rfl
  · rfl

end TokenStream

end SmallScheme
