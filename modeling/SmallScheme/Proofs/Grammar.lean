import SmallScheme.Proofs.Reading

/-!
# The grammar of data

`reader_accepts_grammar`: what the reader accepts is what the grammar of data derives, from the lexemes
that are not white space or comments.

1. `Derives n ls φ` is the grammar; `n` bounds the lists and quotes around any part.
2. Completeness (`Derives.reads`): reading the lexemes of a derivation inside open contexts hands the
   datum to the innermost of them, as long as the contexts leave room for the nesting.
3. Soundness (`Opened.readFrom`): the contexts always account for the lexemes taken so far. `Opened` is
   the invariant, kept by every token (`Opened.next`).
-/

namespace SmallScheme

/-- Items in front of a tail. -/
def Datum.ofList (items : List Datum) (tail : Datum) : Datum := items.foldr .cons tail

theorem Datum.ofReversed_eq (found : List Datum) (tail : Datum) :
    ofReversed found tail = ofList found.reverse tail :=
  List.foldr_reverse.symm

theorem Datum.quoteSymbol_eq : quoteSymbol = ⟨"QUOTE"⟩ := rfl

/-- A quoted datum is the list of the symbol and the datum. -/
theorem Datum.quote_eq (d : Datum) : d.quote = ofList [.symbol ⟨"QUOTE"⟩, d] .nil := by
  rw [quote, quoteSymbol_eq]
  rfl

/-- What lexemes can derive. -/
inductive Phrase where
  | datum (d : Datum)
  | data (ds : List Datum)

/-- `Derives n ls φ`: the lexemes `ls` derive the phrase `φ`, with at most `n` lists and quotes around
any part of it. -/
inductive Derives : Nat → List Lexeme → Phrase → Prop where
  | symbol {n} (name : String) : Derives n [.symbol name] (.datum (.symbol (.ofName name)))
  | string {n} (text : String) : Derives n [.string text] (.datum (.atom (.string text)))
  | boolean {n} (value : Bool) : Derives n [.boolean value] (.datum (.atom (.boolean value)))
  | number {n text x} (h : Decimal.number? text = some x) :
      Derives n [.number text] (.datum (.atom (.number x)))
  | quote {n ls d} (h : Derives n ls (.datum d)) :
      Derives (n + 1) (.quote :: ls) (.datum (.ofList [.symbol ⟨"QUOTE"⟩, d] .nil))
  | list {n ls ds} (h : Derives n ls (.data ds)) :
      Derives (n + 1) (.leftParen :: (ls ++ [.rightParen])) (.datum (.ofList ds .nil))
  | dotted {n ls ds ls' d} (h : Derives n ls (.data ds)) (htail : Derives n ls' (.datum d)) :
      Derives (n + 1) (.leftParen :: (ls ++ .dot :: (ls' ++ [.rightParen]))) (.datum (.ofList ds d))
  | none {n} : Derives n [] (.data [])
  | more {n ls d ls' ds} (h : Derives n ls (.datum d)) (hs : Derives n ls' (.data ds)) :
      Derives n (ls ++ ls') (.data (d :: ds))

namespace Derives

/-- Data may be followed by one more. -/
theorem snoc {n : Nat} {ls ls' : List Lexeme} {ds : List Datum} {d : Datum}
    (h : Derives n ls (.data ds)) (hd : Derives n ls' (.datum d)) :
    Derives n (ls ++ ls') (.data (ds ++ [d])) := by
  generalize hφ : Phrase.data ds = φ at h
  induction h generalizing ds with
  | none =>
    cases hφ
    simpa using more hd none
  | more h _ _ ih =>
    cases hφ
    rw [List.append_assoc, List.cons_append]
    exact more h (ih hd rfl)
  | _ => cases hφ

/-- A derivation does not reach the end of the text. -/
theorem endOfText_not_mem {n : Nat} {ls : List Lexeme} {φ : Phrase} (h : Derives n ls φ) :
    .endOfText ∉ ls := by
  induction h <;> simp_all

end Derives

namespace TokenStream

/-- The lexemes that are not white space or comments. -/
def lexemes (tokens : List Token) : List Lexeme := (significant tokens).map Token.lexeme

theorem lexemes_append (tokens tokens' : List Token) :
    lexemes (tokens ++ tokens') = lexemes tokens ++ lexemes tokens' := by
  rw [lexemes, significant_append, List.map_append]
  rfl

theorem lexemes_separator {t : Token} (h : t.lexeme.isSeparator = true) (tokens : List Token) :
    lexemes (t :: tokens) = lexemes tokens := by
  simp [lexemes, significant, h]

theorem lexemes_cons {t : Token} (h : t.lexeme.isSeparator = false) (tokens : List Token) :
    lexemes (t :: tokens) = t.lexeme :: lexemes tokens := by
  simp [lexemes, significant, h]

/-- The lexemes of a token stream end with its end token. -/
theorem lexemes_toList (s : TokenStream) : lexemes s.toList = lexemes s.tokens ++ [.endOfText] := by
  rw [toList, lexemes_append]
  rfl

/-- Goes on after a reading. -/
def resume (stop : Position) (rest : List Token) : Reading → ReadResult × List Token
  | .pending contexts => readFrom stop contexts rest
  | .complete d => (.datum d, rest)
  | .failed e => (.failed e, rest)

theorem readFrom_cons (stop : Position) (contexts : List Context) (t : Token) (rest : List Token) :
    readFrom stop contexts (t :: rest) = resume stop rest (.next contexts t) := by
  rw [readFrom]
  cases Reading.next contexts t <;> rfl

theorem readFrom_suffix (stop : Position) (contexts : List Context) (tokens : List Token) :
    ∃ used, tokens = used ++ (readFrom stop contexts tokens).2 := by
  induction tokens generalizing contexts with
  | nil => exact ⟨[], rfl⟩
  | cons t tokens ih =>
    rw [readFrom_cons]
    cases Reading.next contexts t with
    | pending contexts' =>
      obtain ⟨used, hused⟩ := ih contexts'
      exact ⟨t :: used, congrArg (t :: ·) hused⟩
    | complete d => exact ⟨[t], rfl⟩
    | failed e => exact ⟨[t], rfl⟩

end TokenStream

open TokenStream

/-! ## The reader reads what the grammar derives -/

/-- Reading tokens with the lexemes of a phrase hands the datum to the innermost context, or adds the
data to the list that is open. -/
def Reads (n : Nat) (ls : List Lexeme) : Phrase → Prop
  | .datum d => ∀ stop contexts tokens rest, contexts.length + n ≤ maxNesting →
      tokens.map Token.lexeme = ls →
      readFrom stop contexts (tokens ++ rest) = resume stop rest (Reading.deliver [] d contexts).2
  | .data ds => ∀ stop start found outer tokens rest, outer.length + 1 + n ≤ maxNesting →
      tokens.map Token.lexeme = ls →
      readFrom stop (.items start found :: outer) (tokens ++ rest) =
        readFrom stop (.items start (ds.reverse ++ found) :: outer) rest

theorem Reads.of_atom {n : Nat} {l : Lexeme} {d : Datum}
    (h : ∀ contexts span, Reading.next contexts ⟨l, span⟩ = (Reading.deliver [] d contexts).2) :
    Reads n [l] (.datum d) := by
  intro stop contexts tokens rest _ hl
  obtain ⟨t, rfl, rfl⟩ := List.map_eq_singleton_iff.mp hl
  rw [List.singleton_append, readFrom_cons, ← h contexts t.span]

/-- A parenthesis opens a list and a quotation mark a quote while there is room. -/
theorem readFrom_enter {l : Lexeme} {span : Span} {context : Context} {contexts : List Context}
    (h : Reading.next contexts ⟨l, span⟩ = .enter context span contexts)
    (hn : contexts.length < maxNesting) (stop : Position) (tokens : List Token) :
    readFrom stop contexts (⟨l, span⟩ :: tokens) = readFrom stop (context :: contexts) tokens := by
  rw [readFrom_cons, h, Reading.enter, if_neg (by omega)]
  rfl

theorem Derives.reads {n : Nat} {ls : List Lexeme} {φ : Phrase} (h : Derives n ls φ) :
    Reads n ls φ := by
  induction h with
  | symbol name => exact .of_atom fun contexts span => Reading.next_symbol contexts span name
  | string text => exact .of_atom fun contexts span => Reading.next_string contexts span text
  | boolean value => exact .of_atom fun contexts span => Reading.next_boolean contexts span value
  | number h =>
    refine .of_atom fun contexts span => ?_
    rw [Reading.next_number, h]
  | quote _ ih =>
    intro stop contexts tokens rest hn hl
    obtain ⟨⟨_, span⟩, tokens, rfl, rfl, h₁⟩ := List.map_eq_cons_iff.mp hl
    rw [List.cons_append, readFrom_enter (Reading.next_quote contexts span) (by omega),
      ih _ _ _ _ (by rw [List.length_cons]; omega) h₁, Reading.deliver, Reading.deliver_snd,
      Datum.quote_eq]
  | list _ ih =>
    intro stop contexts tokens rest hn hl
    obtain ⟨⟨_, span⟩, tokens, rfl, rfl, h₁⟩ := List.map_eq_cons_iff.mp hl
    obtain ⟨inner, close, rfl, hinner, hclose⟩ := List.map_eq_append_iff.mp h₁
    obtain ⟨⟨_, close⟩, rfl, rfl⟩ := List.map_eq_singleton_iff.mp hclose
    rw [List.cons_append, List.append_assoc,
      readFrom_enter (Reading.next_leftParen contexts span) (by omega),
      ih _ _ _ _ _ _ (by omega) hinner, List.singleton_append, readFrom_cons,
      Reading.next_rightParen, Reading.close, Reading.deliver_snd, List.append_nil,
      Datum.ofReversed_eq, List.reverse_reverse]
  | dotted _ _ ih ihtail =>
    intro stop contexts tokens rest hn hl
    obtain ⟨⟨_, span⟩, tokens, rfl, rfl, h₁⟩ := List.map_eq_cons_iff.mp hl
    obtain ⟨inner, tokens, rfl, hinner, h₂⟩ := List.map_eq_append_iff.mp h₁
    obtain ⟨⟨_, dot⟩, tokens, rfl, rfl, h₃⟩ := List.map_eq_cons_iff.mp h₂
    obtain ⟨tail, close, rfl, htail, hclose⟩ := List.map_eq_append_iff.mp h₃
    obtain ⟨⟨_, close⟩, rfl, rfl⟩ := List.map_eq_singleton_iff.mp hclose
    rw [List.cons_append, List.append_assoc,
      readFrom_enter (Reading.next_leftParen contexts span) (by omega),
      ih _ _ _ _ _ _ (by omega) hinner, List.cons_append, readFrom_cons, Reading.next_dot,
      Reading.dot, resume, List.append_assoc, ihtail _ _ _ _ (by rw [List.length_cons]; omega) htail,
      Reading.deliver, resume, List.singleton_append, readFrom_cons, Reading.next_rightParen,
      Reading.close, List.append_nil, Datum.ofReversed_eq, List.reverse_reverse]
  | none =>
    intro stop start found outer tokens rest _ hl
    rw [List.map_eq_nil_iff.mp hl]
    rfl
  | more _ _ ih ihs =>
    intro stop start found outer tokens rest hn hl
    obtain ⟨first, others, rfl, hfirst, hothers⟩ := List.map_eq_append_iff.mp hl
    rw [List.append_assoc, ih _ _ _ _ (by simpa using hn) hfirst]
    exact (ihs _ _ _ _ _ _ hn hothers).trans (by simp)

/-! ## What the reader reads is derived -/

/-- `Opened contexts ls`: the lexemes `ls` have brought the reader into these contexts. What a context
has collected is derived within the nesting that its place leaves. -/
inductive Opened : List Context → List Lexeme → Prop where
  | nil : Opened [] []
  | quote {contexts ls} (h : Opened contexts ls) (hn : contexts.length < maxNesting) :
      Opened (.quote :: contexts) (ls ++ [.quote])
  | items {contexts ls start found inner} (h : Opened contexts ls)
      (hn : contexts.length < maxNesting)
      (hd : Derives (maxNesting - (contexts.length + 1)) inner (.data found.reverse)) :
      Opened (.items start found :: contexts) (ls ++ .leftParen :: inner)
  | dotted {contexts ls dot found inner} (h : Opened contexts ls)
      (hn : contexts.length < maxNesting)
      (hd : Derives (maxNesting - (contexts.length + 1)) inner (.data found.reverse)) :
      Opened (.dotted found dot :: contexts) (ls ++ .leftParen :: (inner ++ [.dot]))
  | tailed {contexts ls dot found inner tail d} (h : Opened contexts ls)
      (hn : contexts.length < maxNesting)
      (hd : Derives (maxNesting - (contexts.length + 1)) inner (.data found.reverse))
      (ht : Derives (maxNesting - (contexts.length + 1)) tail (.datum d)) :
      Opened (.tailed found dot d :: contexts) (ls ++ .leftParen :: (inner ++ .dot :: tail))

/-- A reading accounts for the lexemes taken. -/
def Reading.Accounts (ls : List Lexeme) : Reading → Prop
  | .pending contexts => Opened contexts ls
  | .complete d => Derives maxNesting ls (.datum d)
  | .failed _ => True

/-- One more list or quote takes one level. -/
theorem room_succ {n : Nat} (hn : n < maxNesting) :
    maxNesting - n = maxNesting - (n + 1) + 1 := by omega

namespace Opened

variable {contexts : List Context} {ls new : List Lexeme} {d : Datum}

theorem deliver (h : Opened contexts ls)
    (hd : Derives (maxNesting - contexts.length) new (.datum d)) :
    (Reading.deliver [] d contexts).2.Accounts (ls ++ new) := by
  induction h generalizing d new with
  | nil => exact hd
  | quote h hn ih =>
    rw [Reading.deliver, Reading.deliver_snd, List.append_assoc, Datum.quote_eq]
    refine ih ?_
    rw [room_succ hn]
    exact .quote hd
  | items h hn hd' _ =>
    rw [List.append_assoc, List.cons_append]
    exact .items h hn (by rw [List.reverse_cons]; exact hd'.snoc hd)
  | dotted h hn hd' _ =>
    simp only [List.append_assoc, List.cons_append]
    exact .tailed h hn hd' hd
  | tailed => trivial

theorem close (h : Opened contexts ls) (span : Span) :
    (Reading.close [] span contexts).2.Accounts (ls ++ [.rightParen]) := by
  cases h with
  | items h hn hd =>
    rw [Reading.close, Reading.deliver_snd, List.append_assoc, Datum.ofReversed_eq]
    refine h.deliver ?_
    rw [room_succ hn]
    exact .list hd
  | tailed h hn hd ht =>
    rw [Reading.close, List.append_assoc, Datum.ofReversed_eq]
    refine h.deliver ?_
    rw [room_succ hn, List.cons_append, List.append_assoc, List.cons_append]
    exact .dotted hd ht
  | _ => trivial

theorem dot (h : Opened contexts ls) (span : Span) :
    (Reading.dot span contexts).Accounts (ls ++ [.dot]) := by
  cases h with
  | items h hn hd =>
    rw [List.append_assoc, List.cons_append]
    exact .dotted h hn hd
  | _ => trivial

theorem enter {context : Context} {l : Lexeme} (span : Span)
    (h : contexts.length < maxNesting → Opened (context :: contexts) (ls ++ [l])) :
    (Reading.enter context span contexts).Accounts (ls ++ [l]) := by
  rw [Reading.enter]
  split_ifs with hn
  · trivial
  · exact h (by omega)

/-- **The invariant.** Every token that is not white space or a comment keeps the account. -/
theorem next (h : Opened contexts ls) {t : Token} (ht : t.lexeme.isSeparator = false) :
    (Reading.next contexts t).Accounts (ls ++ [t.lexeme]) := by
  obtain ⟨lexeme, span⟩ := t
  cases lexeme with
  | leftParen => exact enter span fun hn => .items h hn .none
  | quote => exact enter span fun hn => .quote h hn
  | rightParen =>
    rw [Reading.next_rightParen]
    exact h.close span
  | dot => exact h.dot span
  | symbol name =>
    rw [Reading.next_symbol]
    exact h.deliver (.symbol name)
  | string text =>
    rw [Reading.next_string]
    exact h.deliver (.string text)
  | boolean value =>
    rw [Reading.next_boolean]
    exact h.deliver (.boolean value)
  | number text =>
    rw [Reading.next_number]
    cases hx : Decimal.number? text with
    | none => trivial
    | some x => exact h.deliver (.number hx)
  | endOfText => trivial
  | illegal detail => trivial
  | blank text => cases ht
  | comment text => cases ht

theorem readFrom (h : Opened contexts ls) {stop : Position} {tokens rest : List Token}
    (hr : readFrom stop contexts tokens = (.datum d, rest)) :
    ∃ used, tokens = used ++ rest ∧ Derives maxNesting (ls ++ lexemes used) (.datum d) := by
  induction tokens generalizing contexts ls with
  | nil =>
    rw [TokenStream.readFrom] at hr
    split_ifs at hr <;> cases hr
  | cons t tokens ih =>
    cases ht : t.lexeme.isSeparator with
    | true =>
      rw [readFrom_cons, Reading.next_separator contexts ht] at hr
      obtain ⟨used, rfl, hd⟩ := ih h hr
      exact ⟨t :: used, rfl, by rwa [lexemes_separator ht]⟩
    | false =>
      have hnext := h.next ht
      rw [readFrom_cons] at hr
      cases hn : Reading.next contexts t with
      | pending contexts' =>
        rw [hn] at hr hnext
        obtain ⟨used, rfl, hd⟩ := ih hnext hr
        exact ⟨t :: used, rfl, by rwa [lexemes_cons ht, List.append_cons]⟩
      | complete d' =>
        rw [hn] at hr hnext
        cases hr
        exact ⟨[t], rfl, by rwa [lexemes_cons ht]⟩
      | failed e =>
        rw [hn] at hr
        cases hr

/-- The input ends between data only if nothing is open and nothing is left. -/
theorem exhausted (h : Opened contexts ls) {stop : Position} {tokens rest : List Token}
    (hr : TokenStream.readFrom stop contexts tokens = (.exhausted, rest)) :
    ls = [] ∧ lexemes tokens = [] := by
  induction tokens generalizing contexts ls with
  | nil =>
    rw [TokenStream.readFrom] at hr
    split_ifs at hr with hc
    · rw [List.isEmpty_iff.mp hc] at h
      cases h
      exact ⟨rfl, rfl⟩
    · cases hr
  | cons t tokens ih =>
    rw [readFrom_cons] at hr
    cases ht : t.lexeme.isSeparator with
    | true =>
      rw [Reading.next_separator contexts ht] at hr
      rw [lexemes_separator ht]
      exact ih h hr
    | false =>
      have hnext := h.next ht
      cases hn : Reading.next contexts t with
      | pending contexts' =>
        rw [hn] at hr hnext
        exact absurd (ih hnext hr).1 (by simp)
      | complete d' => rw [hn] at hr; cases hr
      | failed e => rw [hn] at hr; cases hr

end Opened

/-! ## Reader and grammar -/

/-- What is read next is what the first lexemes derive. -/
theorem readFrom_datum_iff {stop : Position} {tokens : List Token} {d : Datum} {k : Nat} :
    ((readFrom stop [] tokens).1 = .datum d ∧
      ∃ pulled, tokens = pulled ++ (readFrom stop [] tokens).2 ∧ (lexemes pulled).length = k) ↔
    k ≤ (lexemes tokens).length ∧ Derives maxNesting ((lexemes tokens).take k) (.datum d) := by
  constructor
  · rintro ⟨hd, pulled, hp, rfl⟩
    obtain ⟨used, hused, hderives⟩ :=
      Opened.nil.readFrom (Prod.ext hd rfl : readFrom stop [] tokens = (.datum d, _))
    rw [← List.append_cancel_right (hp.symm.trans hused)] at hderives
    have hsplit : lexemes tokens = lexemes pulled ++ lexemes (readFrom stop [] tokens).2 := by
      rw [← lexemes_append, ← hp]
    rw [hsplit, List.take_left]
    exact ⟨by simp, hderives⟩
  · rintro ⟨hk, hderives⟩
    have hread := hderives.reads stop [] ((significant tokens).take k) ((significant tokens).drop k)
      (by simp) (by rw [List.map_take]; rfl)
    rw [List.take_append_drop, readFrom_significant, Reading.deliver, resume, Prod.mk.injEq] at hread
    obtain ⟨pulled, hp⟩ := readFrom_suffix stop [] tokens
    refine ⟨hread.1, pulled, hp, ?_⟩
    -- the tokens not taken are those behind the first `k` that count
    have hlength := congrArg List.length (congrArg significant hp)
    rw [significant_append, hread.2, List.length_append, List.length_drop] at hlength
    simp only [lexemes, List.length_map] at hk ⊢
    omega

/-- A derivation from the first lexemes stops before the end of the text. -/
theorem derives_take_append {n k : Nat} {ls : List Lexeme} {φ : Phrase} :
    Derives n ((ls ++ [Lexeme.endOfText]).take k) φ ↔ k ≤ ls.length ∧ Derives n (ls.take k) φ := by
  constructor
  · intro h
    by_cases hk : k ≤ ls.length
    · rw [List.take_append_of_le_length hk] at h
      exact ⟨hk, h⟩
    · rw [List.take_of_length_le (by simp; omega)] at h
      exact absurd (by simp) h.endOfText_not_mem
  · rintro ⟨hk, h⟩
    rwa [List.take_append_of_le_length hk]

theorem derives_of_readData {stop : Position} {tokens : List Token} {ds : List Datum}
    (h : readData ⟨tokens, stop⟩ = .ok ds) : Derives maxNesting (lexemes tokens) (.data ds) := by
  refine readData_induction (motive := fun tokens ds => Derives maxNesting (lexemes tokens) (.data ds))
    ?_ ?_ h
  · intro tokens rest hr
    rw [(Opened.nil.exhausted hr).2]
    exact .none
  · intro tokens d rest ds hr ih
    obtain ⟨used, rfl, hd⟩ := Opened.nil.readFrom hr
    rw [lexemes_append]
    exact .more hd ih

theorem Derives.readData {n : Nat} {ls : List Lexeme} {ds : List Datum}
    (h : Derives n ls (.data ds)) (hn : n ≤ maxNesting) {stop : Position} {tokens : List Token}
    (hl : tokens.map Token.lexeme = ls) : readData ⟨tokens, stop⟩ = .ok ds := by
  generalize hφ : Phrase.data ds = φ at h
  induction h generalizing ds tokens with
  | none =>
    cases hφ
    rw [List.map_eq_nil_iff.mp hl, readData_eq]
    rfl
  | more h _ _ ih =>
    cases hφ
    obtain ⟨first, others, rfl, hfirst, hothers⟩ := List.map_eq_append_iff.mp hl
    have hread := h.reads stop [] first others (by simpa using hn) hfirst
    rw [Reading.deliver, resume] at hread
    rw [readData_eq, hread]
    simp only [ih hn hothers rfl]
    rfl
  | _ => cases hφ

/-- All that is read is what all lexemes derive. -/
theorem readData_ok_iff {stop : Position} {tokens : List Token} {ds : List Datum} :
    readData ⟨tokens, stop⟩ = .ok ds ↔ Derives maxNesting (lexemes tokens) (.data ds) := by
  refine ⟨derives_of_readData, fun h => ?_⟩
  rw [← readData_significant]
  exact h.readData (Nat.le_refl _) rfl

/-! ## Places -/

/-- What is found without the place of a failure: a datum, the end of the input, or a fault. -/
def ReadResult.unplaced : ReadResult → Except Fault (Option Datum)
  | .datum d => .ok (some d)
  | .exhausted => .ok none
  | .failed e => .error e.fault

/-- The map that forgets places. -/
def Span.forget (_ : Span) : Span := ⟨{}, 0⟩

/-- A lexeme as a token without a place. -/
def Lexeme.unplaced (l : Lexeme) : Token := ⟨l, ⟨{}, 0⟩⟩

theorem map_forget_significant (tokens : List Token) :
    (significant tokens).map (Token.mapSpan Span.forget) = (lexemes tokens).map Lexeme.unplaced := by
  rw [lexemes, List.map_map]
  rfl

/-- All data of a sequence of lexemes, or the first fault. -/
def readLexemes (ls : List Lexeme) : Except Fault (List Datum) :=
  (readData ⟨ls.map Lexeme.unplaced, {}⟩).mapError Error.fault

/-- What a stream reads as depends on its lexemes only, except for the places of failures. -/
theorem readData_fault (s : TokenStream) :
    s.readData.mapError Error.fault = readLexemes (lexemes s.tokens) := by
  rw [readLexemes, ← map_forget_significant,
    readData_mapSpan (rfl : Span.forget ⟨s.stop, 0⟩ = ⟨{}, 0⟩), readData_significant]
  cases readData ⟨s.tokens, s.stop⟩ <;> rfl

theorem readNext_fault (s : TokenStream) :
    s.readNext.result.unplaced =
      (readFrom {} [] ((lexemes s.tokens).map Lexeme.unplaced)).1.unplaced := by
  have hfrom := readFrom_mapSpan (rfl : Span.forget ⟨s.stop, 0⟩ = ⟨{}, 0⟩) [] (significant s.tokens)
  rw [List.map_nil, map_forget_significant] at hfrom
  rw [hfrom, readFrom_significant, readNext_result]
  cases (readFrom s.stop [] s.tokens).1 <;> rfl

/-- **The reader accepts exactly its grammar.** Of the lexemes of a text that are not white space or
comments, the reader takes the first `k` and delivers `v` exactly if these derive `v` within the
nesting allowed; it reads the whole text as the data `vs` exactly if the lexemes before the end
derive them. Nothing else about the text matters, except to the places of failures. -/
theorem reader_accepts_grammar (text : String) :
    (∀ k v, ((ofString text).readNext.result = .datum v ∧
        ∃ pulled, (ofString text).tokens = pulled ++ (ofString text).readNext.rest.tokens ∧
          (lexemes pulled).length = k) ↔
      Derives maxNesting ((lexemes (ofString text).toList).take k) (.datum v)) ∧
    (∀ vs, readAll text = .ok vs ↔
      ∃ ls, lexemes (ofString text).toList = ls ++ [.endOfText] ∧ Derives maxNesting ls (.data vs)) ∧
    (∀ text', lexemes (ofString text').toList = lexemes (ofString text).toList →
      (ofString text').readNext.result.unplaced = (ofString text).readNext.result.unplaced ∧
      (readAll text').mapError Error.fault = (readAll text).mapError Error.fault) := by
  refine ⟨fun k v => ?_, fun vs => ?_, fun text' h => ?_⟩
  · rw [readNext_result, readNext_rest, lexemes_toList, derives_take_append]
    exact readFrom_datum_iff
  · rw [lexemes_toList]
    constructor
    · intro h
      exact ⟨_, rfl, derives_of_readData h⟩
    · rintro ⟨ls, hls, h⟩
      rw [← List.append_cancel_right hls] at h
      exact readData_ok_iff.mpr h
  · rw [lexemes_toList, lexemes_toList] at h
    have h := List.append_cancel_right h
    constructor
    · rw [readNext_fault, readNext_fault, h]
    · show (readData _).mapError _ = (readData _).mapError _
      rw [readData_fault, readData_fault, h]

end SmallScheme
