import SmallScheme.Proofs.Completion
import SmallScheme.Proofs.Nesting

/-!
# The tokens behind what is open

`OpenedBy contexts tokens`: the tokens have brought the reader into these contexts, and each context is there
because of tokens of its own.

1. Every token keeps the account, and a token that fails can be traced to the one to blame for it
   (`OpenedBy.next`); hence so does every run of the reader (`OpenedBy.accused`).
2. Conversely the tokens are read without failure and lead to the contexts (`OpenedBy.readDataFrom`).
3. The contexts are those that can be counted in the lexemes alone (`OpenedBy.openings`).
-/

namespace SmallScheme

open TokenStream

/-- What a context has open. -/
def Context.opening : Context → Opening
  | .quote => .quote
  | .items .. | .dotted .. | .tailed .. => .list

/-- `OpenedBy contexts tokens`: the tokens have brought the reader into these contexts. The lists have the
places of their parentheses and dots, and what they have collected is derived from the tokens behind those,
within the nesting that their place leaves. -/
inductive OpenedBy : List Context → List Token → Prop where
  | nil {tokens ds} (h : Derives maxNesting (lexemes tokens) (.data ds)) : OpenedBy [] tokens
  | quote {contexts tokens t gap} (h : OpenedBy contexts tokens) (hn : contexts.length < maxNesting)
      (ht : t.lexeme = .quote) (hgap : lexemes gap = []) :
      OpenedBy (.quote :: contexts) (tokens ++ t :: gap)
  | items {contexts tokens t found inner} (h : OpenedBy contexts tokens)
      (hn : contexts.length < maxNesting) (ht : t.lexeme = .leftParen)
      (hd : Derives (maxNesting - (contexts.length + 1)) (lexemes inner) (.data found.reverse)) :
      OpenedBy (.items t.span found :: contexts) (tokens ++ t :: inner)
  | dotted {contexts tokens t found inner dot gap} (h : OpenedBy contexts tokens)
      (hn : contexts.length < maxNesting) (ht : t.lexeme = .leftParen)
      (hd : Derives (maxNesting - (contexts.length + 1)) (lexemes inner) (.data found.reverse))
      (hdot : dot.lexeme = .dot) (hgap : lexemes gap = []) :
      OpenedBy (.dotted found dot.span :: contexts) (tokens ++ t :: (inner ++ dot :: gap))
  | tailed {contexts tokens t found inner dot tail d} (h : OpenedBy contexts tokens)
      (hn : contexts.length < maxNesting) (ht : t.lexeme = .leftParen)
      (hd : Derives (maxNesting - (contexts.length + 1)) (lexemes inner) (.data found.reverse))
      (hdot : dot.lexeme = .dot)
      (htail : Derives (maxNesting - (contexts.length + 1)) (lexemes tail) (.datum d)) :
      OpenedBy (.tailed found dot.span d :: contexts) (tokens ++ t :: (inner ++ dot :: tail))

/-! ## Who is to blame -/

/-- What follows the dot of a list and does not fit there, with what is said of it: nothing but the end of the
list, or one more object behind the tail, or a dot behind it. -/
inductive BadTail : String → List Lexeme → Prop where
  | nothing : BadTail "nothing follows ." [.rightParen]
  | second {n ls ls' d d'} (h : Derives n ls (.datum d)) (h' : Derives n ls' (.datum d')) :
      BadTail "more than one object follows ." (ls ++ ls')
  | dot {n ls d} (h : Derives n ls (.datum d)) : BadTail "more than one object follows ." (ls ++ [.dot])

/-- The token, with others before and after it, is to blame for a fault. -/
inductive Blamed (before : List Token) (t : Token) (after : List Token) : Fault → Prop where
  | endOfInput (h : t.lexeme = .endOfText) (hlast : after = []) : Blamed before t after .endOfInput
  | lexical {detail} (h : t.lexeme = .illegal detail) : Blamed before t after (.lexical detail)
  | closeParen (h : t.lexeme = .rightParen)
      (hopen : (openingsFrom [] (lexemes before)).head? ≠ some .list) :
      Blamed before t after .unexpectedCloseParen
  /-- The dot stands outside of lists, or right behind another one. -/
  | dot (h : t.lexeme = .dot)
      (hopen : (openingsFrom [] (lexemes before)).head? ≠ some .list ∨
        ∃ ls, lexemes before = ls ++ [.dot]) :
      Blamed before t after .unexpectedDot
  /-- The dot stands in a list, and behind it stands what does not fit there. -/
  | malformedDot {detail used rest} (h : t.lexeme = .dot)
      (hopen : (openingsFrom [] (lexemes before)).head? = some .list) (hafter : after = used ++ rest)
      (hbad : BadTail detail (lexemes used)) : Blamed before t after (.malformedDot detail)
  | number {text} (h : t.lexeme = .number text) (hnone : Decimal.number? text = none) :
      Blamed before t after (.invalidNumber text)
  /-- As much is open already as is allowed. -/
  | nesting (h : t.lexeme = .leftParen ∨ t.lexeme = .quote)
      (hopen : (openingsFrom [] (lexemes before)).length = maxNesting) :
      Blamed before t after (.nestingTooDeep maxNesting)

/-- One of the tokens is to blame for the failure, whatever follows them all; and up to it they were read. -/
def Accused (tokens : List Token) (e : Error) : Prop :=
  ∃ contexts before t used, tokens = before ++ t :: used ∧ OpenedBy contexts before ∧
    e.span = some t.span ∧ ∀ rest, Blamed before t (used ++ rest) e.fault

/-- A reading can be traced to the tokens taken. -/
def Reading.Traced (tokens : List Token) : Reading → Prop
  | .pending contexts => OpenedBy contexts tokens
  | .complete _ => OpenedBy [] tokens
  | .failed e => Accused tokens e

theorem accused_last {contexts : List Context} {tokens : List Token} {t : Token} {fault : Fault}
    (h : OpenedBy contexts tokens) (hblamed : ∀ rest, Blamed tokens t rest fault) :
    Accused (tokens ++ [t]) ⟨fault, some t.span⟩ :=
  ⟨contexts, tokens, t, [], rfl, h, rfl, hblamed⟩

theorem Derives.of_atom? {n : Nat} {l : Lexeme} {d : Datum} (h : l.atom? = some (.ok d)) :
    Derives n [l] (.datum d) := by
  cases l with
  | symbol name =>
    cases h
    exact .symbol name
  | string text =>
    cases h
    exact .string text
  | boolean value =>
    cases h
    exact .boolean value
  | number text =>
    simp only [Lexeme.atom?, Option.some.injEq] at h
    split at h
    · next hx =>
      cases h
      exact .number hx
    · cases h
  | _ => cases h

namespace OpenedBy

variable {contexts : List Context} {tokens : List Token}

theorem length_le (h : OpenedBy contexts tokens) : contexts.length ≤ maxNesting := by
  cases h with
  | nil => exact Nat.zero_le _
  | quote _ hn => exact hn
  | items _ hn => exact hn
  | dotted _ hn => exact hn
  | tailed _ hn => exact hn

/-- **What is open, counted.** The lists and quotes in which the reader is are those that are open by the
lexemes. -/
theorem openings (h : OpenedBy contexts tokens) :
    openingsFrom [] (lexemes tokens) = contexts.map Context.opening := by
  induction h with
  | nil h => exact h.openingsFrom rfl
  | quote _ _ ht hgap ih =>
    rw [lexemes_append, lexemes_cons (by rw [ht]; rfl), ht, hgap, openingsFrom_append, ih]
    rfl
  | items _ _ ht hd ih =>
    rw [lexemes_append, lexemes_cons (by rw [ht]; rfl), ht, openingsFrom_append, ih, openingsFrom_cons,
      Lexeme.openings, hd.openingsFrom (Phrase.fitsWithin_list _ _)]
    rfl
  | dotted _ _ ht hd hdot hgap ih =>
    rw [lexemes_append, lexemes_cons (by rw [ht]; rfl), ht, openingsFrom_append, ih, openingsFrom_cons,
      Lexeme.openings, lexemes_append, openingsFrom_append, hd.openingsFrom (Phrase.fitsWithin_list _ _),
      lexemes_cons (by rw [hdot]; rfl), hdot, hgap]
    rfl
  | tailed _ _ ht hd hdot htail ih =>
    rw [lexemes_append, lexemes_cons (by rw [ht]; rfl), ht, openingsFrom_append, ih, openingsFrom_cons,
      Lexeme.openings, lexemes_append, openingsFrom_append, hd.openingsFrom (Phrase.fitsWithin_list _ _),
      lexemes_cons (by rw [hdot]; rfl), hdot, openingsFrom_cons, htail.openingsFrom trivial]
    rfl

theorem head?_ne_of_nil (h : OpenedBy [] tokens) :
    (openingsFrom [] (lexemes tokens)).head? ≠ some .list := by
  rw [h.openings]
  simp

theorem head?_ne_of_quote (h : OpenedBy (.quote :: contexts) tokens) :
    (openingsFrom [] (lexemes tokens)).head? ≠ some .list := by
  rw [h.openings]
  simp [Context.opening]

/-- White space and comments keep the account. -/
theorem gap (h : OpenedBy contexts tokens) {others : List Token} (hgap : lexemes others = []) :
    OpenedBy contexts (tokens ++ others) := by
  have hsame (inner : List Token) : lexemes (inner ++ others) = lexemes inner := by
    rw [lexemes_append, hgap, List.append_nil]
  cases h with
  | nil h => exact .nil (by rwa [hsame])
  | quote h hn ht hgap' =>
    rw [List.append_assoc, List.cons_append]
    exact .quote h hn ht (by rwa [hsame])
  | items h hn ht hd =>
    rw [List.append_assoc, List.cons_append]
    exact .items h hn ht (by rwa [hsame])
  | dotted h hn ht hd hdot hgap' =>
    rw [List.append_assoc, List.cons_append, List.append_assoc, List.cons_append]
    exact .dotted h hn ht hd hdot (by rwa [hsame])
  | tailed h hn ht hd hdot htail =>
    rw [List.append_assoc, List.cons_append, List.append_assoc, List.cons_append]
    exact .tailed h hn ht hd hdot (by rwa [hsame])

/-- A dot in a list that does not fit what follows it is to blame. -/
theorem accused_dot {t dot : Token} {found : List Datum} {inner used : List Token} {detail : String}
    (h : OpenedBy contexts tokens) (hn : contexts.length < maxNesting) (ht : t.lexeme = .leftParen)
    (hd : Derives (maxNesting - (contexts.length + 1)) (lexemes inner) (.data found.reverse))
    (hdot : dot.lexeme = .dot) (hbad : BadTail detail (lexemes used)) :
    Accused (tokens ++ t :: (inner ++ dot :: used)) ⟨.malformedDot detail, some dot.span⟩ := by
  have hitems := OpenedBy.items h hn ht hd
  refine ⟨_, tokens ++ t :: inner, dot, used, by simp, hitems, rfl, ?_⟩
  intro rest
  refine .malformedDot hdot ?_ rfl hbad
  rw [hitems.openings]
  rfl

/-- A datum behind the tokens that is handed to the innermost context. -/
theorem deliver (h : OpenedBy contexts tokens) {new : List Token} {d : Datum}
    (hd : Derives (maxNesting - contexts.length) (lexemes new) (.datum d)) :
    (Reading.deliver [] d contexts).2.Traced (tokens ++ new) := by
  induction h generalizing d new with
  | nil h =>
    have hsnoc := h.snoc hd
    rw [← lexemes_append] at hsnoc
    exact OpenedBy.nil hsnoc
  | @quote contexts tokens t gap h hn ht hgap ih =>
    rw [Reading.deliver, Reading.deliver_snd, List.append_assoc, Datum.quote_eq]
    apply ih
    rw [lexemes_append, lexemes_cons (by rw [ht]; rfl), ht, hgap, room_succ hn]
    exact .quote hd
  | items h hn ht hd' _ =>
    rw [List.append_assoc, List.cons_append]
    refine OpenedBy.items h hn ht ?_
    rw [lexemes_append, List.reverse_cons]
    exact hd'.snoc hd
  | dotted h hn ht hd' hdot hgap _ =>
    rw [List.append_assoc, List.cons_append, List.append_assoc, List.cons_append]
    refine OpenedBy.tailed h hn ht hd' hdot ?_
    rwa [lexemes_append, hgap, List.nil_append]
  | tailed h hn ht hd' hdot htail _ =>
    rw [List.append_assoc, List.cons_append, List.append_assoc, List.cons_append]
    refine h.accused_dot hn ht hd' hdot ?_
    rw [lexemes_append]
    exact .second htail hd

theorem close (h : OpenedBy contexts tokens) (span : Span) :
    (Reading.close [] span contexts).2.Traced (tokens ++ [⟨.rightParen, span⟩]) := by
  have hclose : lexemes [⟨.rightParen, span⟩] = [.rightParen] := rfl
  cases h with
  | nil h => exact accused_last (.nil h) fun rest => .closeParen rfl (OpenedBy.nil h).head?_ne_of_nil
  | quote h hn ht hgap =>
    have hquote := OpenedBy.quote h hn ht hgap
    exact accused_last hquote fun rest => .closeParen rfl hquote.head?_ne_of_quote
  | items h hn ht hd =>
    rw [Reading.close, Reading.deliver_snd, List.append_assoc, Datum.ofReversed_eq]
    apply h.deliver
    rw [List.cons_append, lexemes_cons (by rw [ht]; rfl), ht, lexemes_append, hclose, room_succ hn]
    exact .list hd
  | dotted h hn ht hd hdot hgap =>
    rw [List.append_assoc, List.cons_append, List.append_assoc, List.cons_append]
    refine h.accused_dot hn ht hd hdot ?_
    rw [lexemes_append, hgap, hclose]
    exact .nothing
  | tailed h hn ht hd hdot htail =>
    rw [Reading.close, List.append_assoc, Datum.ofReversed_eq]
    apply h.deliver
    rw [List.cons_append, lexemes_cons (by rw [ht]; rfl), ht, List.append_assoc, List.cons_append,
      lexemes_append, lexemes_cons (by rw [hdot]; rfl), hdot, lexemes_append, hclose, room_succ hn]
    exact .dotted hd htail

theorem dot (h : OpenedBy contexts tokens) (span : Span) :
    (Reading.dot span contexts).Traced (tokens ++ [⟨.dot, span⟩]) := by
  cases h with
  | nil h => exact accused_last (.nil h) fun rest => .dot rfl (.inl (OpenedBy.nil h).head?_ne_of_nil)
  | quote h hn ht hgap =>
    have hquote := OpenedBy.quote h hn ht hgap
    exact accused_last hquote fun rest => .dot rfl (.inl hquote.head?_ne_of_quote)
  | items h hn ht hd =>
    rw [List.append_assoc, List.cons_append]
    have hdot : (⟨.dot, span⟩ : Token).lexeme = .dot := rfl
    have hgap : lexemes [] = [] := rfl
    exact OpenedBy.dotted h hn ht hd hdot hgap
  | @dotted _ tokens t _ inner dot _ h hn ht hd hdot hgap =>
    refine accused_last (.dotted h hn ht hd hdot hgap) fun rest => .dot rfl (.inr ?_)
    refine ⟨lexemes (tokens ++ t :: inner), ?_⟩
    rw [← List.cons_append, ← List.append_assoc, lexemes_append, lexemes_cons (by rw [hdot]; rfl), hdot, hgap]
  | tailed h hn ht hd hdot htail =>
    rw [List.append_assoc, List.cons_append, List.append_assoc, List.cons_append]
    refine h.accused_dot hn ht hd hdot ?_
    rw [lexemes_append]
    exact .dot htail

theorem enter (h : OpenedBy contexts tokens) {context : Context} {t : Token}
    (ht : t.lexeme = .leftParen ∨ t.lexeme = .quote)
    (hopen : contexts.length < maxNesting → OpenedBy (context :: contexts) (tokens ++ [t])) :
    (Reading.enter context t.span contexts).Traced (tokens ++ [t]) := by
  have hle := h.length_le
  unfold Reading.enter
  split_ifs with hn
  · refine accused_last h fun rest => .nesting ht ?_
    rw [h.openings, List.length_map]
    omega
  · exact hopen (by omega)

/-- **One token.** -/
theorem next (h : OpenedBy contexts tokens) {t : Token} (ht : t.lexeme ≠ .endOfText) :
    (Reading.next contexts t).Traced (tokens ++ [t]) := by
  revert ht
  apply Reading.next_cases (motive := fun t r => t.lexeme ≠ .endOfText → r.Traced (tokens ++ [t]))
  case separator => exact fun t hsep _ => h.gap (lexemes_separator hsep [])
  case atom =>
    intro t d hatom _
    have hsep : t.lexeme.isSeparator = false := by
      cases hl : t.lexeme <;> rw [hl] at hatom <;> first | rfl | cases hatom
    refine h.deliver ?_
    rw [lexemes_cons hsep]
    exact .of_atom? hatom
  case fault =>
    intro t fault hfault hend
    refine accused_last h fun rest => ?_
    rcases Reading.fault_cases hfault with ⟨hlexeme, -⟩ | ⟨detail, hlexeme, rfl⟩ | ⟨text, hlexeme, hnone, rfl⟩
    · exact absurd hlexeme hend
    · exact .lexical hlexeme
    · exact .number hlexeme hnone
  case leftParen =>
    intro span _
    refine h.enter (.inl rfl) fun hn => ?_
    have ht : (⟨.leftParen, span⟩ : Token).lexeme = .leftParen := rfl
    have hd : Derives (maxNesting - (contexts.length + 1)) (lexemes []) (.data [].reverse) := .none
    exact OpenedBy.items h hn ht hd
  case rightParen => exact fun span _ => h.close span
  case quote => exact fun span _ => h.enter (.inr rfl) fun hn => .quote h hn rfl rfl
  case dot => exact fun span _ => h.dot span

/-- **All tokens.** If reading on fails, one of the tokens is to blame, or they end too early. -/
theorem accused (h : OpenedBy contexts tokens) {others : List Token}
    (hend : ∀ t ∈ others, t.lexeme ≠ .endOfText) {stop : Position} {e : Error}
    (he : TokenStream.readDataFrom stop contexts others = .error e) :
    Accused (tokens ++ others) e ∨
      (∃ contexts', OpenedBy contexts' (tokens ++ others)) ∧ e = ⟨.endOfInput, some ⟨stop, 0⟩⟩ := by
  induction others generalizing contexts tokens with
  | nil =>
    right
    rw [List.append_nil]
    refine ⟨⟨contexts, h⟩, ?_⟩
    cases contexts with
    | nil => cases he
    | cons context outer =>
      cases he
      rfl
  | cons t others ih =>
    have htraced := h.next (hend t List.mem_cons_self)
    have hend' : ∀ t ∈ others, t.lexeme ≠ .endOfText := fun t ht => hend t (List.mem_cons_of_mem _ ht)
    rw [readDataFrom_cons] at he
    rw [List.append_cons]
    cases hn : Reading.next contexts t with
    | pending contexts' =>
      rw [hn] at he htraced
      exact ih htraced hend' he
    | complete d =>
      rw [hn] at he htraced
      refine ih htraced hend' ?_
      cases hrest : TokenStream.readDataFrom stop [] others with
      | error e' =>
        simp only [readDataAfter, hrest] at he
        cases he
        rfl
      | ok ds =>
        simp only [readDataAfter, hrest] at he
        cases he
    | failed e' =>
      rw [hn] at he htraced
      cases he
      obtain ⟨contexts', before, t', used, heq, hbefore, hspan, hblamed⟩ := htraced
      refine .inl ⟨contexts', before, t', used ++ others, by simp [heq], hbefore, hspan, ?_⟩
      intro rest
      rw [List.append_assoc]
      exact hblamed (others ++ rest)

end OpenedBy

/-! ## Reading the tokens leads there -/

namespace TokenStream

variable {tokens : List Token}

theorem readDataFrom_gap (h : lexemes tokens = []) (stop : Position) (contexts : List Context)
    (more : List Token) : readDataFrom stop contexts (tokens ++ more) = readDataFrom stop contexts more := by
  rw [← readDataFrom_significant, significant_append, List.map_eq_nil_iff.mp h, List.nil_append,
    readDataFrom_significant]

theorem readDataFrom_datum {n : Nat} {d : Datum} (h : Derives n (lexemes tokens) (.datum d))
    {contexts : List Context} (hn : contexts.length + n ≤ maxNesting) (stop : Position)
    (more : List Token) :
    readDataFrom stop contexts (tokens ++ more) =
      readDataAfter stop more (Reading.deliver [] d contexts).2 := by
  have hread := h.reads stop contexts (significant tokens) (significant more) hn rfl
  rw [← readDataFrom_significant, significant_append, readDataFrom, hread]
  cases (Reading.deliver [] d contexts).2 with
  | pending contexts' => exact readDataFrom_significant stop contexts' more
  | complete d' =>
    show (readData ⟨significant more, stop⟩).map _ = _
    rw [readData_significant, readData_eq_from]
    rfl
  | failed e => rfl

theorem readDataFrom_items {n : Nat} {ds : List Datum} (h : Derives n (lexemes tokens) (.data ds))
    {outer : List Context} (hn : outer.length + 1 + n ≤ maxNesting) (stop : Position) (start : Span)
    (found : List Datum) (more : List Token) :
    readDataFrom stop (.items start found :: outer) (tokens ++ more) =
      readDataFrom stop (.items start (ds.reverse ++ found) :: outer) more := by
  have hread := h.reads stop start found outer (significant tokens) (significant more) hn rfl
  rw [← readDataFrom_significant, significant_append, readDataFrom, hread, ← readDataFrom_significant _ _ more]
  rfl

/-- A parenthesis opens a list and a quotation mark a quote while there is room. -/
theorem readDataFrom_opening {contexts : List Context} {t : Token} {context : Context}
    (hn : contexts.length < maxNesting)
    (ht : t.lexeme = .leftParen ∧ context = .items t.span [] ∨ t.lexeme = .quote ∧ context = .quote)
    (stop : Position) (more : List Token) :
    readDataFrom stop contexts (t :: more) = readDataFrom stop (context :: contexts) more := by
  have henter : Reading.next contexts t = .enter context t.span contexts := by
    obtain ⟨lexeme, span⟩ := t
    rcases ht with ⟨rfl, rfl⟩ | ⟨rfl, rfl⟩ <;> rfl
  rw [readDataFrom_cons, henter, Reading.enter, if_neg (by omega)]
  rfl

theorem readDataFrom_dot {t : Token} (ht : t.lexeme = .dot) (stop : Position) (start : Span)
    (found : List Datum) (outer : List Context) (more : List Token) :
    readDataFrom stop (.items start found :: outer) (t :: more) =
      readDataFrom stop (.dotted found t.span :: outer) more := by
  obtain ⟨lexeme, span⟩ := t
  subst ht
  rw [readDataFrom_cons]
  rfl

theorem readDataFrom_data {n : Nat} {ls : List Lexeme} {ds : List Datum} (h : Derives n ls (.data ds))
    (hn : n ≤ maxNesting) (hl : tokens.map Token.lexeme = ls) (stop : Position) (more : List Token) :
    readDataFrom stop [] (tokens ++ more) = (readDataFrom stop [] more).map (ds ++ ·) := by
  generalize hφ : Phrase.data ds = φ at h
  induction h generalizing ds tokens with
  | none =>
    cases hφ
    rw [List.map_eq_nil_iff.mp hl, List.nil_append]
    cases readDataFrom stop [] more <;> rfl
  | more h _ _ ih =>
    cases hφ
    obtain ⟨first, others, rfl, hfirst, hothers⟩ := List.map_eq_append_iff.mp hl
    have hread := h.reads stop [] first (others ++ more) (by simpa using hn) hfirst
    rw [List.append_assoc, readDataFrom, hread]
    show (readData ⟨others ++ more, stop⟩).map _ = _
    rw [readData_eq_from, ih hn hothers rfl]
    cases readDataFrom stop [] more <;> rfl
  | _ => cases hφ

end TokenStream

namespace OpenedBy

variable {contexts : List Context} {tokens : List Token}

/-- **The tokens are read.** They give some data and lead to the contexts. -/
theorem readDataFrom (h : OpenedBy contexts tokens) :
    ∃ ds, ∀ stop more, TokenStream.readDataFrom stop [] (tokens ++ more) =
      (TokenStream.readDataFrom stop contexts more).map (ds ++ ·) := by
  induction h with
  | @nil tokens ds h =>
    refine ⟨ds, ?_⟩
    intro stop more
    rw [← readDataFrom_significant, significant_append,
      readDataFrom_data h (Nat.le_refl _) rfl, readDataFrom_significant]
  | @quote contexts tokens t gap _ hn ht hgap ih =>
    obtain ⟨ds, hds⟩ := ih
    refine ⟨ds, ?_⟩
    intro stop more
    rw [List.append_assoc, hds, List.cons_append, readDataFrom_opening hn (.inr ⟨ht, rfl⟩),
      readDataFrom_gap hgap]
  | @items contexts tokens t found inner _ hn ht hd ih =>
    obtain ⟨ds, hds⟩ := ih
    refine ⟨ds, ?_⟩
    intro stop more
    rw [List.append_assoc, hds, List.cons_append, readDataFrom_opening hn (.inl ⟨ht, rfl⟩),
      readDataFrom_items hd (by omega), List.append_nil, List.reverse_reverse]
  | @dotted contexts tokens t found inner dot gap _ hn ht hd hdot hgap ih =>
    obtain ⟨ds, hds⟩ := ih
    refine ⟨ds, ?_⟩
    intro stop more
    rw [List.append_assoc, hds, List.cons_append, readDataFrom_opening hn (.inl ⟨ht, rfl⟩),
      List.append_assoc, readDataFrom_items hd (by omega), List.append_nil, List.reverse_reverse,
      List.cons_append, readDataFrom_dot hdot, readDataFrom_gap hgap]
  | @tailed contexts tokens t found inner dot tail d _ hn ht hd hdot htail ih =>
    obtain ⟨ds, hds⟩ := ih
    refine ⟨ds, ?_⟩
    intro stop more
    rw [List.append_assoc, hds, List.cons_append, readDataFrom_opening hn (.inl ⟨ht, rfl⟩),
      List.append_assoc, readDataFrom_items hd (by omega), List.append_nil, List.reverse_reverse,
      List.cons_append, readDataFrom_dot hdot,
      readDataFrom_datum htail (by rw [List.length_cons]; omega)]
    rfl

end OpenedBy

end SmallScheme
