import SmallScheme.Proofs.Faults
import SmallScheme.Proofs.OpenLiteral

/-!
# Input that awaits more

`completable_iff`: which of the texts that fail awaiting more can be completed.

1. What follows a text changes its last lexeme at most (`exists_last_lexeme`), so the lists and quotes that are
   open before it are open whatever follows.
2. A list that has its tail takes nothing but its closing parenthesis. If something is open inside one, it
   cannot be completed (`readDataFrom_of_doomed`).
3. Otherwise a datum, if one is missing, and the closing parentheses complete the text
   (`Context.readDataAfter_deliver`).
-/

namespace SmallScheme

open Text TokenStream

/-! ## The last lexeme -/

namespace Found

theorem comment_extends {cs : List Char} (h : (comment ';' cs).rest ≠ []) (more : List Char) :
    (comment ';' cs).Extends more (comment ';' (cs ++ more)) := by
  unfold comment at h ⊢
  dsimp only at h ⊢
  cases hdrop : cs.dropWhile (· != '\n') with
  | nil =>
    rw [hdrop] at h
    exact absurd rfl h
  | cons feed rest =>
    have hne : cs.dropWhile (· != '\n') ≠ [] := by
      rw [hdrop]
      exact List.cons_ne_nil _ _
    obtain ⟨htake, hdrop'⟩ := takeWhile_dropWhile_append cs more (.inl hne)
    rw [htake, hdrop', hdrop]
    exact ⟨rfl, rfl⟩

theorem word_extends_of_rest {c : Char} {cs : List Char} (h : (word c cs).rest ≠ []) (more : List Char) :
    (word c cs).Extends more (word c (cs ++ more)) := by
  cases cs with
  | nil =>
    unfold word at h
    split_ifs at h <;> exact absurd rfl h
  | cons d cs =>
    unfold word at h ⊢
    rw [List.head?_cons] at h
    rw [List.cons_append, List.head?_cons, List.head?_cons]
    split_ifs at h ⊢
    · exact ⟨rfl, rfl⟩
    · exact ⟨rfl, rfl⟩
    all_goals
      obtain ⟨htake, hdrop⟩ := takeWhile_dropWhile_append (p := isWordChar) (d :: cs) more (.inl h)
      rw [List.cons_append] at htake hdrop
      simp only [run, htake, hdrop]
      exact ⟨rfl, rfl⟩

/-- A lexeme with something behind it does not depend on what follows that. -/
theorem first_extends_of_rest {c : Char} {cs : List Char} (h : (first c cs).rest ≠ []) (more : List Char) :
    (first c cs).Extends more (first c (cs ++ more)) := by
  by_cases hblank : isBlank c = true
  · rw [first_blank hblank] at h ⊢
    rw [first_blank hblank]
    obtain ⟨htake, hdrop⟩ := takeWhile_dropWhile_append cs more (.inl h)
    simp only [run, htake, hdrop]
    exact ⟨rfl, rfl⟩
  · revert h
    unfold first
    rw [if_neg hblank, if_neg hblank]
    split
    · exact fun _ => ⟨rfl, rfl⟩
    · exact fun _ => ⟨rfl, rfl⟩
    · exact fun _ => ⟨rfl, rfl⟩
    · intro h
      rcases StringLiteral.scanFrom_append {} cs more with ⟨-, hrest⟩ | hextends
      · exact absurd hrest h
      · exact hextends
    · exact fun h => comment_extends h more
    · intro h
      obtain ⟨htake, hdrop⟩ := takeWhile_dropWhile_append cs more (.inl h)
      simp only [hash, htake, hdrop]
      exact ⟨rfl, rfl⟩
    · exact fun h => word_extends_of_rest h more

/-- Only a string literal can be cut off, and it extends to the end of the text then. -/
theorem first_isCut {c : Char} {cs : List Char} (h : (first c cs).lexeme.isCut = true) :
    c = '"' ∧ (first c cs).rest = [] := by
  revert h
  apply first_cases (motive := fun c cs found => found.lexeme.isCut = true → c = '"' ∧ found.rest = [])
  case blank => exact fun c cs _ h => by cases h
  case leftParen => exact fun cs h => by cases h
  case rightParen => exact fun cs h => by cases h
  case quote => exact fun cs h => by cases h
  case string => exact fun cs h => ⟨rfl, StringLiteral.rest_of_isCut h⟩
  case comment =>
    intro cs h
    unfold comment at h
    dsimp only at h
    split at h <;> cases h
  case hash =>
    intro cs h
    simp only [hash, hashWord] at h
    split_ifs at h
    · cases h
    · cases h
    · change unterminatedString.toList.isPrefixOf ("unsupported hash code #" ++ _).toList = true at h
      rw [String.toList_append] at h
      cases h
  case dot => exact fun cs _ h => by cases h
  case illegal =>
    intro c cs _ _ _ h
    change unterminatedString.toList.isPrefixOf ("unexpected character " ++ _).toList = true at h
    rw [String.toList_append] at h
    cases h
  case word =>
    intro c cs _ _ _ h
    split_ifs at h <;> cases h

end Found

/-- **The last lexeme.** The tokens in front of it do not depend on what follows the text, and none of them is
cut off. -/
theorem exists_last_lexeme (p : Position) {cs : List Char} (h : cs ≠ []) :
    ∃ front c w ts, cs = front ++ c :: w ∧ (Found.first c w).rest = [] ∧
      (∀ t ∈ ts, t.lexeme.isCut = false ∧ t.lexeme ≠ .endOfText) ∧
      ∀ more, tokensAt p (cs ++ more) = ts ++ tokensAt (p.after front) (c :: (w ++ more)) := by
  induction p, cs using placed.induct with
  | case1 p => exact absurd rfl h
  | case2 p c cs ih =>
    by_cases hrest : (Found.first c cs).rest = []
    · exact ⟨[], c, cs, [], rfl, hrest, by simp, fun more => rfl⟩
    · obtain ⟨front, d, w, ts, hcs, hlast, hts, htokens⟩ := ih hrest
      refine ⟨(Found.first c cs).written ++ front, d, w,
        ⟨(Found.first c cs).lexeme, ⟨p, (Found.first c cs).written.length⟩⟩ :: ts, ?_, hlast, ?_, ?_⟩
      · rw [List.append_assoc, ← hcs, Found.written_append_rest]
      · intro t ht
        rcases List.mem_cons.mp ht with rfl | ht
        · refine ⟨?_, (Found.faithful_first c cs).1⟩
          rw [Bool.eq_false_iff]
          intro hcut
          exact hrest (Found.first_isCut hcut).2
        · exact hts t ht
      · intro more
        have hextends := Found.first_extends_of_rest hrest more
        rw [List.cons_append, tokensAt_cons, hextends.1, hextends.2, hextends.written_eq, htokens,
          Position.after_append]
        rfl

/-! ## Reading on within open contexts -/

namespace TokenStream

/-- All data of tokens that are read after a reading, or the first failure. -/
def readDataAfter (stop : Position) (tokens : List Token) : Reading → Except Error (List Datum)
  | .pending contexts => readDataFrom stop contexts tokens
  | .complete d => (readDataFrom stop [] tokens).map (d :: ·)
  | .failed e => .error e

theorem readDataFrom_cons (stop : Position) (contexts : List Context) (t : Token) (tokens : List Token) :
    readDataFrom stop contexts (t :: tokens) = readDataAfter stop tokens (.next contexts t) := by
  rw [readDataFrom, readFrom_cons]
  cases Reading.next contexts t with
  | pending contexts' => rfl
  | complete d =>
    show (readData ⟨tokens, stop⟩).map _ = _
    rw [readData_eq_from]
    rfl
  | failed e => rfl

/-- The contexts that are open where reading the tokens stops, at their end or at the first failure. -/
def leftOpen (contexts : List Context) : List Token → List Context
  | [] => contexts
  | t :: tokens =>
    match Reading.next contexts t with
    | .pending contexts' => leftOpen contexts' tokens
    | .complete _ => leftOpen [] tokens
    | .failed _ => contexts

/-- Some tokens and then others: either the first are read, and the contexts that they leave open decide, or
one of them fails. -/
theorem readDataFrom_append (contexts : List Context) (tokens : List Token) :
    (∃ ds, (∀ more, leftOpen contexts (tokens ++ more) = leftOpen (leftOpen contexts tokens) more) ∧
      ∀ stop more, readDataFrom stop contexts (tokens ++ more) =
        (readDataFrom stop (leftOpen contexts tokens) more).map (ds ++ ·)) ∨
    ∃ e, (∃ t ∈ tokens, ∃ contexts', Reading.next contexts' t = .failed e) ∧
      ∀ stop more, readDataFrom stop contexts (tokens ++ more) = .error e := by
  induction tokens generalizing contexts with
  | nil =>
    refine .inl ⟨[], fun more => rfl, ?_⟩
    intro stop more
    show readDataFrom stop contexts more = (readDataFrom stop contexts more).map _
    cases readDataFrom stop contexts more <;> rfl
  | cons t tokens ih =>
    simp only [List.cons_append, readDataFrom_cons, leftOpen]
    cases hn : Reading.next contexts t with
    | pending contexts' =>
      rcases ih contexts' with ⟨ds, hopen, hread⟩ | ⟨e, ⟨t', ht', hfails⟩, hread⟩
      · exact .inl ⟨ds, hopen, hread⟩
      · exact .inr ⟨e, ⟨t', List.mem_cons_of_mem t ht', hfails⟩, hread⟩
    | complete d =>
      rcases ih [] with ⟨ds, hopen, hread⟩ | ⟨e, ⟨t', ht', hfails⟩, hread⟩
      · refine .inl ⟨d :: ds, hopen, ?_⟩
        intro stop more
        simp only [readDataAfter, hread]
        cases readDataFrom stop (leftOpen [] tokens) more <;> rfl
      · refine .inr ⟨e, ⟨t', List.mem_cons_of_mem t ht', hfails⟩, ?_⟩
        intro stop more
        simp only [readDataAfter, hread]
        rfl
    | failed e => exact .inr ⟨e, ⟨t, List.mem_cons_self, contexts, hn⟩, fun stop more => rfl⟩

end TokenStream

/-! ## Nothing fits behind a tail -/

/-- The list has its tail. -/
def Context.isTailed : Context → Bool
  | tailed .. => true
  | _ => false

/-- Something is open inside a list that has its tail. -/
def Doomed (contexts : List Context) : Prop := contexts.tail.any Context.isTailed = true

/-- The reading has failed, or it will. -/
def Reading.Stuck : Reading → Prop
  | .pending contexts => Doomed contexts
  | .complete _ => False
  | .failed _ => True

namespace Reading

theorem stuck_deliver {contexts : List Context} (h : contexts.any Context.isTailed = true) (d : Datum) :
    (deliver [] d contexts).2.Stuck := by
  induction contexts generalizing d with
  | nil => cases h
  | cons context outer ih =>
    cases context with
    | quote =>
      rw [deliver, deliver_snd]
      exact ih h _
    | items start found => exact h
    | dotted found dot => exact h
    | tailed found dot tail => trivial

theorem stuck_close {contexts : List Context} (h : Doomed contexts) (span : Span) :
    (close [] span contexts).2.Stuck := by
  match contexts, h with
  | [], h => cases h
  | .quote :: _, _ => trivial
  | .dotted .. :: _, _ => trivial
  | .items start found :: outer, h =>
    rw [close, deliver_snd]
    exact stuck_deliver h _
  | .tailed found dot tail :: outer, h =>
    rw [close, deliver_snd]
    exact stuck_deliver h _

theorem stuck_dot {contexts : List Context} (h : Doomed contexts) (span : Span) :
    (dot span contexts).Stuck := by
  match contexts, h with
  | [], h => cases h
  | .quote :: _, _ => trivial
  | .dotted .. :: _, _ => trivial
  | .items start found :: outer, h => exact h
  | .tailed found dot tail :: outer, _ => trivial

theorem stuck_enter {contexts : List Context} (h : contexts.any Context.isTailed = true)
    (context : Context) (span : Span) : (enter context span contexts).Stuck := by
  unfold enter
  split_ifs
  · trivial
  · exact h

end Reading

theorem Doomed.any_isTailed {contexts : List Context} (h : Doomed contexts) :
    contexts.any Context.isTailed = true := by
  cases contexts with
  | nil => cases h
  | cons context outer =>
    rw [List.any_cons, Bool.or_eq_true]
    exact .inr h

/-- **No token helps.** -/
theorem Reading.stuck_next {contexts : List Context} (h : Doomed contexts) (t : Token) :
    (next contexts t).Stuck := by
  apply next_cases (motive := fun _ r => r.Stuck)
  case separator => exact fun t _ => h
  case atom => exact fun t d _ => stuck_deliver h.any_isTailed d
  case fault => exact fun t fault _ => trivial
  case leftParen => exact fun span => stuck_enter h.any_isTailed _ span
  case rightParen => exact fun span => stuck_close h span
  case quote => exact fun span => stuck_enter h.any_isTailed _ span
  case dot => exact fun span => stuck_dot h span

theorem readDataFrom_of_doomed {contexts : List Context} (h : Doomed contexts) (stop : Position)
    (tokens : List Token) : ∃ e, readDataFrom stop contexts tokens = .error e := by
  induction tokens generalizing contexts with
  | nil =>
    cases contexts with
    | nil => cases h
    | cons context outer => exact ⟨_, rfl⟩
  | cons t tokens ih =>
    have hstuck := Reading.stuck_next h t
    rw [readDataFrom_cons]
    cases hn : Reading.next contexts t with
    | pending contexts' =>
      rw [hn] at hstuck
      exact ih hstuck
    | complete d =>
      rw [hn] at hstuck
      cases hstuck
    | failed e => exact ⟨e, rfl⟩

theorem readDataAfter_of_stuck {r : Reading} (h : r.Stuck) (stop : Position) (tokens : List Token) :
    ∃ e, readDataAfter stop tokens r = .error e := by
  cases r with
  | pending contexts => exact readDataFrom_of_doomed h stop tokens
  | complete d => cases h
  | failed e => exact ⟨e, rfl⟩

/-! ## Closing what is open -/

/-- The closing parentheses that contexts need. -/
def Context.closing : List Context → Nat
  | [] => 0
  | .quote :: outer => closing outer
  | _ :: outer => closing outer + 1

/-- A datum and as many parentheses as there are lists complete what is open, if no list has its tail. -/
theorem Context.readDataAfter_deliver {contexts : List Context}
    (h : contexts.any Context.isTailed = false) (d : Datum) (stop : Position) {tokens : List Token}
    (htokens : tokens.map Token.lexeme = List.replicate (Context.closing contexts) .rightParen) :
    ∃ ds, readDataAfter stop tokens (Reading.deliver [] d contexts).2 = .ok ds := by
  induction contexts generalizing d tokens with
  | nil =>
    rw [Context.closing, List.replicate_zero, List.map_eq_nil_iff] at htokens
    subst htokens
    exact ⟨[d], rfl⟩
  | cons context outer ih =>
    cases context with
    | quote =>
      rw [Reading.deliver, Reading.deliver_snd]
      exact ih h _ htokens
    | items start found =>
      obtain ⟨⟨_, span⟩, tokens, rfl, rfl, hmore⟩ := List.map_eq_cons_iff.mp htokens
      show ∃ ds, readDataFrom stop _ _ = .ok ds
      rw [readDataFrom_cons, Reading.next_rightParen, Reading.close, Reading.deliver_snd]
      exact ih h _ hmore
    | dotted found dot =>
      obtain ⟨⟨_, span⟩, tokens, rfl, rfl, hmore⟩ := List.map_eq_cons_iff.mp htokens
      show ∃ ds, readDataFrom stop _ _ = .ok ds
      rw [readDataFrom_cons, Reading.next_rightParen, Reading.close]
      exact ih h _ hmore
    | tailed found dot tail => cases h

theorem lexemesOf_closing (n : Nat) :
    lexemesOf (List.replicate n ')') = List.replicate n .rightParen := by
  induction n with
  | zero => exact lexemesOf_nil
  | succ n ih => rw [List.replicate_succ, lexemesOf_rightParen, ih, List.replicate_succ]

theorem map_lexeme_tokensAt_closing (p : Position) (n : Nat) :
    (tokensAt p (List.replicate n ')')).map Token.lexeme = List.replicate n .rightParen := by
  induction n generalizing p with
  | zero =>
    rw [List.replicate_zero, tokensAt_nil]
    rfl
  | succ n ih =>
    rw [List.replicate_succ, tokensAt_cons, List.map_cons, List.replicate_succ]
    exact congrArg (List.cons Lexeme.rightParen) (ih _)

theorem delimited_closing (n : Nat) : Delimited (List.replicate n ')') := by
  cases n <;> rfl

/-- A datum and parentheses complete what is open, if no list has its tail. -/
theorem exists_datum_completes {contexts : List Context} (h : contexts.any Context.isTailed = false) :
    ∃ more, ∀ stop p, ∃ ds, readDataFrom stop contexts (placed p more) = .ok ds := by
  refine ⟨(Literal.boolean true).text.toList ++ List.replicate (Context.closing contexts) ')', ?_⟩
  intro stop p
  have hlexemes := map_lexeme_placed p
    ((Literal.boolean true).text.toList ++ List.replicate (Context.closing contexts) ')')
  rw [lexemesOf_boolean true (delimited_closing _), lexemesOf_closing] at hlexemes
  obtain ⟨⟨_, span⟩, tokens, hplaced, rfl, hmore⟩ := List.map_eq_cons_iff.mp hlexemes
  rw [hplaced, readDataFrom_cons, Reading.next_boolean]
  exact Context.readDataAfter_deliver h _ stop hmore

/-- A list that a parenthesis completes is completed with all that is open around it, if no list there has its
tail. -/
theorem exists_closing_completes {context : Context} {outer : List Context}
    (hclose : ∀ span, ∃ d, (Reading.close [] span (context :: outer)).2 = (Reading.deliver [] d outer).2)
    (h : outer.any Context.isTailed = false) :
    ∃ more, ∀ stop p, ∃ ds, readDataFrom stop (context :: outer) (placed p more) = .ok ds := by
  refine ⟨List.replicate (Context.closing outer + 1) ')', ?_⟩
  intro stop p
  have hlexemes := map_lexeme_placed p (List.replicate (Context.closing outer + 1) ')')
  rw [lexemesOf_closing] at hlexemes
  obtain ⟨⟨_, span⟩, tokens, hplaced, rfl, hmore⟩ := List.map_eq_cons_iff.mp hlexemes
  obtain ⟨d, hd⟩ := hclose span
  rw [hplaced, readDataFrom_cons, Reading.next_rightParen, hd]
  exact Context.readDataAfter_deliver h d stop hmore

/-- **What is open can be closed** unless it is inside a list that has its tail. -/
theorem exists_readDataFrom_ok {contexts : List Context} (hne : contexts ≠ []) (h : ¬Doomed contexts) :
    ∃ more, ∀ stop p, ∃ ds, readDataFrom stop contexts (placed p more) = .ok ds := by
  rw [Doomed, Bool.not_eq_true] at h
  match contexts, hne, h with
  | .items start found :: outer, _, h =>
    exact exists_closing_completes (fun span => ⟨_, Reading.deliver_snd _ _ _⟩) h
  | .tailed found dot tail :: outer, _, h => exact exists_closing_completes (fun span => ⟨_, rfl⟩) h
  | .quote :: outer, _, h => exact exists_datum_completes h
  | .dotted found dot :: outer, _, h => exact exists_datum_completes h

/-! ## Texts that await more -/

/-- The inside of the string literal in which a text ends. -/
def openLiteral? (text : String) : Option (List Char) :=
  match (ofString text).tokens.getLast? with
  | some t => if t.lexeme.isCut then some (text.toList.drop (t.span.start.offset + 1)) else none
  | none => none

/-- A text that awaits more can be completed: nothing that is missing is missing inside a list that has its
tail, and a string literal in which the text ends can be closed. -/
def completable (text : String) : Bool :=
  let contexts := leftOpen [] (ofString text).tokens
  match openLiteral? text with
  | none => !contexts.tail.any Context.isTailed
  | some inside => !contexts.any Context.isTailed && StringLiteral.canClose inside

/-- The last token of a text that ends in the lexeme of these characters. -/
def lastToken (front : List Char) (c : Char) (w : List Char) : Token :=
  ⟨(Found.first c w).lexeme, ⟨({} : Position).after front, (Found.first c w).written.length⟩⟩

/-- A text that ends in a lexeme, with the contexts that are open in front of it. Whether the text can be read
when it goes on is decided by how that lexeme goes on within these. -/
structure EndsIn (cs front : List Char) (c : Char) (w : List Char) (contexts : List Context) : Prop where
  split : cs = front ++ c :: w
  rest : (Found.first c w).rest = []
  tokens : ∃ ts, tokensAt {} cs = ts ++ [lastToken front c w]
  leftOpen : leftOpen [] (tokensAt {} cs) = leftOpen contexts [lastToken front c w]
  reads : ∃ ds, ∀ more, readAt {} (cs ++ more) =
    (readDataFrom (({} : Position).after (cs ++ more)) contexts
      (tokensAt (({} : Position).after front) (c :: (w ++ more)))).map (ds ++ ·)

theorem tokensAt_last {p : Position} {c : Char} {w : List Char} (h : (Found.first c w).rest = []) :
    tokensAt p (c :: w) = [⟨(Found.first c w).lexeme, ⟨p, (Found.first c w).written.length⟩⟩] := by
  rw [tokensAt_cons, h, tokensAt_nil]

theorem readAt_eq_readDataFrom (p : Position) (cs : List Char) :
    readAt p cs = readDataFrom (p.after cs) [] (tokensAt p cs) := by
  rw [readAt_eq, scanFrom_eq, readData_eq_from]

/-- A failure that awaits more lies in the end of the input or in a literal that is cut off. -/
theorem Reading.isCut_of_incomplete {contexts : List Context} {t : Token} {e : Error}
    (h : next contexts t = .failed e) (he : e.isIncomplete = true) (ht : t.lexeme ≠ .endOfText) :
    t.lexeme.isCut = true := by
  rcases next_failed h with ⟨hend, -⟩ | ⟨detail, hdetail, rfl⟩ | ⟨-, hstructural⟩
  · exact absurd hend ht
  · rw [hdetail]
    exact he
  · obtain ⟨fault, span⟩ := e
    cases fault <;> simp_all [Error.isIncomplete, Fault.isStructural]

/-- A text that awaits more is read up to its last lexeme. -/
theorem exists_endsIn {cs : List Char} {e : Error} (h : readAt {} cs = .error e)
    (he : e.isIncomplete = true) : ∃ front c w contexts, EndsIn cs front c w contexts := by
  have hne : cs ≠ [] := by
    rintro rfl
    rw [readAt_eq_readDataFrom, tokensAt_nil] at h
    cases h
  obtain ⟨front, c, w, ts, hsplit, hrest, hts, htokens⟩ := exists_last_lexeme {} hne
  have hlast : tokensAt {} cs = ts ++ [lastToken front c w] := by
    have hnil := htokens []
    rwa [List.append_nil, List.append_nil, tokensAt_last hrest] at hnil
  rcases readDataFrom_append [] ts with ⟨ds, hopen, hread⟩ | ⟨e', ⟨t, ht, contexts, hfails⟩, hread⟩
  · refine ⟨front, c, w, leftOpen [] ts, hsplit, hrest, ⟨ts, hlast⟩, ?_, ds, ?_⟩
    · rw [hlast, hopen]
    · intro more
      rw [readAt_eq_readDataFrom, htokens, hread]
  · -- a token in front of the last one is no reason to await more
    rw [readAt_eq_readDataFrom, hlast, hread] at h
    cases h
    obtain ⟨hcut, hend⟩ := hts t ht
    rw [Reading.isCut_of_incomplete hfails he hend] at hcut
    cases hcut

theorem Lexeme.exists_of_isCut {l : Lexeme} (h : l.isCut = true) : ∃ detail, l = .illegal detail := by
  cases l with
  | illegal detail => exact ⟨detail, rfl⟩
  | _ => cases h

theorem Reading.next_illegal {t : Token} {detail : String} (h : t.lexeme = .illegal detail)
    (contexts : List Context) : next contexts t = failAt (.lexical detail) t.span := by
  obtain ⟨lexeme, span⟩ := t
  subst h
  rfl

namespace EndsIn

variable {cs front w : List Char} {c : Char} {contexts : List Context}

theorem tokensAt_eq (h : EndsIn cs front c w contexts) :
    tokensAt (({} : Position).after front) (c :: w) = [lastToken front c w] :=
  tokensAt_last h.rest

/-- The last lexeme leaves something open, or else it is a literal that is cut off. -/
theorem next_cases (h : EndsIn cs front c w contexts) {e : Error} (hread : readAt {} cs = .error e)
    (he : e.isIncomplete = true) :
    ((lastToken front c w).lexeme.isCut = false ∧ ∃ contexts', contexts' ≠ [] ∧
        Reading.next contexts (lastToken front c w) = .pending contexts' ∧
        TokenStream.leftOpen [] (tokensAt {} cs) = contexts') ∨
      ((lastToken front c w).lexeme.isCut = true ∧
        TokenStream.leftOpen [] (tokensAt {} cs) = contexts) := by
  obtain ⟨ds, hreads⟩ := h.reads
  have hlast := hreads []
  rw [List.append_nil, List.append_nil, hread, h.tokensAt_eq, readDataFrom_cons] at hlast
  have hopen := h.leftOpen
  rw [TokenStream.leftOpen] at hopen
  cases hn : Reading.next contexts (lastToken front c w) with
  | pending contexts' =>
    rw [hn] at hopen hlast
    refine .inl ⟨?_, contexts', ?_, rfl, hopen⟩
    · rw [Bool.eq_false_iff]
      intro hcut
      obtain ⟨detail, hdetail⟩ := Lexeme.exists_of_isCut hcut
      rw [Reading.next_illegal hdetail] at hn
      cases hn
    · rintro rfl
      cases hlast
  | complete d =>
    rw [hn] at hlast
    cases hlast
  | failed e' =>
    rw [hn] at hopen hlast
    cases hlast
    exact .inr ⟨Reading.isCut_of_incomplete hn he (Found.faithful_first c w).1, hopen⟩

/-- When the text goes on, so does the last lexeme. -/
theorem readAt_append_ok_iff (h : EndsIn cs front c w contexts) (more : List Char) :
    (∃ ds, readAt {} (cs ++ more) = .ok ds) ↔
      ∃ ds, readDataFrom (({} : Position).after (cs ++ more)) contexts
        (tokensAt (({} : Position).after front) (c :: (w ++ more))) = .ok ds := by
  obtain ⟨ds, hreads⟩ := h.reads
  rw [hreads more]
  cases readDataFrom (({} : Position).after (cs ++ more)) contexts
      (tokensAt (({} : Position).after front) (c :: (w ++ more))) with
  | error e => simp [Except.map]
  | ok ds' => simp [Except.map]

/-- A text whose last lexeme leads to failure, however it goes on, cannot be completed. -/
theorem not_ok_of_stuck (h : EndsIn cs front c w contexts) (more : List Char)
    (hstuck : ∀ span, (Reading.next contexts ⟨(Found.first c (w ++ more)).lexeme, span⟩).Stuck) :
    ¬∃ ds, readAt {} (cs ++ more) = .ok ds := by
  rw [h.readAt_append_ok_iff, tokensAt_cons, readDataFrom_cons]
  rintro ⟨ds, hds⟩
  obtain ⟨e, he⟩ := readDataAfter_of_stuck (hstuck _) (({} : Position).after (cs ++ more))
    (tokensAt _ (Found.first c (w ++ more)).rest)
  rw [he] at hds
  cases hds

end EndsIn

/-! ## Something is open at the end -/

namespace Reading

theorem doomed_of_deliver {contexts contexts' : List Context} {d : Datum}
    (h : (deliver [] d contexts).2 = .pending contexts') (hdoomed : Doomed contexts') : Doomed contexts := by
  induction contexts generalizing d with
  | nil => cases h
  | cons context outer ih =>
    cases context with
    | quote =>
      rw [deliver, deliver_snd] at h
      exact (ih h).any_isTailed
    | items start found =>
      cases h
      exact hdoomed
    | dotted found dot =>
      cases h
      exact hdoomed
    | tailed found dot tail => cases h

theorem doomed_of_close {contexts contexts' : List Context} {span : Span}
    (h : (close [] span contexts).2 = .pending contexts') (hdoomed : Doomed contexts') :
    Doomed contexts := by
  match contexts, h with
  | .items start found :: outer, h =>
    rw [close, deliver_snd] at h
    exact (doomed_of_deliver h hdoomed).any_isTailed
  | .tailed found dot tail :: outer, h =>
    rw [close] at h
    exact (doomed_of_deliver h hdoomed).any_isTailed

theorem doomed_of_dot {contexts contexts' : List Context} {span : Span}
    (h : dot span contexts = .pending contexts') (hdoomed : Doomed contexts') : Doomed contexts := by
  match contexts, h with
  | .items start found :: outer, h =>
    cases h
    exact hdoomed

theorem any_isTailed_of_enter {context : Context} {span : Span} {contexts contexts' : List Context}
    (h : enter context span contexts = .pending contexts') (hdoomed : Doomed contexts') :
    contexts.any Context.isTailed = true := by
  unfold enter at h
  split_ifs at h
  · cases h
  · cases h
    exact hdoomed

/-- What is open inside a list that has its tail was open before, unless it has just begun. -/
theorem doomed_of_next {contexts contexts' : List Context} {t : Token}
    (h : next contexts t = .pending contexts') (hdoomed : Doomed contexts') :
    Doomed contexts ∨
      (t.lexeme = .leftParen ∨ t.lexeme = .quote) ∧ contexts.any Context.isTailed = true := by
  revert h
  apply next_cases (motive := fun t r => r = .pending contexts' → Doomed contexts ∨
    (t.lexeme = .leftParen ∨ t.lexeme = .quote) ∧ contexts.any Context.isTailed = true)
  case separator =>
    intro t _ h
    cases h
    exact .inl hdoomed
  case atom => exact fun t d _ h => .inl (doomed_of_deliver h hdoomed)
  case fault => exact fun t fault _ h => by cases h
  case leftParen => exact fun span h => .inr ⟨.inl rfl, any_isTailed_of_enter h hdoomed⟩
  case rightParen => exact fun span h => .inl (doomed_of_close h hdoomed)
  case quote => exact fun span h => .inr ⟨.inr rfl, any_isTailed_of_enter h hdoomed⟩
  case dot => exact fun span h => .inl (doomed_of_dot h hdoomed)

end Reading

/-- A parenthesis or a quote is one whatever follows. -/
theorem Found.first_opening {c : Char} {cs : List Char}
    (h : (first c cs).lexeme = .leftParen ∨ (first c cs).lexeme = .quote) (cs' : List Char) :
    (first c cs').lexeme = (first c cs).lexeme := by
  revert h
  apply first_cases (motive := fun c _ found =>
    found.lexeme = .leftParen ∨ found.lexeme = .quote → (first c cs').lexeme = found.lexeme)
  case blank => exact fun c cs _ h => by rcases h with h | h <;> cases h
  case leftParen => exact fun cs _ => rfl
  case rightParen => exact fun cs h => by rcases h with h | h <;> cases h
  case quote => exact fun cs _ => rfl
  case string =>
    intro cs h
    have hlexeme : (stringLiteral '"' cs).lexeme = (StringLiteral.scanFrom {} cs).1 := rfl
    rw [hlexeme] at h
    rcases StringLiteral.scanFrom_cases {} cs with ⟨text, hs⟩ | ⟨detail, hs⟩
    · rcases h with h | h <;> rw [hs] at h <;> cases h
    · rcases h with h | h <;> rw [hs] at h <;> cases h
  case comment =>
    intro cs h
    unfold comment at h
    dsimp only at h
    split at h <;> rcases h with h | h <;> cases h
  case hash =>
    intro cs h
    simp only [hash, hashWord] at h
    split_ifs at h <;> rcases h with h | h <;> cases h
  case dot => exact fun cs _ h => by rcases h with h | h <;> cases h
  case illegal => exact fun c cs _ _ _ h => by rcases h with h | h <;> cases h
  case word =>
    intro c cs _ _ _ h
    split_ifs at h <;> rcases h with h | h <;> cases h

namespace EndsIn

variable {cs front w : List Char} {c : Char} {contexts contexts' : List Context}

theorem not_ok_of_doomed (h : EndsIn cs front c w contexts)
    (hnext : Reading.next contexts (lastToken front c w) = .pending contexts') (hdoomed : Doomed contexts')
    (more : List Char) : ¬∃ ds, readAt {} (cs ++ more) = .ok ds := by
  refine h.not_ok_of_stuck more ?_
  intro span
  rcases Reading.doomed_of_next hnext hdoomed with hbefore | ⟨hopening, htailed⟩
  · exact Reading.stuck_next hbefore _
  · have hlexeme : _ = (lastToken front c w).lexeme := Found.first_opening hopening (w ++ more)
    rw [hlexeme]
    rcases hopening with hleft | hquote
    · rw [hleft]
      exact Reading.stuck_enter htailed _ span
    · rw [hquote]
      exact Reading.stuck_enter htailed _ span

end EndsIn

namespace TokenStream

theorem significant_tokensAt (p : Position) (cs : List Char) : significant (tokensAt p cs) = placed p cs :=
  significant_scanFrom [] p cs

theorem readDataFrom_significant (stop : Position) (contexts : List Context) (tokens : List Token) :
    readDataFrom stop contexts (significant tokens) = readDataFrom stop contexts tokens := by
  unfold readDataFrom
  rw [readFrom_significant]
  rcases readFrom stop contexts tokens with ⟨d | _ | e, rest⟩
  · simp only [readData_significant]
  · rfl
  · rfl

theorem readDataFrom_significant_cons (stop : Position) (contexts : List Context) (t : Token)
    (tokens : List Token) :
    readDataFrom stop contexts (significant [t] ++ tokens) = readDataFrom stop contexts (t :: tokens) := by
  cases ht : t.lexeme.isSeparator with
  | true =>
    have hs : significant [t] = [] := by simp [significant, ht]
    rw [hs, readDataFrom_cons, Reading.next_separator contexts ht]
    rfl
  | false =>
    have hs : significant [t] = [t] := by simp [significant, ht]
    rw [hs, List.singleton_append]

/-- Behind a line feed the tokens of a text are read after its last lexeme, unless that is cut off. -/
theorem readDataFrom_newline {p : Position} {c : Char} {w : List Char} (hrest : (Found.first c w).rest = [])
    (hcut : (Found.first c w).lexeme.isCut = false) (stop : Position) (contexts : List Context)
    (more : List Char) :
    readDataFrom stop contexts (tokensAt p (c :: (w ++ '\n' :: more))) =
      readDataFrom stop contexts (⟨(Found.first c w).lexeme, ⟨p, (Found.first c w).written.length⟩⟩ ::
        placed (p.after (c :: w ++ ['\n'])) more) := by
  have hlast := significant_tokensAt p (c :: w)
  rw [tokensAt_last hrest] at hlast
  rw [← readDataFrom_significant, significant_tokensAt]
  rcases placed_newline p (c :: w) more with heq | ⟨ts, t, ⟨detail, hdetail⟩, hts, -⟩
  · rw [← List.cons_append, heq, ← hlast, readDataFrom_significant_cons]
  · have ht : t ∈ significant [⟨(Found.first c w).lexeme, p, (Found.first c w).written.length⟩] := by
      rw [hlast, hts]
      exact List.mem_append_right ts List.mem_cons_self
    obtain rfl := List.mem_singleton.mp (List.mem_of_mem_filter ht)
    have hunterminated : (Lexeme.illegal (unterminatedString ++ detail)).isCut = true :=
      isIncomplete_unterminated detail
    dsimp only at hdetail
    rw [hdetail, hunterminated] at hcut
    cases hcut

end TokenStream

namespace EndsIn

variable {cs front w : List Char} {c : Char} {contexts contexts' : List Context}

theorem exists_ok_of_pending (h : EndsIn cs front c w contexts)
    (hcut : (lastToken front c w).lexeme.isCut = false)
    (hnext : Reading.next contexts (lastToken front c w) = .pending contexts') (hne : contexts' ≠ [])
    (hdoomed : ¬Doomed contexts') : ∃ more ds, readAt {} (cs ++ more) = .ok ds := by
  obtain ⟨more, hmore⟩ := exists_readDataFrom_ok hne hdoomed
  refine ⟨'\n' :: more, ?_⟩
  rw [h.readAt_append_ok_iff, readDataFrom_newline h.rest hcut, readDataFrom_cons]
  show ∃ ds, readDataAfter _ _ (Reading.next contexts (lastToken front c w)) = .ok ds
  rw [hnext]
  exact hmore _ _

/-! ## A literal is open at the end -/

theorem not_ok_of_literal (h : EndsIn cs front c w contexts) (hcut : (lastToken front c w).lexeme.isCut = true)
    (hbad : contexts.any Context.isTailed = true ∨ StringLiteral.canClose w = false) (more : List Char) :
    ¬∃ ds, readAt {} (cs ++ more) = .ok ds := by
  obtain ⟨rfl, -⟩ := Found.first_isCut hcut
  refine h.not_ok_of_stuck more ?_
  intro span
  have hlexeme : (Found.first '"' (w ++ more)).lexeme = (StringLiteral.scanFrom {} (w ++ more)).1 := rfl
  rw [hlexeme]
  rcases hbad with htailed | hclose
  · rcases StringLiteral.scanFrom_cases {} (w ++ more) with ⟨text, hs⟩ | ⟨detail, hs⟩
    · rw [hs, Reading.next_string]
      exact Reading.stuck_deliver htailed _
    · rw [hs, Reading.next_illegal rfl]
      trivial
  · obtain ⟨detail, hs⟩ := StringLiteral.scanFrom_append_illegal hcut hclose more
    rw [hs, Reading.next_illegal rfl]
    trivial

theorem exists_ok_of_literal (h : EndsIn cs front c w contexts)
    (hcut : (lastToken front c w).lexeme.isCut = true)
    (htailed : contexts.any Context.isTailed = false) (hclose : StringLiteral.canClose w = true) :
    ∃ more ds, readAt {} (cs ++ more) = .ok ds := by
  obtain ⟨rfl, -⟩ := Found.first_isCut hcut
  obtain ⟨more, hmore⟩ := StringLiteral.exists_scanFrom_string rfl hcut hclose
  obtain ⟨text, hstring, hrest⟩ := hmore (List.replicate (Context.closing contexts) ')')
  rw [List.append_assoc] at hstring hrest
  refine ⟨more ++ List.replicate (Context.closing contexts) ')', ?_⟩
  have hlexeme : (Found.first '"' (w ++ (more ++ List.replicate (Context.closing contexts) ')'))).lexeme =
      .string text := hstring
  have hbehind : (Found.first '"' (w ++ (more ++ List.replicate (Context.closing contexts) ')'))).rest = _ :=
    hrest
  rw [h.readAt_append_ok_iff, tokensAt_cons, hlexeme, hbehind, readDataFrom_cons, Reading.next_string]
  exact Context.readDataAfter_deliver htailed _ _ (map_lexeme_tokensAt_closing _ _)

theorem openLiteral?_eq (h : EndsIn cs front c w contexts) {text : String} (htext : text.toList = cs) :
    openLiteral? text = if (lastToken front c w).lexeme.isCut then some w else none := by
  obtain ⟨ts, hts⟩ := h.tokens
  have htokens : (ofString text).tokens = ts ++ [lastToken front c w] := by
    rw [← hts, ← htext]
    rfl
  have hinside : text.toList.drop ((lastToken front c w).span.start.offset + 1) = w := by
    rw [htext, h.split, lastToken, Position.offset_after]
    simp
  rw [openLiteral?, htokens, List.getLast?_concat]
  simp only [hinside]

end EndsIn

/-- How a text that awaits more ends, with what decides if it can be completed. -/
theorem exists_endsIn_completable {text : String} {e : Error} (h : readAt {} text.toList = .error e)
    (he : e.isIncomplete = true) :
    ∃ front c w contexts, EndsIn text.toList front c w contexts ∧
      (((lastToken front c w).lexeme.isCut = false ∧ ∃ contexts', contexts' ≠ [] ∧
          Reading.next contexts (lastToken front c w) = .pending contexts' ∧
          (completable text = true ↔ ¬Doomed contexts')) ∨
        ((lastToken front c w).lexeme.isCut = true ∧
          (completable text = true ↔
            contexts.any Context.isTailed = false ∧ StringLiteral.canClose w = true))) := by
  obtain ⟨front, c, w, contexts, hends⟩ := exists_endsIn h he
  have hliteral := hends.openLiteral?_eq rfl
  have htokens : (ofString text).tokens = tokensAt {} text.toList := rfl
  refine ⟨front, c, w, contexts, hends, ?_⟩
  unfold completable
  rw [htokens, hliteral]
  rcases hends.next_cases h he with ⟨hcut, contexts', hne, hnext, hopen⟩ | ⟨hcut, hopen⟩
  · refine .inl ⟨hcut, contexts', hne, hnext, ?_⟩
    rw [hopen, hcut, if_neg Bool.false_ne_true]
    simp [Doomed]
  · refine .inr ⟨hcut, ?_⟩
    rw [hopen, hcut, if_pos rfl]
    simp

theorem completable_iff_exists_readAt {text : String} {e : Error} (h : readAt {} text.toList = .error e)
    (he : e.isIncomplete = true) :
    completable text = true ↔ ∃ more ds, readAt {} (text.toList ++ more) = .ok ds := by
  obtain ⟨front, c, w, contexts, hends, hcases⟩ := exists_endsIn_completable h he
  rcases hcases with ⟨hcut, contexts', hne, hnext, hiff⟩ | ⟨hcut, hiff⟩
  · rw [hiff]
    constructor
    · exact hends.exists_ok_of_pending hcut hnext hne
    · rintro ⟨more, hmore⟩ hdoomed
      exact hends.not_ok_of_doomed hnext hdoomed more hmore
  · rw [hiff]
    constructor
    · rintro ⟨htailed, hclose⟩
      exact hends.exists_ok_of_literal hcut htailed hclose
    · rintro ⟨more, hmore⟩
      by_contra hbad
      refine hends.not_ok_of_literal hcut ?_ more hmore
      rwa [not_and_or, Bool.not_eq_false, Bool.not_eq_true] at hbad

/-- **Which inputs can be completed.** A text that fails awaiting more can be completed exactly if nothing is
missing inside a list that has its tail already and the string literal that may be open can be closed. -/
theorem completable_iff {text : String} {e : Error} (h : readAll text = .error e)
    (he : e.isIncomplete = true) :
    completable text = true ↔ ∃ more ds, readAll (text ++ more) = .ok ds := by
  rw [readAll_eq_readAt] at h
  rw [completable_iff_exists_readAt h he]
  simp only [readAll_eq_readAt, String.toList_append]
  constructor
  · rintro ⟨more, hmore⟩
    exact ⟨String.ofList more, by rwa [String.toList_ofList]⟩
  · rintro ⟨more, hmore⟩
    exact ⟨more.toList, hmore⟩

/-- A quote that awaits its datum. -/
theorem quote_completable : completable "'" = true ∧ ∃ more ds, readAll ("'" ++ more) = .ok ds := by
  have htokens : tokensAt {} ['\x27'] = [⟨.quote, ⟨{}, 1⟩⟩] := tokensAt_last rfl
  have hread : readAll "'" = .error ⟨.endOfInput, some ⟨⟨1, 1, 2⟩, 0⟩⟩ := by
    rw [readAll_eq_readAt, readAt_eq_readDataFrom]
    show readDataFrom _ [] (tokensAt {} ['\x27']) = _
    rw [htokens]
    rfl
  have hcompletable : completable "'" = true := by
    have hofString : (ofString "'").tokens = [⟨.quote, ⟨{}, 1⟩⟩] := htokens
    rw [completable, openLiteral?, hofString]
    rfl
  exact ⟨hcompletable, (completable_iff hread rfl).mp hcompletable⟩

/-! ## Beyond completion -/

/-- A list inside a list that has its tail. -/
theorem tokens_listBehindTail :
    (ofString "(a . b (c").tokens =
      [⟨.leftParen, ⟨{}, 1⟩⟩, ⟨.symbol "a", ⟨⟨1, 1, 2⟩, 1⟩⟩, ⟨.blank " ", ⟨⟨2, 1, 3⟩, 1⟩⟩,
        ⟨.dot, ⟨⟨3, 1, 4⟩, 1⟩⟩, ⟨.blank " ", ⟨⟨4, 1, 5⟩, 1⟩⟩, ⟨.symbol "b", ⟨⟨5, 1, 6⟩, 1⟩⟩,
        ⟨.blank " ", ⟨⟨6, 1, 7⟩, 1⟩⟩, ⟨.leftParen, ⟨⟨7, 1, 8⟩, 1⟩⟩, ⟨.symbol "c", ⟨⟨8, 1, 9⟩, 1⟩⟩] := by
  decide +kernel

/-- A quote inside a list that has its tail. -/
theorem tokens_quoteBehindTail :
    (ofString "(.()'").tokens =
      [⟨.leftParen, ⟨{}, 1⟩⟩, ⟨.dot, ⟨⟨1, 1, 2⟩, 1⟩⟩, ⟨.leftParen, ⟨⟨2, 1, 3⟩, 1⟩⟩,
        ⟨.rightParen, ⟨⟨3, 1, 4⟩, 1⟩⟩, ⟨.quote, ⟨⟨4, 1, 5⟩, 1⟩⟩] := by
  have hleft (cs : List Char) : Found.first '(' cs = .single .leftParen '(' cs := rfl
  have hright (cs : List Char) : Found.first ')' cs = .single .rightParen ')' cs := rfl
  have hquote (cs : List Char) : Found.first '\x27' cs = .single .quote '\x27' cs := rfl
  have hdot : Found.first '.' ['(', ')', '\x27'] = .single .dot '.' ['(', ')', '\x27'] := rfl
  show tokensAt {} ['(', '.', '(', ')', '\x27'] = _
  simp only [tokensAt_cons, tokensAt_nil, hleft, hright, hquote, hdot, Found.single]
  rfl

theorem tokens_malformedEscape :
    ∃ detail, (ofString "\"\\xZZ").tokens = [⟨.illegal (unterminatedString ++ detail), ⟨{}, 5⟩⟩] := by
  have helement : StringLiteral.element? ['\\', 'x', 'Z', 'Z'] =
      some (.malformed "\\xZZ", ['\\', 'x', 'Z', 'Z'], []) := rfl
  have hscan : StringLiteral.scan ['\\', 'x', 'Z', 'Z'] =
      (.illegal (unterminatedString ++ ": " ++ Text.quoted ""), ['\\', 'x', 'Z', 'Z'], []) := by
    rw [StringLiteral.scan, StringLiteral.scanFrom_element (by decide) helement,
      StringLiteral.scanFrom_cut (fun rest h => by cases h) rfl]
    rfl
  have hfirst : Found.first '"' ['\\', 'x', 'Z', 'Z'] = .stringLiteral '"' ['\\', 'x', 'Z', 'Z'] := rfl
  refine ⟨": " ++ Text.quoted "", ?_⟩
  show tokensAt {} ['"', '\\', 'x', 'Z', 'Z'] = _
  rw [tokensAt_cons, hfirst, Found.stringLiteral, hscan, tokensAt_nil, String.append_assoc]
  rfl

theorem readAll_append_ne_ok {text : String} {e : Error} (h : readAll text = .error e)
    (he : e.isIncomplete = true) (hc : completable text = false) (more : String) (ds : List Datum) :
    readAll (text ++ more) ≠ .ok ds := by
  rw [readAll_eq_readAt] at h ⊢
  rw [String.toList_append]
  intro hok
  have hcompletable := (completable_iff_exists_readAt h he).mpr ⟨more.toList, ds, hok⟩
  rw [hc] at hcompletable
  cases hcompletable

/-- All three inputs are taken for ones that await more, and nothing completes them: the first has a list behind
the tail of a list, the second a quote, the third an escape that names no character. -/
theorem beyond_completion :
    ((∃ e, readAll "(a . b (c" = .error e ∧ e.isIncomplete = true) ∧
      ∀ more ds, readAll ("(a . b (c" ++ more) ≠ .ok ds) ∧
    ((∃ e, readAll "(.()'" = .error e ∧ e.isIncomplete = true) ∧
      ∀ more ds, readAll ("(.()'" ++ more) ≠ .ok ds) ∧
    (∃ e, readAll "\"\\xZZ" = .error e ∧ e.isIncomplete = true) ∧
      ∀ more ds, readAll ("\"\\xZZ" ++ more) ≠ .ok ds := by
  refine ⟨?_, ?_, ?_⟩
  · have hread : readAll "(a . b (c" =
        .error ⟨.endOfInput, some ⟨(ofString "(a . b (c").stop, 0⟩⟩ := by
      show readData (ofString _) = _
      rw [readData_eq, tokens_listBehindTail]
      rfl
    have hc : completable "(a . b (c" = false := by
      rw [completable, openLiteral?, tokens_listBehindTail]
      rfl
    exact ⟨⟨_, hread, rfl⟩, readAll_append_ne_ok hread rfl hc⟩
  · have hread : readAll "(.()'" =
        .error ⟨.endOfInput, some ⟨(ofString "(.()'").stop, 0⟩⟩ := by
      show readData (ofString _) = _
      rw [readData_eq, tokens_quoteBehindTail]
      rfl
    have hc : completable "(.()'" = false := by
      rw [completable, openLiteral?, tokens_quoteBehindTail]
      rfl
    exact ⟨⟨_, hread, rfl⟩, readAll_append_ne_ok hread rfl hc⟩
  · obtain ⟨detail, htokens⟩ := tokens_malformedEscape
    have hcut : (Lexeme.illegal (unterminatedString ++ detail)).isCut = true :=
      isIncomplete_unterminated detail
    have hread : readAll "\"\\xZZ" = .error ⟨.lexical (unterminatedString ++ detail), some ⟨{}, 5⟩⟩ := by
      show readData (ofString _) = _
      rw [readData_eq, htokens]
      rfl
    have hc : completable "\"\\xZZ" = false := by
      have helement : StringLiteral.element? ['\\', 'x', 'Z', 'Z'] =
          some (.malformed "\\xZZ", ['\\', 'x', 'Z', 'Z'], []) := rfl
      rw [completable, openLiteral?, htokens, List.getLast?_singleton]
      simp only [hcut, if_true]
      show (_ && StringLiteral.canClose ['\\', 'x', 'Z', 'Z']) = false
      rw [StringLiteral.canClose_malformed helement, Bool.and_false]
    exact ⟨⟨_, hread, hcut⟩, readAll_append_ne_ok hread hcut hc⟩

end SmallScheme
