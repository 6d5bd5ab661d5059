import SmallScheme.Proofs.OpenTokens
import SmallScheme.Proofs.Recovery

/-!
# The source of a list

`list_span_is_source`: the span reported for a list covers the text of the list and nothing else.

1. `closings` are the lists that the reader closes, in their order. What it reports of lists is a line for each
   of them (`TokenStream.listsReadBy_readWithin`), whatever it is asked (`TokenStream.listsReadBy_serveAll`).
2. The tokens behind an open list (`OpenedBy`) are its parenthesis and those that derive its items. So the token
   that closes it is the parenthesis that matches (`OpenedBy.mem_closings`).
3. The text between two tokens has the same tokens out of its context (`exists_tokensAt_between`), and needs no
   more nesting there. Hence it is read as the list.
-/

namespace SmallScheme

open TokenStream

/-! ## The lists that are closed -/

/-- A proper list that the reader closes: the places of its two parentheses, and its items. -/
structure Closing where
  first : Span
  last : Span
  items : List Datum

namespace Closing

def list (c : Closing) : Datum := .ofList c.items .nil

/-- The place that is reported. -/
def span (c : Closing) : Span := c.first.merge c.last

/-- What is reported: how many items there are, and where the list is. -/
def report (c : Closing) : Nat × Span := (c.items.length, c.span)

end Closing

/-- The proper list that a token closes. -/
def Reading.closing? (contexts : List Context) (t : Token) : Option Closing :=
  match t.lexeme, contexts with
  | .rightParen, .items start found :: _ => some ⟨start, t.span, found.reverse⟩
  | _, _ => none

namespace TokenStream

/-- The proper lists that are closed until the datum is complete or fails. -/
def closings (contexts : List Context) : List Token → List Closing
  | [] => []
  | t :: tokens =>
    (Reading.closing? contexts t).toList ++
      match Reading.next contexts t with
      | .pending contexts' => closings contexts' tokens
      | .complete _ | .failed _ => []

/-- The proper lists that are closed when the reader is called. -/
def closed (s : TokenStream) : List Call → List Closing
  | [] => []
  | call :: calls => closings [] s.tokens ++ (s.serve call).rest.closed calls

end TokenStream

/-- The length and the place of a list, if the event reports one. -/
def ReadEvent.listRead? : ReadEvent → Option (Nat × Span)
  | listRead length span => some (length, span)
  | _ => none

/-- What events report of lists. -/
def listsReadBy (events : List ReadEvent) : List (Nat × Span) := events.filterMap ReadEvent.listRead?

/-! ## What is reported -/

namespace Reading

variable {contexts : List Context} {t : Token} {c : Closing}

/-- A list is closed by a parenthesis, within the context that has collected its items. -/
theorem closing?_eq_some_iff :
    closing? contexts t = some c ↔
      t = ⟨.rightParen, c.last⟩ ∧ ∃ outer, contexts = .items c.first c.items.reverse :: outer := by
  obtain ⟨lexeme, span⟩ := t
  constructor
  · intro h
    unfold closing? at h
    split at h
    · next hlexeme =>
      cases h
      cases hlexeme
      rw [List.reverse_reverse]
      exact ⟨rfl, _, rfl⟩
    · cases h
  · rintro ⟨heq, outer, rfl⟩
    cases heq
    simp [closing?]

/-- The list that is closed is handed to what is around it. -/
theorem next_of_closing? (h : closing? contexts t = some c) :
    next contexts t = (deliver [] c.list contexts.tail).2 := by
  obtain ⟨rfl, outer, rfl⟩ := closing?_eq_some_iff.mp h
  rw [next_rightParen, close, deliver_snd, Datum.ofReversed_eq, List.reverse_reverse]
  rfl

theorem listsReadBy_deliver (events : List ReadEvent) (d : Datum) (contexts : List Context) :
    listsReadBy (deliver events d contexts).1 = listsReadBy events :=
  filterMap_deliver (fun _ => rfl) events d contexts

theorem listsReadBy_close (events : List ReadEvent) (span : Span) (contexts : List Context) :
    listsReadBy (close events span contexts).1 =
      (closing? contexts ⟨.rightParen, span⟩).toList.map Closing.report ++ listsReadBy events := by
  match contexts with
  | [] | .quote :: _ | .dotted .. :: _ => rfl
  | .items start found :: outer =>
    rw [close, listsReadBy_deliver]
    simp [listsReadBy, ReadEvent.listRead?, closing?, Closing.report, Closing.span]
  | .tailed found dot tail :: outer => exact listsReadBy_deliver _ _ _

/-- A token reports the list that it closes. -/
theorem listsReadBy_take (events : List ReadEvent) (contexts : List Context) (t : Token) :
    listsReadBy (take events contexts t).1 =
      (closing? contexts t).toList.map Closing.report ++ listsReadBy events := by
  obtain ⟨lexeme, span⟩ := t
  cases lexeme with
  | rightParen => exact listsReadBy_close (.scanned .rightParen :: events) span contexts
  | symbol name => exact listsReadBy_deliver _ _ _
  | string text => exact listsReadBy_deliver _ _ _
  | boolean value => exact listsReadBy_deliver _ _ _
  | number text =>
    simp only [take]
    cases Decimal.number? text with
    | none => rfl
    | some x => exact listsReadBy_deliver _ _ _
  | _ => rfl

end Reading

namespace TokenStream

theorem listsReadBy_readWithin (stop : Position) (events : List ReadEvent) (contexts : List Context)
    (tokens : List Token) :
    listsReadBy (readWithin stop events contexts tokens).events =
      (listsReadBy events).reverse ++ (closings contexts tokens).map Closing.report := by
  induction tokens generalizing events contexts with
  | nil => simp [readWithin, closings, listsReadBy, ReadEvent.listRead?, List.filterMap_reverse]
  | cons t tokens ih =>
    have hlists := Reading.listsReadBy_take events contexts t
    have hnext := Reading.take_snd events contexts t
    have hreverse (l : List (Nat × Span)) :
        ((Reading.closing? contexts t).toList.map Closing.report ++ l).reverse =
          l.reverse ++ (Reading.closing? contexts t).toList.map Closing.report := by
      cases Reading.closing? contexts t <;> simp
    rw [readWithin, closings, ← hnext]
    rcases htake : Reading.take events contexts t with ⟨events', contexts' | d | e⟩
    · rw [htake] at hlists
      dsimp only at hlists ⊢
      rw [ih, hlists, hreverse, List.map_append, List.append_assoc]
    · rw [htake] at hlists
      dsimp only at hlists ⊢
      rw [listsReadBy, List.filterMap_reverse, ← listsReadBy, hlists, hreverse, List.append_nil]
    · rw [htake] at hlists
      dsimp only at hlists ⊢
      rw [listsReadBy, List.filterMap_reverse, ← listsReadBy, hlists, hreverse, List.append_nil]

/-- **What calls report** of lists is a line for each list that is closed. -/
theorem listsReadBy_serveAll (s : TokenStream) (calls : List Call) :
    listsReadBy ((s.serveAll calls).flatMap Reply.events) = (s.closed calls).map Closing.report := by
  induction calls generalizing s with
  | nil => rfl
  | cons call calls ih =>
    have hfirst : listsReadBy (s.serve call).events = (closings [] s.tokens).map Closing.report :=
      listsReadBy_readWithin s.stop [] [] s.tokens
    rw [serveAll, List.flatMap_cons, listsReadBy, List.filterMap_append, ← listsReadBy, ← listsReadBy,
      hfirst, ih, closed, List.map_append]

/-- To read all data is to call the reader until it has no more or fails. -/
theorem exists_serveAll_eq (found : List Datum) (events : List ReadEvent) (s : TokenStream) :
    ∃ calls, (s.readAllFrom found events).1 =
      events.reverse ++ (s.serveAll calls).flatMap Reply.events := by
  induction hn : s.tokens.length using Nat.strongRecOn generalizing found events s with
  | ind n ih =>
  rw [readAllFrom]
  split
  · next d seen rest h =>
    obtain ⟨calls, hcalls⟩ := ih _ (hn ▸ length_readNext h) (d :: found) (seen.reverse ++ events) rest rfl
    refine ⟨.readNext :: calls, ?_⟩
    rw [hcalls, serveAll, serve, h]
    simp
  · next seen rest h =>
    refine ⟨[.readNext], ?_⟩
    rw [serveAll, serve, h]
    simp [serveAll]
  · next e seen rest h =>
    refine ⟨[.readNext], ?_⟩
    rw [serveAll, serve, h]
    simp [serveAll]

end TokenStream

/-! ## The parenthesis that matches -/

/-- How many parentheses are open behind lexemes, if `n` are open before; none if one is closed that is not open. -/
def openAfter (n : Nat) : List Lexeme → Option Nat
  | [] => some n
  | .leftParen :: ls => openAfter (n + 1) ls
  | .rightParen :: ls =>
    match n with
    | 0 => none
    | n + 1 => openAfter n ls
  | _ :: ls => openAfter n ls

theorem openAfter_append (n : Nat) (ls ls' : List Lexeme) :
    openAfter n (ls ++ ls') = (openAfter n ls).bind fun n' => openAfter n' ls' := by
  fun_induction openAfter n ls with
  | case1 => rfl
  | case2 n ls ih => rw [List.cons_append, openAfter, ih]
  | case3 ls => rfl
  | case4 ls n ih => rw [List.cons_append, openAfter, ih]
  | case5 n l ls hleft hright ih =>
    rw [List.cons_append, openAfter, ih]
    · exact hleft
    · exact hright

/-- Whatever is derived closes the parentheses that it opens, and no others. -/
theorem Derives.openAfter {m : Nat} {ls : List Lexeme} {φ : Phrase} (h : Derives m ls φ) (n : Nat) :
    openAfter n ls = some n := by
  induction h generalizing n with
  | quote _ ih => exact ih n
  | list _ ih =>
    rw [SmallScheme.openAfter, openAfter_append, ih]
    rfl
  | dotted _ _ ih ih' =>
    rw [SmallScheme.openAfter, openAfter_append, ih, Option.bind_some, SmallScheme.openAfter,
      openAfter_append, ih']
    · rfl
    · exact Lexeme.noConfusion
    · exact Lexeme.noConfusion
  | more _ _ ih ih' => rw [openAfter_append, ih, Option.bind_some, ih']
  | _ => rfl

/-- **The parentheses of a list.** Between them stand the tokens that derive the items, with a level of nesting
to spare. -/
theorem OpenedBy.mem_closings {contexts : List Context} {seen tokens : List Token}
    (h : OpenedBy contexts seen) (hend : ∀ t ∈ tokens, t.lexeme ≠ .endOfText) {c : Closing}
    (hc : c ∈ closings contexts tokens) :
    ∃ before inner after n, seen ++ tokens =
        before ++ ⟨.leftParen, c.first⟩ :: (inner ++ ⟨.rightParen, c.last⟩ :: after) ∧
      n < maxNesting ∧ Derives n (lexemes inner) (.data c.items) := by
  induction tokens generalizing contexts seen with
  | nil => cases hc
  | cons t tokens ih =>
    rw [closings, List.mem_append, Option.mem_toList] at hc
    rcases hc with hc | hc
    · obtain ⟨rfl, outer, rfl⟩ := Reading.closing?_eq_some_iff.mp hc
      generalize hcontexts : Context.items c.first c.items.reverse :: outer = contexts at h
      cases h with
      | @items outer before t found inner h hn ht hd =>
        obtain ⟨lexeme, span⟩ := t
        cases ht
        cases hcontexts
        rw [List.reverse_reverse] at hd
        exact ⟨before, inner, tokens, _, by simp, by omega, hd⟩
      | _ => cases hcontexts
    · have htraced := h.next (hend t List.mem_cons_self)
      rw [List.append_cons]
      cases hnext : Reading.next contexts t with
      | pending contexts' =>
        rw [hnext] at hc htraced
        exact ih htraced (fun t ht => hend t (List.mem_cons_of_mem _ ht)) hc
      | complete d =>
        rw [hnext] at hc
        cases hc
      | failed e =>
        rw [hnext] at hc
        cases hc

/-- What a call closes is closed by a reader of the tokens that are left then. -/
theorem TokenStream.exists_of_mem_closed {s : TokenStream} {calls : List Call} {c : Closing}
    (h : c ∈ s.closed calls) : ∃ taken rest, s.tokens = taken ++ rest ∧ c ∈ closings [] rest := by
  induction calls generalizing s with
  | nil => cases h
  | cons call calls ih =>
    rw [closed, List.mem_append] at h
    rcases h with h | h
    · exact ⟨[], s.tokens, rfl, h⟩
    · obtain ⟨taken, rest, hrest, hc⟩ := ih h
      obtain ⟨used, hused⟩ := readFrom_suffix s.stop [] s.tokens
      have hserved : (s.serve call).rest = _ := readNext_rest s
      rw [hserved] at hrest
      dsimp only at hrest
      refine ⟨used ++ taken, rest, ?_, hc⟩
      rw [List.append_assoc, ← hrest]
      exact hused

/-! ## The text between two tokens -/

/-- The last token of a text ends where the text ends. -/
theorem stop_of_tokensAt {p : Position} {cs : List Char} {ts : List Token} {t : Token}
    (h : tokensAt p cs = ts ++ [t]) : t.span.stop = (p.after cs).offset := by
  have hchain := isChain_toList p cs
  rw [toList_scanFrom, h, List.isChain_append] at hchain
  exact (hchain.2.2 t (by simp) _ rfl).symm

theorem start_of_tokensAt {p : Position} {cs : List Char} {ts : List Token} {t : Token}
    (h : tokensAt p cs = t :: ts) : t.span.start = p := by
  cases cs with
  | nil =>
    rw [tokensAt_nil] at h
    cases h
  | cons c cs =>
    rw [tokensAt_cons] at h
    cases h
    rfl

/-- **Between two tokens.** The text from the start of a token to the end of a later one is what their merged
spans cover; it has these tokens and those between them. -/
theorem exists_tokensAt_between {cs : List Char} {before inner after : List Token} {t t' : Token}
    (h : tokensAt {} cs = before ++ t :: (inner ++ t' :: after)) :
    t.span.start.offset ≤ t'.span.stop ∧
      ∃ p, tokensAt p ((t.span.merge t'.span).slice cs) = t :: (inner ++ [t']) := by
  have hsplit : tokensAt {} cs = before ++ (t :: (inner ++ [t']) ++ after) := by
    rw [h]
    simp
  obtain ⟨front, others, rfl, -, hothers⟩ := exists_tokensAt_append hsplit
  obtain ⟨part, rest, rfl, hpart, -⟩ := exists_tokensAt_append hothers
  have hstart := start_of_tokensAt hpart
  have hlast : tokensAt (({} : Position).after front) part = (t :: inner) ++ [t'] := hpart
  have hstop := stop_of_tokensAt hlast
  have hoffset : t.span.start.offset = front.length := by
    rw [hstart, Position.offset_after]
    exact Nat.zero_add _
  rw [Position.offset_after, ← hstart, hoffset] at hstop
  have hslice : (t.span.merge t'.span).slice (front ++ (part ++ rest)) = part := by
    unfold Span.slice Span.merge
    dsimp only
    rw [hstop, hoffset, Nat.add_sub_cancel_left, List.drop_left, List.take_left]
  rw [hslice]
  exact ⟨by omega, _, hpart⟩

/-! ## The source of a list -/

theorem Datum.length?_ofList (items : List Datum) : (ofList items .nil).length? = some items.length := by
  have hspine : (ofList items .nil).spine = (items, .nil) := by
    induction items with
    | nil => rfl
    | cons d items ih =>
      show (cons d (ofList items .nil)).spine = _
      rw [Sexp.spine_pair, ih]
  rw [Sexp.length?, Sexp.toList?, hspine]
  rfl

/-- The reported place of a list is its own source. -/
structure Closing.IsSource (text : String) (c : Closing) : Prop where
  /-- The places are those of two parentheses of the text that match. -/
  matching : ∃ before inner after, (ofString text).tokens =
      before ++ ⟨.leftParen, c.first⟩ :: (inner ++ ⟨.rightParen, c.last⟩ :: after) ∧
    openAfter 0 (lexemes inner) = some 0
  /-- The second does not end before the first begins, so that a length can be taken. -/
  start_le : c.first.start.offset ≤ c.last.stop
  start_eq : c.span.start = c.first.start
  stop_eq : c.span.stop = c.last.stop
  length_eq : c.list.length? = some c.items.length
  /-- The text there is read as the list and nothing else. -/
  read : readAll (String.ofList (c.span.slice text.toList)) = .ok [c.list]

/-- A list between two parentheses of a text. -/
theorem Closing.isSource_of_tokens {text : String} {c : Closing} {before inner after : List Token} {n : Nat}
    (h : (ofString text).tokens =
      before ++ ⟨.leftParen, c.first⟩ :: (inner ++ ⟨.rightParen, c.last⟩ :: after))
    (hn : n < maxNesting) (hd : Derives n (lexemes inner) (.data c.items)) : c.IsSource text := by
  obtain ⟨hle, p, hpart⟩ := exists_tokensAt_between h
  refine ⟨⟨before, inner, after, h, hd.openAfter 0⟩, hle, rfl, Nat.add_sub_cancel' hle,
    Datum.length?_ofList c.items, readAll_of_derives ?_⟩
  have hlexemes : lexemesOf (c.span.slice text.toList) = .leftParen :: (lexemes inner ++ [.rightParen]) := by
    rw [← lexemes_scanFrom p]
    show lexemes (tokensAt p _) = _
    rw [Closing.span, hpart, lexemes_cons rfl, lexemes_append]
    rfl
  rw [String.toList_ofList, hlexemes]
  have hlist := (hd.list.mono hn).more .none
  rwa [List.append_nil] at hlist

/-- **The source of a list.** Whatever a reader of a text is asked, it reports the proper lists that it closes and
hands to what is around them, each with the number of its items, which is its length, and with a place. The
place begins at the parenthesis that opens the list and ends behind the one that matches, and the text there is
read as this one list. To read all data is a case of it. -/
theorem list_span_is_source (text : String) :
    (∃ calls, (readTraced text).1 = ((ofString text).serveAll calls).flatMap Reply.events) ∧
    (∀ contexts t c, Reading.closing? contexts t = some c →
      Reading.next contexts t = (Reading.deliver [] c.list contexts.tail).2) ∧
    ∀ calls, listsReadBy (((ofString text).serveAll calls).flatMap Reply.events) =
        ((ofString text).closed calls).map Closing.report ∧
      ∀ c ∈ (ofString text).closed calls, c.IsSource text := by
  refine ⟨exists_serveAll_eq [] [] (ofString text), fun contexts t c => Reading.next_of_closing?,
    fun calls => ⟨listsReadBy_serveAll _ calls, fun c hc => ?_⟩⟩
  obtain ⟨taken, rest, htokens, hc⟩ := exists_of_mem_closed hc
  have hend : ∀ t ∈ rest, t.lexeme ≠ .endOfText := by
    intro t ht
    have hmem : t ∈ (ofString text).tokens := htokens ▸ List.mem_append_right taken ht
    exact (proper_of_mem_tokensAt hmem).1
  have hstart : OpenedBy [] [] := .nil .none
  obtain ⟨before, inner, after, n, hrest, hn, hd⟩ := hstart.mem_closings hend hc
  rw [List.nil_append] at hrest
  rw [hrest, ← List.append_assoc] at htokens
  exact Closing.isSource_of_tokens htokens hn hd

/-- Behind a parenthesis that closes nothing, a list within a list on the next line. -/
theorem innerList_is_source :
    ((ofString ") (a\n(b))").closed [.readNext, .readNext]).map Closing.report =
      [(1, ⟨⟨5, 2, 1⟩, 3⟩), (2, ⟨⟨2, 1, 3⟩, 7⟩)] ∧
    ∃ c c', (ofString ") (a\n(b))").closed [.readNext, .readNext] = [c, c'] ∧
      readAll "(b)" = .ok [c.list] ∧ readAll "(a\n(b))" = .ok [c'.list] := by
  have hreport : ((ofString ") (a\n(b))").closed [.readNext, .readNext]).map Closing.report =
      [(1, ⟨⟨5, 2, 1⟩, 3⟩), (2, ⟨⟨2, 1, 3⟩, 7⟩)] := by decide +kernel
  refine ⟨hreport, ?_⟩
  obtain ⟨-, -, hclosed⟩ := list_span_is_source ") (a\n(b))"
  obtain ⟨c, others, hlist, hc, hothers⟩ := List.map_eq_cons_iff.mp hreport
  obtain ⟨c', rfl, hc'⟩ := List.map_eq_singleton_iff.mp hothers
  have hsource := (hclosed [.readNext, .readNext]).2 c (by simp [hlist])
  have hsource' := (hclosed [.readNext, .readNext]).2 c' (by simp [hlist])
  refine ⟨c, c', hlist, ?_, ?_⟩
  · have hspan : c.span = _ := congrArg Prod.snd hc
    have hread := hsource.read
    rwa [hspan] at hread
  · have hspan : c'.span = _ := congrArg Prod.snd hc'
    have hread := hsource'.read
    rwa [hspan] at hread

end SmallScheme
