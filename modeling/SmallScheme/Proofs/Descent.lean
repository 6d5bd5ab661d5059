import SmallScheme.Proofs.Grammar

/-!
# Reading by descent

The reader holds the lists and quotes that are open. The same reading is described here by a procedure that
descends into each of them and comes back, with a counter of those around the item it is reading: one more
before a nested reading and one less behind it, also if it has failed.

1. `Descends` is the descent, as a relation. It always comes to an end (`exists_descends`), and the counter is
   then what it was (`Descends.depth_eq`).
2. The reader follows it (`Descends.followed`): within contexts as many as the counter says, it hands what the
   descent has read to the innermost of them.
-/

namespace SmallScheme

open TokenStream

/-! ## The descent -/

/-- What an item of a text can be. A closing parenthesis or a dot means something only to the list around
it. -/
inductive Item where
  | datum (d : Datum)
  | close (span : Span)
  | dot (span : Span)

/-- What a quote makes of the item behind it. -/
def Item.quoted : Item → Except Error Item
  | datum d => .ok (.datum (.ofList [.symbol ⟨"QUOTE"⟩, d] .nil))
  | close span => .error ⟨.unexpectedCloseParen, some span⟩
  | dot span => .error ⟨.unexpectedDot, some span⟩

/-- How far a list has been read. -/
inductive Stage where
  | items (found : List Datum)
  | dotted (found : List Datum) (dot : Span)
  | tailed (found : List Datum) (dot : Span) (tail : Datum)

/-- What one more item does to a list: the list goes on, or it ends as a datum or as a failure. -/
def Stage.take : Stage → Item → Stage ⊕ Except Error Datum
  | items found, .datum d => .inl (items (d :: found))
  | items found, .close _ => .inr (.ok (.ofReversed found .nil))
  | items found, .dot span => .inl (dotted found span)
  | dotted found dot, .datum d => .inl (tailed found dot d)
  | dotted _ dot, .close _ => .inr (.error ⟨.malformedDot "nothing follows .", some dot⟩)
  | dotted _ _, .dot span => .inr (.error ⟨.unexpectedDot, some span⟩)
  | tailed found _ tail, .close _ => .inr (.ok (.ofReversed found tail))
  | tailed _ dot _, _ => .inr (.error ⟨.malformedDot "more than one object follows .", some dot⟩)

/-- What the descent is asked to read: one item, or the rest of a list. -/
inductive Goal where
  | item
  | list (stage : Stage)

/-- `Descends stop goal n tokens result n' rest`: with the counter at `n`, reading the goal from the tokens
comes to the result, with the counter at `n'`, and leaves the rest. The tokens end at `stop`. -/
inductive Descends (stop : Position) :
    Goal → Nat → List Token → Except Error Item → Nat → List Token → Prop where
  -- items
  | atEnd {n} : Descends stop .item n [] (.error ⟨.endOfInput, some ⟨stop, 0⟩⟩) n []
  | separator {n t tokens result n' rest} (ht : t.lexeme.isSeparator = true)
      (h : Descends stop .item n tokens result n' rest) :
      Descends stop .item n (t :: tokens) result n' rest
  | atom {n t tokens d} (ht : t.lexeme.atom? = some (.ok d)) :
      Descends stop .item n (t :: tokens) (.ok (.datum d)) n tokens
  | fault {n t tokens fault} (ht : t.lexeme.atom? = some (.error fault)) :
      Descends stop .item n (t :: tokens) (.error ⟨fault, some t.span⟩) n tokens
  | close {n span tokens} :
      Descends stop .item n (⟨.rightParen, span⟩ :: tokens) (.ok (.close span)) n tokens
  | dot {n span tokens} : Descends stop .item n (⟨.dot, span⟩ :: tokens) (.ok (.dot span)) n tokens
  -- what is nested
  | tooDeep {n t tokens} (ht : t.lexeme = .leftParen ∨ t.lexeme = .quote) (hn : maxNesting ≤ n) :
      Descends stop .item n (t :: tokens) (.error ⟨.nestingTooDeep maxNesting, some t.span⟩) n tokens
  | list {n span tokens result n' rest} (hn : n < maxNesting)
      (h : Descends stop (.list (.items [])) (n + 1) tokens result n' rest) :
      Descends stop .item n (⟨.leftParen, span⟩ :: tokens) result (n' - 1) rest
  | quote {n span tokens result n' rest} (hn : n < maxNesting)
      (h : Descends stop .item (n + 1) tokens result n' rest) :
      Descends stop .item n (⟨.quote, span⟩ :: tokens) (result.bind Item.quoted) (n' - 1) rest
  -- the rest of a list
  | goesOn {n stage tokens item n₁ tokens₁ stage₁ result n₂ rest}
      (h : Descends stop .item n tokens (.ok item) n₁ tokens₁) (hs : stage.take item = .inl stage₁)
      (hrest : Descends stop (.list stage₁) n₁ tokens₁ result n₂ rest) :
      Descends stop (.list stage) n tokens result n₂ rest
  | ends {n stage tokens item result n' rest}
      (h : Descends stop .item n tokens (.ok item) n' rest) (hs : stage.take item = .inr result) :
      Descends stop (.list stage) n tokens (result.map .datum) n' rest
  | breaksOff {n stage tokens e n' rest} (h : Descends stop .item n tokens (.error e) n' rest) :
      Descends stop (.list stage) n tokens (.error e) n' rest

namespace Descends

variable {stop : Position} {goal : Goal} {n n' : Nat} {tokens rest : List Token}
  {result : Except Error Item}

/-- **The counter is back at its value** behind every reading, whether it failed or not. -/
theorem depth_eq (h : Descends stop goal n tokens result n' rest) : n' = n := by
  induction h with
  | atEnd | atom | fault | close | dot | tooDeep => rfl
  | separator _ _ ih => exact ih
  | list _ _ ih => rw [ih, Nat.add_sub_cancel]
  | quote _ _ ih => rw [ih, Nat.add_sub_cancel]
  | goesOn _ _ _ ih ihrest => exact ihrest.trans ih
  | ends _ _ ih => exact ih
  | breaksOff _ ih => exact ih

/-- What is read takes up some of the tokens. -/
theorem length_lt (h : Descends stop goal n tokens result n' rest) :
    rest.length ≤ tokens.length ∧ (result.isOk = true → rest.length < tokens.length) := by
  induction h with
  | atEnd => simp [Except.isOk, Except.toBool]
  | atom | fault | close | dot | tooDeep => simp
  | separator _ _ ih =>
    rw [List.length_cons]
    exact ⟨by omega, fun hok => by have := ih.2 hok; omega⟩
  | list _ _ ih =>
    rw [List.length_cons]
    exact ⟨by omega, fun hok => by omega⟩
  | quote _ _ ih =>
    rw [List.length_cons]
    exact ⟨by omega, fun hok => by omega⟩
  | goesOn _ _ _ ih ihrest =>
    have := ih.2 rfl
    exact ⟨by omega, fun hok => by omega⟩
  | ends _ _ ih =>
    have := ih.2 rfl
    exact ⟨by omega, fun hok => by omega⟩
  | breaksOff _ ih => exact ⟨ih.1, fun hok => by cases hok⟩

end Descends

/-! ## It comes to an end -/

theorem exists_descends_item {stop : Position} {tokens : List Token}
    (ih : ∀ tokens' : List Token, tokens'.length < tokens.length → ∀ goal n,
      ∃ result n' rest, Descends stop goal n tokens' result n' rest) (n : Nat) :
    ∃ result n' rest, Descends stop .item n tokens result n' rest := by
  cases tokens with
  | nil => exact ⟨_, _, _, .atEnd⟩
  | cons t tokens =>
    have hshorter : tokens.length < (t :: tokens).length := by simp
    obtain ⟨lexeme, span⟩ := t
    cases hatom : lexeme.atom? with
    | some atom =>
      cases atom with
      | ok d => exact ⟨_, _, _, .atom hatom⟩
      | error fault => exact ⟨_, _, _, .fault hatom⟩
    | none =>
      cases lexeme with
      | leftParen =>
        by_cases hn : n < maxNesting
        · obtain ⟨result, n', rest, h⟩ := ih tokens hshorter (.list (.items [])) (n + 1)
          exact ⟨_, _, _, .list hn h⟩
        · exact ⟨_, _, _, .tooDeep (.inl rfl) (by omega)⟩
      | quote =>
        by_cases hn : n < maxNesting
        · obtain ⟨result, n', rest, h⟩ := ih tokens hshorter .item (n + 1)
          exact ⟨_, _, _, .quote hn h⟩
        · exact ⟨_, _, _, .tooDeep (.inr rfl) (by omega)⟩
      | rightParen => exact ⟨_, _, _, .close⟩
      | dot => exact ⟨_, _, _, .dot⟩
      | blank text | comment text =>
        obtain ⟨result, n', rest, h⟩ := ih tokens hshorter .item n
        exact ⟨_, _, _, .separator rfl h⟩
      | _ => cases hatom

/-- The descent comes to an end from any tokens. -/
theorem exists_descends (stop : Position) (goal : Goal) (n : Nat) (tokens : List Token) :
    ∃ result n' rest, Descends stop goal n tokens result n' rest := by
  induction hlength : tokens.length using Nat.strongRecOn generalizing goal n tokens with
  | ind m ih =>
  have hshorter : ∀ tokens' : List Token, tokens'.length < tokens.length → ∀ goal n,
      ∃ result n' rest, Descends stop goal n tokens' result n' rest := by
    intro tokens' hlt goal n
    exact ih _ (hlength ▸ hlt) goal n tokens' rfl
  have hitem := exists_descends_item hshorter n
  cases goal with
  | item => exact hitem
  | list stage =>
    obtain ⟨result, n', rest, h⟩ := hitem
    cases result with
    | error e => exact ⟨_, _, _, .breaksOff h⟩
    | ok item =>
      cases hs : stage.take item with
      | inr result => exact ⟨_, _, _, .ends h hs⟩
      | inl stage' =>
        -- an item was read, so fewer tokens are left for the list
        obtain ⟨result, n₂, rest', hrest⟩ := hshorter rest (h.length_lt.2 rfl) (.list stage') n'
        exact ⟨_, _, _, .goesOn h hs hrest⟩

/-! ## The reader follows it -/

namespace Reading

/-- What the reader does with an item, or with a failure to read one, within contexts. -/
def hand (contexts : List Context) : Except Error Item → Reading
  | .ok (.datum d) => (deliver [] d contexts).2
  | .ok (.close span) => (close [] span contexts).2
  | .ok (.dot span) => dot span contexts
  | .error e => failed e

theorem enter_of_le {context : Context} {contexts : List Context} (h : maxNesting ≤ contexts.length)
    (span : Span) : enter context span contexts = failAt (.nestingTooDeep maxNesting) span :=
  if_pos h

/-- A quote around contexts makes of an item what the descent does. -/
theorem hand_quote (contexts : List Context) (result : Except Error Item) :
    hand (.quote :: contexts) result = hand contexts (result.bind Item.quoted) := by
  match result with
  | .ok (.datum d) =>
    show (deliver [] d (.quote :: contexts)).2 =
      (deliver [] (.ofList [.symbol ⟨"QUOTE"⟩, d] .nil) contexts).2
    rw [deliver, deliver_snd, Datum.quote_eq]
  | .ok (.close span) => rfl
  | .ok (.dot span) => rfl
  | .error e => rfl

end Reading

/-- The context of a list that has been read so far. -/
def Stage.context (start : Span) : Stage → Context
  | items found => .items start found
  | dotted found dot => .dotted found dot
  | tailed found dot tail => .tailed found dot tail

namespace Reading

/-- One more item takes the innermost list to its next stage. -/
theorem hand_of_inl {stage stage' : Stage} {item : Item} (h : stage.take item = .inl stage')
    (start : Span) (outer : List Context) :
    hand (stage.context start :: outer) (.ok item) = pending (stage'.context start :: outer) := by
  cases stage <;> cases item <;> cases h <;> rfl

/-- A list that ends is handed to the contexts around it. -/
theorem hand_of_inr {stage : Stage} {item : Item} {result : Except Error Datum}
    (h : stage.take item = .inr result) (start : Span) (outer : List Context) :
    hand (stage.context start :: outer) (.ok item) = hand outer (result.map .datum) := by
  cases stage with
  | items found =>
    cases item with
    | close span =>
      cases h
      exact deliver_snd _ _ _
    | _ => cases h
  | dotted found dot => cases item <;> cases h <;> rfl
  | tailed found dot tail => cases item <;> cases h <;> rfl

end Reading

/-- The reader reads the goal as the descent does, within as many contexts as its counter says: it comes to
hand the result to them, with the same tokens left. Where nothing is open and nothing is left, the reader
sees the end of the input and the descent a failure. -/
def Follows (stop : Position) (n : Nat) (tokens : List Token) (result : Except Error Item)
    (rest : List Token) : Goal → Prop
  | .item => ∀ contexts : List Context, contexts.length = n → contexts ≠ [] ∨ lexemes tokens ≠ [] →
      readFrom stop contexts tokens = resume stop rest (.hand contexts result)
  | .list stage => ∀ (start : Span) (outer : List Context), outer.length + 1 = n →
      readFrom stop (stage.context start :: outer) tokens = resume stop rest (.hand outer result)

/-- **The reader follows the descent.** -/
theorem Descends.followed {stop : Position} {goal : Goal} {n n' : Nat} {tokens rest : List Token}
    {result : Except Error Item} (h : Descends stop goal n tokens result n' rest) :
    Follows stop n tokens result rest goal := by
  induction h with
  | atEnd =>
    intro contexts _ hopen
    rcases hopen with hopen | hopen
    · cases contexts with
      | nil => exact absurd rfl hopen
      | cons context outer => rfl
    · exact absurd rfl hopen
  | separator ht _ ih =>
    intro contexts hn hopen
    rw [readFrom_cons, Reading.next_separator contexts ht]
    rw [lexemes_separator ht] at hopen
    exact ih contexts hn hopen
  | atom ht =>
    intro contexts _ _
    rw [readFrom_cons, Reading.next_atom contexts ht]
    rfl
  | fault ht =>
    intro contexts _ _
    rw [readFrom_cons, Reading.next_fault contexts ht]
    rfl
  | close =>
    intro contexts _ _
    rw [readFrom_cons, Reading.next_rightParen]
    rfl
  | dot =>
    intro contexts _ _
    rw [readFrom_cons, Reading.next_dot]
    rfl
  | @tooDeep n t tokens ht hn =>
    intro contexts hlength _
    obtain ⟨lexeme, span⟩ := t
    rw [readFrom_cons]
    rcases ht with rfl | rfl
    · rw [Reading.next_leftParen, Reading.enter_of_le (by omega)]
      rfl
    · rw [Reading.next_quote, Reading.enter_of_le (by omega)]
      rfl
  | @list n span _ _ _ _ hn _ ih =>
    intro contexts hlength _
    rw [readFrom_enter (Reading.next_leftParen contexts span) (by omega)]
    exact ih span contexts (by omega)
  | @quote n span _ _ _ _ hn _ ih =>
    intro contexts hlength _
    rw [readFrom_enter (Reading.next_quote contexts span) (by omega), ← Reading.hand_quote]
    exact ih (.quote :: contexts) (by simp [hlength]) (.inl (by simp))
  | goesOn h hs _ ih ihrest =>
    intro start outer hlength
    rw [ih _ (by simp [hlength]) (.inl (by simp)), Reading.hand_of_inl hs, resume]
    exact ihrest start outer (by rw [hlength, h.depth_eq])
  | ends _ hs ih =>
    intro start outer hlength
    rw [ih _ (by simp [hlength]) (.inl (by simp)), Reading.hand_of_inr hs]
  | breaksOff _ ih =>
    intro start outer hlength
    exact ih _ (by simp [hlength]) (.inl (by simp))

/-- What a reader makes of an item that nothing is open around. -/
def ReadResult.ofItem : Except Error Item → ReadResult
  | .ok (.datum d) => .datum d
  | .ok (.close span) => .failed ⟨.unexpectedCloseParen, some span⟩
  | .ok (.dot span) => .failed ⟨.unexpectedDot, some span⟩
  | .error e => .failed e

theorem resume_hand_nil (stop : Position) (rest : List Token) (result : Except Error Item) :
    resume stop rest (.hand [] result) = (.ofItem result, rest) := by
  match result with
  | .ok (.datum d) => rfl
  | .ok (.close span) => rfl
  | .ok (.dot span) => rfl
  | .error e => rfl

/-- Where only white space and comments are left, reading comes to the end of the input. -/
theorem readFrom_of_lexemes_nil (stop : Position) {tokens : List Token} (h : lexemes tokens = []) :
    readFrom stop [] tokens = (.exhausted, []) := by
  induction tokens with
  | nil => rfl
  | cons t tokens ih =>
    cases ht : t.lexeme.isSeparator with
    | true =>
      rw [lexemes_separator ht] at h
      rw [readFrom_cons, Reading.next_separator [] ht]
      exact ih h
    | false =>
      rw [lexemes_cons ht] at h
      cases h

/-- Reading the next datum is a descent that begins and ends with the counter at 0, unless there is nothing
left to read. -/
theorem readNext_descends {s : TokenStream} (h : s.readNext.result ≠ .exhausted) :
    ∃ result, Descends s.stop .item 0 s.tokens result 0 s.readNext.rest.tokens ∧
      s.readNext.result = .ofItem result := by
  rw [readNext_result] at h ⊢
  rw [readNext_rest]
  have hleft : lexemes s.tokens ≠ [] := by
    intro hnil
    rw [readFrom_of_lexemes_nil s.stop hnil] at h
    exact h rfl
  obtain ⟨result, n', rest, hd⟩ := exists_descends s.stop .item 0 s.tokens
  obtain rfl := hd.depth_eq
  have hread := hd.followed [] rfl (.inr hleft)
  rw [resume_hand_nil] at hread
  rw [hread]
  exact ⟨result, hd, rfl⟩

end SmallScheme
