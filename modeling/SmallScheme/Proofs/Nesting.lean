import SmallScheme.Proofs.Lexing

/-!
# How deep a text is nested

`sourceNesting` counts the lists and quotes that are open at once in a text, from its lexemes alone.

1. It is the least bound within which the lexemes derive what they derive (`Derives.nesting_le`,
   `Derives.at_nesting`).
2. Within contexts that leave too little room, reading such lexemes fails at the first one that opens more
   than is allowed, and for no other reason (`Derives.room_or_tooDeep`).
-/

namespace SmallScheme

open TokenStream

/-- A list or a quote that has begun. -/
inductive Opening where
  | list
  | quote
  deriving DecidableEq, Repr

/-- What is still open once a datum is complete: with it, the quotes in front of it are complete. -/
def settle (around : List Opening) : List Opening := around.dropWhile (· == .quote)

/-- What is open behind a lexeme. -/
def Lexeme.openings (around : List Opening) : Lexeme → List Opening
  | .leftParen => .list :: around
  | .quote => .quote :: around
  | .rightParen => settle around.tail
  | .symbol _ | .number _ | .string _ | .boolean _ => settle around
  | .dot | .blank _ | .comment _ | .illegal _ | .endOfText => around

/-- What is open behind lexemes, within what is open around them. -/
def openingsFrom (around : List Opening) (ls : List Lexeme) : List Opening := ls.foldl Lexeme.openings around

/-- The most lists and quotes that are open at once, in lexemes within open ones. -/
def nestingFrom (around : List Opening) : List Lexeme → Nat
  | [] => around.length
  | l :: ls => max around.length (nestingFrom (l.openings around) ls)

/-- The most lists and quotes that are open at once. -/
def sourceNesting (ls : List Lexeme) : Nat := nestingFrom [] ls

theorem openingsFrom_cons (around : List Opening) (l : Lexeme) (ls : List Lexeme) :
    openingsFrom around (l :: ls) = openingsFrom (l.openings around) ls := rfl

theorem openingsFrom_append (around : List Opening) (ls ls' : List Lexeme) :
    openingsFrom around (ls ++ ls') = openingsFrom (openingsFrom around ls) ls' :=
  List.foldl_append

theorem length_le_nestingFrom (around : List Opening) (ls : List Lexeme) :
    around.length ≤ nestingFrom around ls := by
  cases ls with
  | nil => exact Nat.le_refl _
  | cons l ls => exact Nat.le_max_left _ _

/-! ## The least bound of a derivation -/

/-- A bound may be exceeded. -/
theorem Derives.mono {m n : Nat} {ls : List Lexeme} {φ : Phrase} (h : Derives m ls φ) (hle : m ≤ n) :
    Derives n ls φ := by
  induction h generalizing n with
  | symbol name => exact .symbol name
  | string text => exact .string text
  | boolean value => exact .boolean value
  | number h => exact .number h
  | quote _ ih =>
    obtain ⟨n, rfl⟩ := Nat.exists_eq_add_of_lt hle
    exact .quote (ih (by omega))
  | list _ ih =>
    obtain ⟨n, rfl⟩ := Nat.exists_eq_add_of_lt hle
    exact .list (ih (by omega))
  | dotted _ _ ih ihTail =>
    obtain ⟨n, rfl⟩ := Nat.exists_eq_add_of_lt hle
    exact .dotted (ih (by omega)) (ihTail (by omega))
  | none => exact .none
  | more _ _ ih ihs => exact .more (ih hle) (ihs hle)

/-- Data are counted where a list is open or nothing is. -/
def Phrase.FitsWithin (around : List Opening) : Phrase → Prop
  | .datum _ => True
  | .data _ => settle around = around

theorem Phrase.fitsWithin_list (φ : Phrase) (around : List Opening) : φ.FitsWithin (.list :: around) := by
  cases φ with
  | datum d => trivial
  | data ds => rfl

/-- Behind a phrase is open what was open in front of it, but for the quotes that it completes. -/
theorem Derives.openingsFrom {n : Nat} {ls : List Lexeme} {φ : Phrase} (h : Derives n ls φ)
    {around : List Opening} (hfits : φ.FitsWithin around) : openingsFrom around ls = settle around := by
  induction h generalizing around with
  | symbol name => rfl
  | string text => rfl
  | boolean value => rfl
  | number h => rfl
  | quote _ ih => exact @ih (.quote :: around) trivial
  | list _ ih =>
    rw [openingsFrom_cons, openingsFrom_append, Lexeme.openings, ih (Phrase.fitsWithin_list _ _)]
    rfl
  | dotted _ _ ih ihTail =>
    rw [openingsFrom_cons, openingsFrom_append, Lexeme.openings, ih (Phrase.fitsWithin_list _ _),
      openingsFrom_cons, openingsFrom_append, ihTail trivial]
    rfl
  | none => exact hfits.symm
  | more _ _ ih ihs =>
    have hsettle : settle around = around := hfits
    rw [openingsFrom_append, ih trivial, hsettle, ihs hsettle, hsettle]

/-- A phrase is derived within some bound that says how far its lexemes go beyond what is open around
them. -/
theorem Derives.exists_nesting {n : Nat} {ls : List Lexeme} {φ : Phrase} (h : Derives n ls φ) :
    ∃ m ≤ n, Derives m ls φ ∧ ∀ around rest, φ.FitsWithin around →
      nestingFrom around (ls ++ rest) = max (around.length + m) (nestingFrom (settle around) rest) := by
  induction h with
  | symbol name => exact ⟨0, Nat.zero_le _, .symbol name, fun around rest _ => rfl⟩
  | string text => exact ⟨0, Nat.zero_le _, .string text, fun around rest _ => rfl⟩
  | boolean value => exact ⟨0, Nat.zero_le _, .boolean value, fun around rest _ => rfl⟩
  | number h => exact ⟨0, Nat.zero_le _, .number h, fun around rest _ => rfl⟩
  | quote _ ih =>
    obtain ⟨m, hm, hd, hnesting⟩ := ih
    refine ⟨m + 1, Nat.succ_le_succ hm, .quote hd, ?_⟩
    intro around rest _
    have hsettle : settle (.quote :: around) = settle around := rfl
    rw [List.cons_append, nestingFrom, Lexeme.openings, hnesting _ _ trivial, hsettle, List.length_cons]
    omega
  | list _ ih =>
    obtain ⟨m, hm, hd, hnesting⟩ := ih
    refine ⟨m + 1, Nat.succ_le_succ hm, .list hd, ?_⟩
    intro around rest _
    have hsettle : settle (.list :: around) = .list :: around := rfl
    rw [List.cons_append, List.append_assoc, nestingFrom, Lexeme.openings, hnesting _ _ hsettle, hsettle,
      List.singleton_append, nestingFrom, Lexeme.openings, List.length_cons, List.tail_cons]
    omega
  | dotted _ _ ih ihTail =>
    obtain ⟨m, hm, hd, hnesting⟩ := ih
    obtain ⟨k, hk, htail, hnestingTail⟩ := ihTail
    refine ⟨max m k + 1, Nat.succ_le_succ (max_le hm hk),
      .dotted (hd.mono (le_max_left m k)) (htail.mono (le_max_right m k)), ?_⟩
    intro around rest _
    have hsettle : settle (.list :: around) = .list :: around := rfl
    rw [List.cons_append, List.append_assoc, nestingFrom, Lexeme.openings, hnesting _ _ hsettle, hsettle,
      List.cons_append, nestingFrom, Lexeme.openings, List.append_assoc, hnestingTail _ _ trivial, hsettle,
      List.singleton_append, nestingFrom, Lexeme.openings, List.length_cons, List.tail_cons]
    omega
  | none =>
    refine ⟨0, Nat.zero_le _, .none, ?_⟩
    intro around rest hfits
    rw [List.nil_append, hfits, Nat.add_zero]
    exact (max_eq_right (length_le_nestingFrom around rest)).symm
  | more _ _ ih ihs =>
    obtain ⟨m, hm, hd, hnesting⟩ := ih
    obtain ⟨k, hk, hds, hnestings⟩ := ihs
    refine ⟨max m k, max_le hm hk, .more (hd.mono (le_max_left m k)) (hds.mono (le_max_right m k)), ?_⟩
    intro around rest hfits
    have hsettle : settle around = around := hfits
    rw [List.append_assoc, hnesting _ _ trivial, hsettle, hnestings _ _ hsettle, hsettle]
    omega

/-- The bound that a phrase needs is the number of lists and quotes that are open at once. -/
theorem Derives.nesting_spec {n : Nat} {ls : List Lexeme} {φ : Phrase} (h : Derives n ls φ) :
    sourceNesting ls ≤ n ∧ Derives (sourceNesting ls) ls φ ∧ ∀ around rest, φ.FitsWithin around →
      nestingFrom around (ls ++ rest) =
        max (around.length + sourceNesting ls) (nestingFrom (settle around) rest) := by
  obtain ⟨m, hm, hd, hnesting⟩ := h.exists_nesting
  have hfits : φ.FitsWithin [] := by
    cases φ with
    | datum d => trivial
    | data ds => rfl
  have hwhole := hnesting [] [] hfits
  have heq : sourceNesting ls = m := by
    rw [List.append_nil, settle, List.dropWhile_nil, nestingFrom] at hwhole
    rw [sourceNesting, hwhole]
    simp
  rw [heq]
  exact ⟨hm, hd, hnesting⟩

/-- The lists and quotes that are open at once are bounded by any bound of a derivation. -/
theorem Derives.nesting_le {n : Nat} {ls : List Lexeme} {φ : Phrase} (h : Derives n ls φ) :
    sourceNesting ls ≤ n :=
  h.nesting_spec.1

/-- What derives at all derives within the lists and quotes that are open at once. -/
theorem Derives.at_nesting {n : Nat} {ls : List Lexeme} {φ : Phrase} (h : Derives n ls φ) :
    Derives (sourceNesting ls) ls φ :=
  h.nesting_spec.2.1

/-! ## Too little room -/

/-- Reading these lexemes within the contexts opens more than is allowed. -/
def TooDeep (contexts : List Context) (ls : List Lexeme) : Prop :=
  ∀ stop tokens rest, tokens.map Token.lexeme = ls → ∃ span rest',
    readFrom stop contexts (tokens ++ rest) = (.failed ⟨.nestingTooDeep maxNesting, some span⟩, rest')

/-- The lexemes derive the phrase within the room that the contexts leave, or reading them goes too deep. -/
def RoomOrTooDeep (ls : List Lexeme) : Phrase → Prop
  | .datum d => ∀ contexts : List Context, contexts.length ≤ maxNesting →
      Derives (maxNesting - contexts.length) ls (.datum d) ∨ TooDeep contexts ls
  | .data ds => ∀ start found outer, outer.length + 1 ≤ maxNesting →
      Derives (maxNesting - (outer.length + 1)) ls (.data ds) ∨ TooDeep (.items start found :: outer) ls

theorem TooDeep.append {contexts : List Context} {ls : List Lexeme} (h : TooDeep contexts ls)
    (ls' : List Lexeme) : TooDeep contexts (ls ++ ls') := by
  intro stop tokens rest hl
  obtain ⟨first, others, rfl, hfirst, -⟩ := List.map_eq_append_iff.mp hl
  rw [List.append_assoc]
  exact h stop first _ hfirst

theorem TooDeep.of_next {l : Lexeme} {contexts : List Context} {contexts' : Span → List Context}
    {ls : List Lexeme} (hnext : ∀ span, Reading.next contexts ⟨l, span⟩ = .pending (contexts' span))
    (h : ∀ span, TooDeep (contexts' span) ls) : TooDeep contexts (l :: ls) := by
  intro stop tokens rest hl
  obtain ⟨⟨_, span⟩, tokens, rfl, rfl, h₁⟩ := List.map_eq_cons_iff.mp hl
  rw [List.cons_append, readFrom_cons, hnext]
  exact h span stop tokens rest h₁

/-- Where no room is left, nothing can be opened; else what goes too deep inside goes too deep. -/
theorem TooDeep.of_enter {l : Lexeme} {contexts : List Context} {context : Span → Context}
    {ls : List Lexeme} (hnext : ∀ span, Reading.next contexts ⟨l, span⟩ = .enter (context span) span contexts)
    (h : contexts.length < maxNesting → ∀ span, TooDeep (context span :: contexts) ls) :
    TooDeep contexts (l :: ls) := by
  by_cases hroom : contexts.length < maxNesting
  · have hpending (span : Span) :
        Reading.next contexts ⟨l, span⟩ = .pending (context span :: contexts) := by
      rw [hnext, Reading.enter, if_neg (by omega)]
    exact .of_next hpending (h hroom)
  · intro stop tokens rest hl
    obtain ⟨⟨_, span⟩, tokens, rfl, rfl, -⟩ := List.map_eq_cons_iff.mp hl
    refine ⟨span, tokens ++ rest, ?_⟩
    rw [List.cons_append, readFrom_cons, hnext, Reading.enter, if_pos (by omega)]
    rfl

/-- What goes too deep behind data of the same list goes too deep. -/
theorem TooDeep.after_data {start : Span} {found ds : List Datum} {outer : List Context}
    {ls ls' : List Lexeme} (hn : outer.length + 1 ≤ maxNesting)
    (hds : Derives (maxNesting - (outer.length + 1)) ls (.data ds))
    (h : TooDeep (.items start (ds.reverse ++ found) :: outer) ls') :
    TooDeep (.items start found :: outer) (ls ++ ls') := by
  intro stop tokens rest hl
  obtain ⟨first, others, rfl, hfirst, hothers⟩ := List.map_eq_append_iff.mp hl
  rw [List.append_assoc, hds.reads _ _ _ _ _ _ (by omega) hfirst]
  exact h stop others rest hothers

/-- **Room, or too deep.** What derives at all derives within the room that is left, or reading it goes too
deep. -/
theorem Derives.room_or_tooDeep {n : Nat} {ls : List Lexeme} {φ : Phrase} (h : Derives n ls φ) :
    RoomOrTooDeep ls φ := by
  induction h with
  | symbol name => exact fun contexts _ => .inl (.symbol name)
  | string text => exact fun contexts _ => .inl (.string text)
  | boolean value => exact fun contexts _ => .inl (.boolean value)
  | number h => exact fun contexts _ => .inl (.number h)
  | @quote n ls d _ ih =>
    intro contexts _
    by_cases hd : contexts.length < maxNesting ∧ Derives (maxNesting - (contexts.length + 1)) ls (.datum d)
    · left
      rw [room_succ hd.1]
      exact .quote hd.2
    · right
      refine .of_enter (fun span => Reading.next_quote contexts span) ?_
      intro hroom span
      exact (ih (.quote :: contexts) hroom).resolve_left fun h => hd ⟨hroom, h⟩
  | @list n ls ds _ ih =>
    intro contexts _
    by_cases hd : contexts.length < maxNesting ∧ Derives (maxNesting - (contexts.length + 1)) ls (.data ds)
    · left
      rw [room_succ hd.1]
      exact .list hd.2
    · right
      refine .of_enter (fun span => Reading.next_leftParen contexts span) ?_
      intro hroom span
      exact ((ih span [] contexts hroom).resolve_left fun h => hd ⟨hroom, h⟩).append _
  | @dotted n ls ds ls' d _ _ ih ihTail =>
    intro contexts _
    by_cases hroom : contexts.length < maxNesting
    · by_cases hds : Derives (maxNesting - (contexts.length + 1)) ls (.data ds)
      · by_cases hd : Derives (maxNesting - (contexts.length + 1)) ls' (.datum d)
        · left
          rw [room_succ hroom]
          exact .dotted hds hd
        · right
          refine .of_enter (fun span => Reading.next_leftParen contexts span) fun _ span => ?_
          refine .after_data hroom hds (.of_next (fun dot => Reading.next_dot _ dot) fun dot => ?_)
          exact ((ihTail (.dotted _ dot :: contexts) hroom).resolve_left hd).append _
      · right
        refine .of_enter (fun span => Reading.next_leftParen contexts span) fun _ span => ?_
        exact ((ih span [] contexts hroom).resolve_left hds).append _
    · exact .inr (.of_enter (fun span => Reading.next_leftParen contexts span) fun h => absurd h hroom)
  | none => exact fun start found outer _ => .inl .none
  | @more n ls d ls' ds _ _ ih ihs =>
    intro start found outer hn
    by_cases hd : Derives (maxNesting - (outer.length + 1)) ls (.datum d)
    · by_cases hds : Derives (maxNesting - (outer.length + 1)) ls' (.data ds)
      · exact .inl (.more hd hds)
      · right
        have hone : Derives (maxNesting - (outer.length + 1)) ls (.data [d]) := by
          simpa using hd.more .none
        exact .after_data hn hone ((ihs start (d :: found) outer hn).resolve_left hds)
    · exact .inr (((ih (.items start found :: outer) hn).resolve_left hd).append ls')

/-- **The nesting limit.** A text whose lexemes derive a datum within some bound is read as that datum if it
is not nested deeper than allowed, and else fails for that reason. -/
theorem readAll_of_datum {n : Nat} {text : String} {d : Datum}
    (h : Derives n (lexemesOf text.toList) (.datum d)) :
    (sourceNesting (lexemesOf text.toList) ≤ maxNesting → readAll text = .ok [d]) ∧
    (maxNesting < sourceNesting (lexemesOf text.toList) →
      ∃ span, readAll text = .error ⟨.nestingTooDeep maxNesting, some span⟩) := by
  constructor
  · intro hle
    refine readAll_of_derives ?_
    simpa using (h.at_nesting.mono hle).more .none
  · intro hlt
    have hdeep : TooDeep [] (lexemesOf text.toList) := by
      refine (h.room_or_tooDeep [] (Nat.zero_le _)).resolve_left fun hroom => ?_
      exact absurd hroom.nesting_le (Nat.not_le.mpr hlt)
    obtain ⟨span, rest, hread⟩ :=
      hdeep (ofString text).stop (significant (ofString text).tokens) [] (lexemes_ofString text)
    refine ⟨span, ?_⟩
    show readData ⟨(ofString text).tokens, (ofString text).stop⟩ = _
    rw [List.append_nil] at hread
    rw [← readData_significant, readData_eq, hread]

end SmallScheme
