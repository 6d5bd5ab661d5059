import SmallScheme.Proofs.Printing

/-!
# What is read

Which data a text can yield, whatever was read in front of them and whether or not reading failed there.

1. `IsName.upper`: a name in upper case is a name, as upper case makes neither digits nor punctuation.
2. `Found.first_symbol`: a symbol is only ever found as a name.
3. `Derives.readable`: hence what derives from lexemes that were found has atoms whose texts are read as
   atoms, and its text nests no deeper than the lexemes did.
-/

namespace SmallScheme

open Text TokenStream

/-! ## Names -/

theorem Found.startsNumber_iff {c : Char} {next : Option Char} :
    Found.startsNumber c next = true ↔
      isDigit c = true ∨ (c = '+' ∨ c = '-') ∧ (∃ d, next = some d ∧ (isDigit d = true ∨ d = '.')) ∨
        c = '.' ∧ ∃ d, next = some d ∧ isDigit d = true := by
  cases next <;> simp [Found.startsNumber, or_assoc]

/-- A number is started by characters in front of the letters. -/
theorem code_lt_of_startsNumber {c : Char} {next : Option Char} (h : Found.startsNumber c next = true) :
    c.toNat < 0x41 := by
  rcases Found.startsNumber_iff.mp h with h | ⟨rfl | rfl, -⟩ | ⟨rfl, -⟩
  · have := toNat_of_isDigit h
    omega
  · decide
  · decide
  · decide

theorem head?_flatMap_upperChar {cs : List Char} {d : Char}
    (h : (cs.flatMap upperChar).head? = some d) (hd : d.toNat < 0x41) : cs.head? = some d := by
  cases cs with
  | nil => cases h
  | cons c cs =>
    obtain ⟨e, es, he⟩ := List.exists_cons_of_ne_nil (upperChar_ne_nil c)
    rw [List.flatMap_cons, he, List.cons_append, List.head?_cons, Option.some.injEq] at h
    subst h
    obtain ⟨rfl, -⟩ := upperChar_eq_of_mem (c := c) (by rw [he]; exact List.mem_cons_self) hd
    rfl

/-- Upper case makes no numbers. -/
theorem startsNumber_of_upper {c : Char} {cs : List Char}
    (h : Found.startsNumber c (cs.flatMap upperChar).head? = true) :
    Found.startsNumber c cs.head? = true := by
  have hnext {d : Char} (hd : isDigit d = true ∨ d = '.')
      (hhead : (cs.flatMap upperChar).head? = some d) : cs.head? = some d := by
    refine head?_flatMap_upperChar hhead ?_
    rcases hd with hd | rfl
    · have := toNat_of_isDigit hd
      omega
    · decide
  rw [Found.startsNumber_iff] at h ⊢
  rcases h with h | ⟨hc, d, hhead, hd⟩ | ⟨hc, d, hhead, hd⟩
  · exact .inl h
  · exact .inr (.inl ⟨hc, d, hnext hd hhead, hd⟩)
  · exact .inr (.inr ⟨hc, d, hnext (.inl hd) hhead, hd⟩)

/-- A name in upper case is a name. -/
theorem IsName.upper {cs : List Char} (h : IsName cs) : IsName (cs.flatMap upperChar) := by
  obtain ⟨c, rest, rfl, ⟨hword, hhash, hdot⟩, hnumber⟩ := h
  obtain ⟨d, ds, hd⟩ := List.exists_cons_of_ne_nil (upperChar_ne_nil c)
  have hsame : d.toNat < 0x41 → c = d ∧ upperChar c = [d] :=
    upperChar_eq_of_mem (by rw [hd]; exact List.mem_cons_self)
  refine ⟨d, ds ++ rest.flatMap upperChar, ?_, ⟨?_, ?_, ?_⟩, ?_⟩
  · rw [List.flatMap_cons, hd, List.cons_append]
  · intro e he
    rw [← List.cons_append, ← hd, ← List.flatMap_cons] at he
    obtain ⟨b, hb, he⟩ := List.mem_flatMap.mp he
    exact isWordChar_of_mem_upperChar (hword b hb) he
  · rintro rfl
    exact hhash (hsame (by decide)).1
  · rintro rfl hnil
    obtain ⟨e, es, he⟩ := List.exists_cons_of_ne_nil (hdot (hsame (by decide)).1)
    rw [List.append_eq_nil_iff, he, List.flatMap_cons, List.append_eq_nil_iff] at hnil
    exact upperChar_ne_nil e hnil.2.1
  · rw [Bool.eq_false_iff] at hnumber ⊢
    intro hstarts
    obtain ⟨rfl, hlone⟩ := hsame (code_lt_of_startsNumber hstarts)
    rw [hlone, List.cons.injEq] at hd
    rw [← hd.2, List.nil_append] at hstarts
    exact hnumber (startsNumber_of_upper hstarts)

/-! ## Symbols that are found -/

theorem startsNumber_takeWhile {c : Char} {cs : List Char} {p : Char → Bool}
    (h : Found.startsNumber c (cs.takeWhile p).head? = true) : Found.startsNumber c cs.head? = true := by
  have hnext {d : Char} (hd : (cs.takeWhile p).head? = some d) : cs.head? = some d := by
    rw [List.head?_takeWhile, Option.filter_eq_some_iff] at hd
    exact hd.1
  rw [Found.startsNumber_iff] at h ⊢
  rcases h with h | ⟨hc, d, hhead, hd⟩ | ⟨hc, d, hhead, hd⟩
  · exact .inl h
  · exact .inr (.inl ⟨hc, d, hnext hhead, hd⟩)
  · exact .inr (.inr ⟨hc, d, hnext hhead, hd⟩)

theorem Found.word_symbol {c : Char} {cs : List Char} {name : String} (hhash : c ≠ '#')
    (h : (Found.word c cs).lexeme = .symbol name) : IsName name.toList := by
  unfold Found.word at h
  split_ifs at h with hdot hword hnumber
  · cases h
  · cases h
  · cases h
  · cases h
    rw [Bool.not_eq_true, Bool.not_eq_false'] at hword
    rw [String.toList_ofList]
    refine ⟨c, cs.takeWhile isWordChar, rfl, ⟨?_, hhash, ?_⟩, ?_⟩
    · intro d hd
      rcases List.mem_cons.mp hd with rfl | hd
      · exact hword
      · exact List.mem_takeWhile_imp hd
    · rintro rfl hnil
      refine hdot ?_
      cases cs with
      | nil => rfl
      | cons d ds =>
        rw [List.takeWhile_cons] at hnil
        split_ifs at hnil with hd
        simp [hd]
    · rw [Bool.eq_false_iff]
      exact fun hstarts => hnumber (startsNumber_takeWhile hstarts)

theorem StringLiteral.scanFrom_ne_symbol (p : Progress) (cs : List Char) (name : String) :
    (scanFrom p cs).1 ≠ .symbol name := by
  fun_induction scanFrom p cs with
  | case1 p rest =>
    unfold Progress.closed
    split <;> exact Lexeme.noConfusion
  | case2 p cs _ e written rest _ _ ih => exact ih
  | case3 p cs => exact Lexeme.noConfusion

/-- A symbol is found as a name. -/
theorem Found.first_symbol {c : Char} {cs : List Char} {name : String}
    (h : (Found.first c cs).lexeme = .symbol name) : IsName name.toList := by
  unfold Found.first at h
  split at h
  · cases h
  · split at h
    · cases h
    · cases h
    · cases h
    · exact absurd h (StringLiteral.scanFrom_ne_symbol {} cs name)
    · unfold Found.comment at h
      dsimp only at h
      split at h <;> cases h
    · unfold Found.hash Found.hashWord at h
      dsimp only at h
      split_ifs at h
    · exact Found.word_symbol (by assumption) h

/-! ## Data that are delivered -/

/-- The lexemes that can be found in a text. -/
def Scanned (l : Lexeme) : Prop := ∃ c cs, l = (Found.first c cs).lexeme

theorem scanned_scanFrom {found : List Token} (hfound : ∀ t ∈ found, Scanned t.lexeme) (p : Position)
    (cs : List Char) : ∀ t ∈ (scanFrom found p cs).tokens, Scanned t.lexeme := by
  fun_induction scanFrom found p cs with
  | case1 found p => exact fun t ht => hfound t (List.mem_reverse.mp ht)
  | case2 found p c cs next ih =>
    apply ih
    intro t ht
    rcases List.mem_cons.mp ht with rfl | ht
    · exact ⟨c, cs, rfl⟩
    · exact hfound t ht

/-- Reading one datum after the other from a stream, also past those that fail, gives this datum at some
time. -/
inductive TokenStream.Delivers : TokenStream → Datum → Prop where
  | next {s d} (h : s.readNext.result = .datum d) : Delivers s d
  | later {s d} (h : Delivers s.readNext.rest d) : Delivers s d

/-- All data of a stream that is read without failure are delivered. -/
theorem TokenStream.delivers_of_readData {tokens : List Token} {stop : Position} {ds : List Datum}
    (h : readData ⟨tokens, stop⟩ = .ok ds) : ∀ d ∈ ds, Delivers ⟨tokens, stop⟩ d := by
  refine readData_induction (motive := fun tokens ds => ∀ d ∈ ds, Delivers ⟨tokens, stop⟩ d) ?_ ?_ h
  · intro tokens rest _ d hd
    exact absurd hd List.not_mem_nil
  · intro tokens d rest ds hr ih e he
    rcases List.mem_cons.mp he with rfl | he
    · refine .next ?_
      rw [readNext_result, hr]
    · refine .later ?_
      rw [readNext_rest, hr]
      exact ih e he

/-- A datum that a stream delivers derives from some of its tokens. -/
theorem TokenStream.Delivers.derives {s : TokenStream} {d : Datum} (h : s.Delivers d) :
    ∃ used, used ⊆ s.tokens ∧ Derives maxNesting (lexemes used) (.datum d) := by
  induction h with
  | @next s d h =>
    rw [readNext_result] at h
    obtain ⟨used, hused, hd⟩ := Opened.nil.readFrom (Prod.ext h rfl)
    refine ⟨used, ?_, hd⟩
    rw [hused]
    exact List.subset_append_left _ _
  | @later s d _ ih =>
    obtain ⟨used, hsub, hd⟩ := ih
    refine ⟨used, List.Subset.trans hsub ?_, hd⟩
    rw [readNext_rest]
    obtain ⟨before, hbefore⟩ := readFrom_suffix s.stop [] s.tokens
    intro t ht
    rw [hbefore]
    exact List.mem_append_right _ ht

namespace Datum

/-- A datum that can be read within `n` open lists and quotes: its atoms can be read, and the lists of
its text are not nested deeper. -/
structure Readable (n : Nat) (d : Datum) : Prop where
  atoms : ∀ a ∈ d.atoms, a.Readable
  nesting_le : d.nesting ≤ n

theorem innerNesting_le_nesting (d : Datum) : d.innerNesting ≤ d.nesting := by
  cases d <;> simp only [innerNesting, nesting] <;> omega

theorem nesting_le_innerNesting (d : Datum) : d.nesting ≤ d.innerNesting + 1 := by
  cases d <;> simp only [innerNesting, nesting] <;> omega

/-- Items in front of a tail make a list that can be read within one level more. -/
theorem readable_ofList {n : Nat} (ds : List Datum) {d : Datum} (hds : ∀ d ∈ ds, Readable n d)
    (hatoms : ∀ a ∈ d.atoms, a.Readable) (hn : d.innerNesting ≤ n) :
    Readable (n + 1) (ofList ds d) := by
  have hlist : (∀ a ∈ (ofList ds d).atoms, a.Readable) ∧ (ofList ds d).innerNesting ≤ n := by
    induction ds with
    | nil => exact ⟨hatoms, hn⟩
    | cons e ds ih =>
      have he := hds e List.mem_cons_self
      obtain ⟨ih₁, ih₂⟩ := ih fun d hd => hds d (List.mem_cons_of_mem e hd)
      constructor
      · intro a ha
        rcases List.mem_append.mp ha with ha | ha
        · exact he.atoms a ha
        · exact ih₁ a ha
      · exact max_le he.nesting_le ih₂
  exact ⟨hlist.1, (nesting_le_innerNesting _).trans (Nat.succ_le_succ hlist.2)⟩

theorem readable_atom {n : Nat} {a : Literal} (h : a.Readable) : Readable n (.atom a) := by
  constructor
  · intro b hb
    rw [List.mem_singleton.mp hb]
    exact h
  · exact Nat.zero_le n

end Datum

theorem Decimal.isNaN_of_number? {text : String} {x : Float} (h : Decimal.number? text = some x) :
    x.isNaN = false := by
  unfold Decimal.number? Decimal.plainNumber? at h
  dsimp only at h
  split_ifs at h
  obtain ⟨e, -, rfl⟩ := Option.map_eq_some_iff.mp h
  exact Decimal.isNaN_nearest _ _ _

theorem readable_symbol {name : String} (h : IsName name.toList) :
    (Literal.symbol (.ofName name)).Readable := by
  refine ⟨?_, upper_upper name⟩
  show IsName (Text.upper name).toList
  rw [toList_upper]
  exact h.upper

/-- The data of a phrase can be read within `n` open lists and quotes. -/
def Phrase.Readable (n : Nat) : Phrase → Prop
  | .datum d => d.Readable n
  | .data ds => ∀ d ∈ ds, Datum.Readable n d

/-- What is derived from the lexemes of a text can be read. -/
theorem Derives.readable {n : Nat} {ls : List Lexeme} {φ : Phrase} (h : Derives n ls φ)
    (hls : ∀ l ∈ ls, Scanned l) : φ.Readable n := by
  induction h with
  | symbol name =>
    obtain ⟨c, cs, hl⟩ := hls (.symbol name) List.mem_cons_self
    exact Datum.readable_atom (readable_symbol (Found.first_symbol hl.symm))
  | string text => exact Datum.readable_atom trivial
  | boolean value => exact Datum.readable_atom trivial
  | number h => exact Datum.readable_atom (Decimal.isNaN_of_number? h)
  | @quote n ls d _ ih =>
    have hd : Datum.Readable n d := ih fun l hl => hls l (List.mem_cons_of_mem _ hl)
    have hquote : IsName "quote".toList :=
      ⟨'q', "uote".toList, rfl, ⟨List.all_eq_true.mp rfl, by decide, by decide⟩, rfl⟩
    refine Datum.readable_ofList [.symbol ⟨"QUOTE"⟩, d] ?_ ?_ ?_
    · intro e he
      simp only [List.mem_cons, List.not_mem_nil, or_false] at he
      rcases he with rfl | rfl
      · rw [← Datum.quoteSymbol_eq]
        exact Datum.readable_atom (readable_symbol hquote)
      · exact hd
    · simp [Sexp.atoms]
    · exact Nat.zero_le n
  | @list n ls ds _ ih =>
    refine Datum.readable_ofList ds (ih fun l hl => hls l ?_) (by simp [Sexp.atoms]) (Nat.zero_le n)
    exact List.mem_cons_of_mem _ (List.mem_append_left _ hl)
  | @dotted n ls ds ls' d _ _ ih ihTail =>
    have hd : Datum.Readable n d := ihTail fun l hl => hls l (by simp [hl])
    refine Datum.readable_ofList ds (ih fun l hl => hls l ?_) hd.atoms
      (d.innerNesting_le_nesting.trans hd.nesting_le)
    exact List.mem_cons_of_mem _ (List.mem_append_left _ hl)
  | none => exact fun d hd => absurd hd List.not_mem_nil
  | @more n ls d ls' ds _ _ ih ihs =>
    intro e he
    rcases List.mem_cons.mp he with rfl | he
    · exact ih fun l hl => hls l (List.mem_append_left _ hl)
    · exact ihs (fun l hl => hls l (List.mem_append_right _ hl)) e he

/-- A datum that is read from a text can be read back within the nesting limit. -/
theorem TokenStream.Delivers.readable {text : String} {d : Datum} (h : (ofString text).Delivers d) :
    Datum.Readable maxNesting d := by
  obtain ⟨used, hsub, hderives⟩ := h.derives
  apply hderives.readable
  intro l hl
  obtain ⟨t, ht, rfl⟩ := List.mem_map.mp hl
  exact scanned_scanFrom (fun t ht => absurd ht List.not_mem_nil) {} text.toList t
    (hsub (List.mem_filter.mp ht).1)

end SmallScheme
