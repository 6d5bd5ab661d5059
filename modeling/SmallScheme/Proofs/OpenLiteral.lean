import SmallScheme.Proofs.Tiling

/-!
# String literals that are left open

A text may end inside a string literal, and inside an escape of it. `StringLiteral.canClose` decides from the
characters of the literal whether it can still become a string.

1. An escape that has begun can be finished unless its digits are no digits or name too large a number already
   (`exists_element_append`, `element?_append_ne_char`).
2. So a literal can be closed (`exists_scanFrom_string`), or it is illegal whatever follows
   (`scanFrom_append_illegal`).
-/

namespace SmallScheme

open Text

/-! ## Hexadecimal numbers -/

namespace Text

theorem hexNumber?_nil : hexNumber? [] = some 0 := rfl

theorem hexNumber?_snoc (digits : List Char) (c : Char) :
    hexNumber? (digits ++ [c]) =
      (hexNumber? digits).bind fun n => (hexDigit? c).map (16 * n + ·) := by
  unfold hexNumber?
  rw [List.foldlM_append]
  simp

/-- More digits make the number larger, and no number of what is none. -/
theorem exists_hexNumber?_of_append {digits more : List Char} {m : Nat}
    (h : hexNumber? (digits ++ more) = some m) : ∃ n, hexNumber? digits = some n ∧ n ≤ m := by
  induction more using List.reverseRecOn generalizing m with
  | nil =>
    rw [List.append_nil] at h
    exact ⟨m, h, Nat.le_refl m⟩
  | append_singleton more c ih =>
    rw [← List.append_assoc, hexNumber?_snoc, Option.bind_eq_some_iff] at h
    obtain ⟨k, hk, hm⟩ := h
    obtain ⟨d, -, rfl⟩ := Option.map_eq_some_iff.mp hm
    obtain ⟨n, hn, hle⟩ := ih hk
    exact ⟨n, hn, by omega⟩

theorem hexDigit?_lt {c : Char} {n : Nat} (h : hexDigit? c = some n) : n < 16 := by
  unfold hexDigit? at h
  split_ifs at h with hdigit hlower hupper
  · have := toNat_of_isDigit hdigit
    cases h
    simp only [Char.reduceToNat]
    omega
  · simp only [Bool.and_eq_true, decide_eq_true_eq, Char.le_def, UInt32.le_iff_toNat_le] at hlower
    cases h
    have hle : c.toNat ≤ 102 := hlower.2
    simp only [Char.reduceToNat]
    omega
  · simp only [Bool.and_eq_true, decide_eq_true_eq, Char.le_def, UInt32.le_iff_toNat_le] at hupper
    cases h
    have hle : c.toNat ≤ 70 := hupper.2
    simp only [Char.reduceToNat]
    omega

end Text

namespace StringLiteral

/-! ## Escapes -/

/-- The digits of a braced escape that is not finished can become those of a character: they are no more than
eight and their number is not too large. Only if there are eight must it be that of a character already. -/
def bracedOpen (digits : List Char) : Bool :=
  match hexNumber? digits with
  | some n => if digits.length < 8 then n < 0x110000 else digits.length == 8 && decide n.isValidChar
  | none => false

/-- The characters behind the last element of a literal, where the text ends, can become one more element. -/
def escapeOpen : List Char → Bool
  | '\\' :: 'x' :: digits => (hexNumber? digits).isSome
  | '\\' :: '\x7b' :: digits => bracedOpen digits
  | _ => true

theorem scalar?_eq_some {digits : List Char} {n : Nat} (h : hexNumber? digits = some n)
    (hn : n.isValidChar) : scalar? digits = some (Char.ofNat n) := by
  rw [scalar?, h]
  exact if_pos hn

theorem exists_of_scalar? {digits : List Char} {c : Char} (h : scalar? digits = some c) :
    ∃ n, hexNumber? digits = some n ∧ n.isValidChar := by
  obtain ⟨n, hn, hc⟩ := Option.bind_eq_some_iff.mp h
  by_cases hvalid : n.isValidChar
  · exact ⟨n, hn, hvalid⟩
  · rw [if_neg hvalid] at hc
    cases hc

theorem braced?_eq_some_iff {digits : List Char} {c : Char} :
    braced? digits = some c ↔ digits ≠ [] ∧ digits.length ≤ 8 ∧ scalar? digits = some c := by
  unfold braced?
  by_cases hnil : digits = []
  · simp [hnil]
  · by_cases hlong : 8 < digits.length
    · simp [hlong]
    · simp [hnil, hlong, Nat.le_of_not_lt hlong]

theorem exists_braced?_append {digits : List Char} (h : bracedOpen digits = true) :
    ∃ more c, '\x7d' ∉ more ∧ braced? (digits ++ more) = some c := by
  unfold bracedOpen at h
  cases hn : hexNumber? digits with
  | none => simp [hn] at h
  | some n =>
    simp only [hn] at h
    by_cases hdone : digits ≠ [] ∧ n.isValidChar
    · -- the digits name a character as they are
      refine ⟨[], Char.ofNat n, by simp, ?_⟩
      rw [List.append_nil, braced?_eq_some_iff]
      refine ⟨hdone.1, ?_, scalar?_eq_some hn hdone.2⟩
      split_ifs at h with hlt
      · omega
      · simp only [Bool.and_eq_true, beq_iff_eq] at h
        omega
    · -- there are none, or their number lies in the gap; one more digit leads out of it
      have hlt : digits.length < 8 := by
        by_contra hge
        rw [if_neg hge] at h
        simp only [Bool.and_eq_true, beq_iff_eq, decide_eq_true_eq] at h
        apply hdone
        refine ⟨?_, h.2⟩
        rintro rfl
        cases h.1
      rw [if_pos hlt, decide_eq_true_eq] at h
      have hmore : hexNumber? (digits ++ ['0']) = some (16 * n) := by
        rw [hexNumber?_snoc, hn]
        rfl
      have hvalid : (16 * n).isValidChar := by
        by_cases hnil : digits = []
        · subst hnil
          cases hn
          exact .inl (by decide)
        · have hgap : ¬n.isValidChar := fun hvalid => hdone ⟨hnil, hvalid⟩
          unfold Nat.isValidChar at hgap ⊢
          omega
      refine ⟨['0'], Char.ofNat (16 * n), by decide, ?_⟩
      rw [braced?_eq_some_iff]
      refine ⟨by simp, ?_, scalar?_eq_some hmore hvalid⟩
      rw [List.length_append, List.length_singleton]
      omega

theorem bracedOpen_of_braced?_append {digits more : List Char} {c : Char}
    (h : braced? (digits ++ more) = some c) : bracedOpen digits = true := by
  obtain ⟨-, hlength, hscalar⟩ := braced?_eq_some_iff.mp h
  rw [List.length_append] at hlength
  obtain ⟨m, hm, hvalid⟩ := exists_of_scalar? hscalar
  obtain ⟨n, hn, hle⟩ := exists_hexNumber?_of_append hm
  unfold bracedOpen
  simp only [hn]
  split_ifs with hlt
  · unfold Nat.isValidChar at hvalid
    rw [decide_eq_true_eq]
    omega
  · -- there is no room for another digit
    obtain rfl : more = [] := List.eq_nil_of_length_eq_zero (by omega)
    rw [List.append_nil, hn] at hm
    cases hm
    simp only [Bool.and_eq_true, beq_iff_eq, decide_eq_true_eq]
    exact ⟨by omega, hvalid⟩

theorem ofChar?_eq_char_iff {c? : Option Char} {escape : List Char} {c : Char} :
    Element.ofChar? c? escape = .char c ↔ c? = some c := by
  cases c? <;> simp [Element.ofChar?]

theorem element?_hex (a b : Char) (rest : List Char) :
    element? ('\\' :: 'x' :: a :: b :: rest) =
      some (.ofChar? (scalar? [a, b]) ['\\', 'x', a, b], ['\\', 'x', a, b], rest) := rfl

/-- A braced escape goes on to the first brace that closes. -/
theorem element?_braced {digits : List Char} (h : '\x7d' ∉ digits) (more : List Char) :
    element? ('\\' :: '\x7b' :: (digits ++ more)) =
      match more.dropWhile (· != '\x7d') with
      | [] => none
      | close :: rest =>
        let written := '\\' :: '\x7b' :: (digits ++ more.takeWhile (· != '\x7d') ++ [close])
        some (.ofChar? (braced? (digits ++ more.takeWhile (· != '\x7d'))) written, written, rest) := by
  have hall : ∀ d ∈ digits, (d != '\x7d') = true := by
    intro d hd
    rw [bne_iff_ne]
    rintro rfl
    exact h hd
  rw [element?, escaped?]
  dsimp only
  rw [List.takeWhile_append_of_pos hall, List.dropWhile_append_of_pos hall]
  cases more.dropWhile (· != '\x7d') <;> rfl

/-- Where the text ends inside an escape, or behind the last element. -/
theorem element?_none_cases {cs : List Char} (h : element? cs = none) :
    cs = [] ∨ cs = ['\\'] ∨ cs = ['\\', 'x'] ∨ (∃ a, cs = ['\\', 'x', a]) ∨
      ∃ digits, '\x7d' ∉ digits ∧ cs = '\\' :: '\x7b' :: digits := by
  unfold element? at h
  split at h
  · exact .inl rfl
  · next cs =>
    rw [Option.map_eq_none_iff] at h
    unfold escaped? at h
    split at h
    · exact .inr (.inl rfl)
    · cases h
    · next digits hdigits =>
      match digits, hdigits with
      | [], _ => exact .inr (.inr (.inl rfl))
      | [a], _ => exact .inr (.inr (.inr (.inl ⟨a, rfl⟩)))
      | a :: b :: rest, hdigits => exact absurd rfl (hdigits a b rest)
    · next digits =>
      dsimp only at h
      split at h
      · next hdrop =>
        refine .inr (.inr (.inr (.inr ⟨digits, ?_, rfl⟩)))
        intro hmem
        simpa using List.dropWhile_eq_nil_iff.mp hdrop _ hmem
      · cases h
    · cases h
  · cases h

theorem hexNumber?_singleton (a : Char) : hexNumber? [a] = hexDigit? a := by
  have h := hexNumber?_snoc [] a
  rw [List.nil_append, hexNumber?_nil] at h
  simpa using h

/-- An escape that has begun can be finished. -/
theorem exists_element_append {cs : List Char} (hne : cs ≠ []) (h : element? cs = none)
    (hopen : escapeOpen cs = true) : ∃ more c, element? (cs ++ more) = some (.char c, cs ++ more, []) := by
  rcases element?_none_cases h with rfl | rfl | rfl | ⟨a, rfl⟩ | ⟨digits, hdigits, rfl⟩
  · exact absurd rfl hne
  · exact ⟨['\\'], '\\', rfl⟩
  · exact ⟨['0', '0'], '\x00', rfl⟩
  · obtain ⟨n, hn⟩ := Option.isSome_iff_exists.mp hopen
    have hmore : hexNumber? [a, '0'] = some (16 * n) := by
      have h := hexNumber?_snoc [a] '0'
      rw [hn] at h
      exact h
    have hlt : n < 16 := by
      rw [hexNumber?_singleton] at hn
      exact hexDigit?_lt hn
    have hscalar := scalar?_eq_some hmore (.inl (by omega))
    refine ⟨['0'], Char.ofNat (16 * n), ?_⟩
    show element? ['\\', 'x', a, '0'] = _
    rw [element?_hex, hscalar]
    rfl
  · obtain ⟨more, c, hmore, hbraced⟩ := exists_braced?_append hopen
    refine ⟨more ++ ['\x7d'], c, ?_⟩
    have hescaped := element?_braced (List.not_mem_append hdigits hmore) ['\x7d']
    simp only [List.takeWhile, List.dropWhile, bne_self_eq_false, List.append_nil, hbraced] at hescaped
    rw [List.cons_append, List.cons_append, ← List.append_assoc]
    exact hescaped

/-- An escape that cannot be finished is malformed whatever follows, or not finished. -/
theorem element?_append_ne_char {cs : List Char} (h : element? cs = none) (hopen : escapeOpen cs = false)
    (more : List Char) {c : Char} {written rest : List Char} :
    element? (cs ++ more) ≠ some (.char c, written, rest) := by
  intro hchar
  rcases element?_none_cases h with rfl | rfl | rfl | ⟨a, rfl⟩ | ⟨digits, hdigits, rfl⟩
  · cases hopen
  · cases hopen
  · cases hopen
  · cases more with
    | nil => cases hchar
    | cons b more =>
      have hhex := (element?_hex a b more).symm.trans hchar
      obtain ⟨helement, -⟩ := Prod.mk.inj (Option.some.inj hhex)
      obtain ⟨m, hm, -⟩ := exists_of_scalar? (ofChar?_eq_char_iff.mp helement)
      rw [← List.singleton_append] at hm
      obtain ⟨n, hn, -⟩ := exists_hexNumber?_of_append hm
      rw [escapeOpen, hn] at hopen
      cases hopen
  · rw [List.cons_append, List.cons_append, element?_braced hdigits] at hchar
    split at hchar
    · cases hchar
    · obtain ⟨helement, -⟩ := Prod.mk.inj (Option.some.inj hchar)
      have hbraced := bracedOpen_of_braced?_append (ofChar?_eq_char_iff.mp helement)
      rw [escapeOpen, hbraced] at hopen
      cases hopen

/-! ## Literals -/

/-- A literal in which the text ends can still be closed: there is no malformed escape in it, and one that has
begun can be finished. -/
def canClose (cs : List Char) : Bool :=
  match h : element? cs with
  | some (.char _, _, rest) =>
    have := element?_length h
    canClose rest
  | some (.malformed _, _, _) => false
  | none => escapeOpen cs
termination_by cs.length

theorem canClose_char {cs written rest : List Char} {c : Char}
    (h : element? cs = some (.char c, written, rest)) : canClose cs = canClose rest := by
  rw [canClose]
  split
  · next h' =>
    rw [h] at h'
    cases h'
    rfl
  · next h' =>
    rw [h] at h'
    cases h'
  · next h' =>
    rw [h] at h'
    cases h'

theorem canClose_malformed {cs written rest : List Char} {escape : String}
    (h : element? cs = some (.malformed escape, written, rest)) : canClose cs = false := by
  rw [canClose]
  split
  · next h' =>
    rw [h] at h'
    cases h'
  · rfl
  · next h' =>
    rw [h] at h'
    cases h'

theorem canClose_none {cs : List Char} (h : element? cs = none) : canClose cs = escapeOpen cs := by
  rw [canClose]
  split
  · next h' =>
    rw [h] at h'
    cases h'
  · next h' =>
    rw [h] at h'
    cases h'
  · rfl

end StringLiteral

/-- The lexeme is a literal that was cut off. -/
def Lexeme.isCut : Lexeme → Bool
  | illegal detail => (⟨.lexical detail, none⟩ : Error).isIncomplete
  | _ => false

namespace StringLiteral

/-- A literal that is closed is not cut off. -/
theorem Progress.isCut_closed (p : Progress) : p.closed.isCut = false := by
  unfold closed
  split
  · next escape _ =>
    show unterminatedString.toList.isPrefixOf ("invalid escape sequence " ++ escape).toList = false
    rw [String.toList_append]
    rfl
  · rfl

/-- A literal that is cut off extends to the end of the text. -/
theorem rest_of_isCut {p : Progress} {cs : List Char} (h : (scanFrom p cs).1.isCut = true) :
    (scanFrom p cs).2.2 = [] := by
  fun_induction scanFrom p cs with
  | case1 p rest =>
    rw [p.isCut_closed] at h
    cases h
  | case2 p cs _ e written rest _ _ ih => exact ih h
  | case3 p cs => rfl

theorem Progress.malformed_add (p : Progress) (escape : String) (written : List Char) :
    (p.add (.malformed escape) written).malformed ≠ none := by
  show (p.malformed <|> some escape) ≠ none
  cases p.malformed <;> simp

/-- A malformed escape spoils the literal, closed or not. -/
theorem scanFrom_illegal {p : Progress} (hp : p.malformed ≠ none) (cs : List Char) :
    ∃ detail, (scanFrom p cs).1 = .illegal detail := by
  fun_induction scanFrom p cs with
  | case1 p rest =>
    unfold Progress.closed
    split
    · exact ⟨_, rfl⟩
    · next hnone => exact absurd hnone hp
  | case2 p cs _ e written rest _ _ ih =>
    apply ih
    cases e with
    | char c => exact hp
    | malformed escape => exact p.malformed_add escape written
  | case3 p cs => exact ⟨_, rfl⟩

theorem scanFrom_closed {p : Progress} (hp : p.malformed = none) (rest : List Char) :
    ∃ text, (scanFrom p ('"' :: rest)).1 = .string text ∧ (scanFrom p ('"' :: rest)).2.2 = rest := by
  rw [scanFrom_quote]
  refine ⟨String.ofList p.decoded.reverse, ?_, rfl⟩
  show p.closed = _
  rw [Progress.closed, hp]

/-- **A literal that can be closed** becomes a string when its last escape is finished and it is closed. -/
theorem exists_scanFrom_string {p : Progress} {cs : List Char} (hp : p.malformed = none)
    (hcut : (scanFrom p cs).1.isCut = true) (hclose : canClose cs = true) :
    ∃ more, ∀ rest, ∃ text, (scanFrom p (cs ++ more ++ rest)).1 = .string text ∧
      (scanFrom p (cs ++ more ++ rest)).2.2 = rest := by
  fun_induction scanFrom p cs with
  | case1 p rest =>
    rw [p.isCut_closed] at hcut
    cases hcut
  | case2 p cs hquote e written rest helement _ ih =>
    cases cs with
    | nil => cases helement
    | cons c cs =>
      have hc : c ≠ '"' := fun hc => hquote cs (by rw [hc])
      cases e with
      | malformed escape =>
        rw [canClose_malformed helement] at hclose
        cases hclose
      | char d =>
        rw [canClose_char helement] at hclose
        obtain ⟨more, hmore⟩ := ih hp hcut hclose
        refine ⟨more, ?_⟩
        intro rest'
        have hlonger := element?_append helement (more ++ rest')
        rw [List.cons_append] at hlonger
        rw [List.append_assoc, List.cons_append, scanFrom_element hc hlonger, ← List.append_assoc]
        exact hmore rest'
  | case3 p cs hquote helement =>
    rw [canClose_none helement] at hclose
    cases cs with
    | nil => exact ⟨['"'], fun rest => scanFrom_closed hp rest⟩
    | cons c cs =>
      have hc : c ≠ '"' := fun hc => hquote cs (by rw [hc])
      obtain ⟨more, d, hmore⟩ := exists_element_append (List.cons_ne_nil c cs) helement hclose
      refine ⟨more ++ ['"'], ?_⟩
      intro rest
      have hlonger := element?_append hmore ('"' :: rest)
      rw [List.cons_append, List.cons_append] at hlonger
      have hshape : c :: cs ++ (more ++ ['"']) ++ rest = c :: (cs ++ more ++ '"' :: rest) := by simp
      rw [hshape, scanFrom_element hc hlonger]
      exact scanFrom_closed (p := p.add (.char d) _) hp rest

/-- **A literal that cannot be closed** is illegal whatever follows. -/
theorem scanFrom_append_illegal {p : Progress} {cs : List Char} (hcut : (scanFrom p cs).1.isCut = true)
    (hclose : canClose cs = false) (more : List Char) :
    ∃ detail, (scanFrom p (cs ++ more)).1 = .illegal detail := by
  fun_induction scanFrom p cs with
  | case1 p rest =>
    rw [p.isCut_closed] at hcut
    cases hcut
  | case2 p cs hquote e written rest helement _ ih =>
    cases cs with
    | nil => cases helement
    | cons c cs =>
      have hc : c ≠ '"' := fun hc => hquote cs (by rw [hc])
      have hlonger := element?_append helement more
      rw [List.cons_append] at hlonger ⊢
      rw [scanFrom_element hc hlonger]
      cases e with
      | malformed escape => exact scanFrom_illegal (p.malformed_add escape written) _
      | char d =>
        rw [canClose_char helement] at hclose
        exact ih hcut hclose
  | case3 p cs hquote helement =>
    rw [canClose_none helement] at hclose
    have hchar := fun c written rest => @element?_append_ne_char cs helement hclose more c written rest
    cases cs with
    | nil => cases hclose
    | cons c cs =>
      have hc : c ≠ '"' := fun hc => hquote cs (by rw [hc])
      rw [List.cons_append] at hchar ⊢
      cases hlonger : element? (c :: (cs ++ more)) with
      | none =>
        rw [scanFrom_cut (fun rest h => hc (List.cons.inj h).1) hlonger]
        exact ⟨_, rfl⟩
      | some found =>
        obtain ⟨e, written, rest⟩ := found
        rw [scanFrom_element hc hlonger]
        cases e with
        | char d => exact absurd hlonger (hchar d written rest)
        | malformed escape => exact scanFrom_illegal (p.malformed_add escape written) _

end StringLiteral

end SmallScheme
