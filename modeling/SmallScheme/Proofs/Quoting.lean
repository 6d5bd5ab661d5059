import SmallScheme.Proofs.Lexing

/-!
# Quoted text reads back

`lexemesOf_quoted`: a quoted text is read as one string literal. Its value is the text itself, except
that a character spelled by its number comes back as the characters of the spelling without the
backslash (`rereadChar`).
-/

namespace SmallScheme

open Text

namespace Text

/-- What a character of a quoted text is read back as. -/
def rereadChar (c : Char) : List Char :=
  if escapeChar '"' c = codeEscape c then (codeEscape c).tail else [c]

/-- What a quoted text is read back as. -/
def reread (s : String) : String := String.ofList (s.toList.flatMap rereadChar)

theorem mem_toDigits {b n : Nat} (hb : 1 < b) {c : Char} (h : c ∈ Nat.toDigits b n) :
    ∃ k < b, c = Nat.digitChar k := by
  induction n using Nat.strongRecOn with
  | ind n ih =>
  rw [Nat.toDigits_eq_if hb] at h
  split_ifs at h with hn
  · exact ⟨n, hn, List.mem_singleton.mp h⟩
  · rcases List.mem_append.mp h with h | h
    · exact ih (n / b) (Nat.div_lt_self (by omega) hb) h
    · exact ⟨n % b, Nat.mod_lt n (by omega), List.mem_singleton.mp h⟩

theorem digitChar_plain : ∀ k < 16, Nat.digitChar k ≠ '"' ∧ Nat.digitChar k ≠ '\\' := by
  decide

/-- The spelling of a character by its number has no quotation marks and no further backslashes. -/
theorem codeEscape_plain {c d : Char} (h : d ∈ (codeEscape c).tail.tail) : d ≠ '"' ∧ d ≠ '\\' := by
  have hmem : d ∈ '\x7b' :: (Nat.toDigits 16 c.toNat ++ ['\x7d']) := h
  rcases List.mem_cons.mp hmem with rfl | hmem
  · decide
  · rcases List.mem_append.mp hmem with hmem | hmem
    · obtain ⟨k, hk, rfl⟩ := mem_toDigits (by decide) hmem
      exact digitChar_plain k hk
    · rw [List.mem_singleton.mp hmem]
      decide

/-- A character is quoted by its number, as itself, or by a letter or mark after a backslash. -/
theorem escapeChar_cases (c : Char) :
    escapeChar '"' c = codeEscape c ∨ (escapeChar '"' c = [c] ∧ c ≠ '"' ∧ c ≠ '\\') ∨
      ∃ e, escapeChar '"' c = ['\\', e] ∧ e ≠ 'x' ∧ e ≠ '\x7b' ∧
        (StringLiteral.control? e).getD e = c := by
  unfold escapeChar
  split_ifs with h0 ht hr hn hm hh
  · exact .inr (.inr ⟨'0', rfl, by decide, by decide, (eq_of_beq h0).symm⟩)
  · exact .inr (.inr ⟨'t', rfl, by decide, by decide, (eq_of_beq ht).symm⟩)
  · exact .inr (.inr ⟨'r', rfl, by decide, by decide, (eq_of_beq hr).symm⟩)
  · exact .inr (.inr ⟨'n', rfl, by decide, by decide, (eq_of_beq hn).symm⟩)
  · rw [Bool.or_eq_true, beq_iff_eq, beq_iff_eq] at hm
    rcases hm with rfl | rfl
    · exact .inr (.inr ⟨'"', rfl, by decide, by decide, rfl⟩)
    · exact .inr (.inr ⟨'\\', rfl, by decide, by decide, rfl⟩)
  · exact .inl rfl
  · rw [Bool.or_eq_true, beq_iff_eq, beq_iff_eq, not_or] at hm
    exact .inr (.inl ⟨rfl, hm⟩)

theorem length_codeEscape (c : Char) : 4 < (codeEscape c).length := by
  have := @Nat.length_toDigits_pos 16 c.toNat
  show 4 < ("\\u\x7b".toList ++ Nat.toDigits 16 c.toNat ++ ['\x7d']).length
  rw [List.length_append, List.length_append]
  show 4 < 3 + _ + 1
  omega

theorem ne_codeEscape {c : Char} {cs : List Char} (h : cs.length ≤ 2) : cs ≠ codeEscape c := by
  rintro rfl
  have := length_codeEscape c
  omega

end Text

namespace StringLiteral

/-- One more decoded run of characters. -/
structure Progress.Adds (p : Progress) (cs : List Char) (p' : Progress) : Prop where
  decoded : p'.decoded = cs.reverse ++ p.decoded
  malformed : p'.malformed = p.malformed

theorem Progress.adds_char (p : Progress) (c : Char) (written : List Char) :
    p.Adds [c] (p.add (.char c) written) := ⟨rfl, rfl⟩

theorem Progress.Adds.trans {p p' p'' : Progress} {cs ds : List Char} (h : p.Adds cs p')
    (h' : p'.Adds ds p'') : p.Adds (cs ++ ds) p'' := by
  refine ⟨?_, h'.malformed.trans h.malformed⟩
  rw [h'.decoded, h.decoded, List.reverse_append, List.append_assoc]

/-- Characters without quotation marks and backslashes stand for themselves. -/
theorem scanFrom_plains {cs : List Char} (h : ∀ c ∈ cs, c ≠ '"' ∧ c ≠ '\\') (p : Progress) :
    ∃ p', p.Adds cs p' ∧ ∀ rest, scanFrom p (cs ++ rest) = scanFrom p' rest := by
  induction cs generalizing p with
  | nil => exact ⟨p, ⟨rfl, rfl⟩, fun _ => rfl⟩
  | cons c cs ih =>
    have hc := h c List.mem_cons_self
    obtain ⟨p', hadds, hscan⟩ :=
      ih (fun d hd => h d (List.mem_cons_of_mem c hd)) (p.add (.char c) [c])
    refine ⟨p', (p.adds_char c [c]).trans hadds, ?_⟩
    intro rest
    rw [List.cons_append, scanFrom_plain hc.1 hc.2, hscan]

theorem scanFrom_escapeChar (c : Char) (p : Progress) :
    ∃ p', p.Adds (rereadChar c) p' ∧
      ∀ rest, scanFrom p (escapeChar '"' c ++ rest) = scanFrom p' rest := by
  unfold rereadChar
  rcases escapeChar_cases c with h | ⟨h, hquote, hback⟩ | ⟨e, h, hx, hbrace, he⟩
  · rw [if_pos h, h]
    obtain ⟨p', hadds, hscan⟩ :=
      scanFrom_plains (fun d hd => codeEscape_plain hd) (p.add (.char 'u') ['\\', 'u'])
    refine ⟨p', (p.adds_char 'u' _).trans hadds, ?_⟩
    intro rest
    rw [← hscan rest]
    exact scanFrom_escape (by decide) (by decide) p _
  · rw [if_neg (ne_codeEscape (by simp [h])), h]
    exact ⟨_, p.adds_char c [c], scanFrom_plain hquote hback p⟩
  · rw [if_neg (ne_codeEscape (by simp [h])), h, ← he]
    exact ⟨_, p.adds_char _ ['\\', e], scanFrom_escape hx hbrace p⟩

theorem scanFrom_escaped (s : List Char) (p : Progress) :
    ∃ p', p.Adds (s.flatMap rereadChar) p' ∧
      ∀ rest, scanFrom p (s.flatMap (escapeChar '"') ++ rest) = scanFrom p' rest := by
  induction s generalizing p with
  | nil => exact ⟨p, ⟨rfl, rfl⟩, fun _ => rfl⟩
  | cons c s ih =>
    obtain ⟨p₁, hadds₁, hscan₁⟩ := scanFrom_escapeChar c p
    obtain ⟨p₂, hadds₂, hscan₂⟩ := ih p₁
    refine ⟨p₂, hadds₁.trans hadds₂, ?_⟩
    intro rest
    rw [List.flatMap_cons, List.append_assoc, hscan₁, hscan₂]

end StringLiteral

/-- A literal whose elements stand for the characters of a text is read as that text. -/
theorem lexemesOf_string {cs text : List Char} {p : StringLiteral.Progress}
    (hadds : StringLiteral.Progress.Adds {} text p)
    (hscan : ∀ rest, StringLiteral.scanFrom {} (cs ++ rest) = StringLiteral.scanFrom p rest)
    (rest : List Char) :
    lexemesOf ('"' :: (cs ++ '"' :: rest)) = .string (String.ofList text) :: lexemesOf rest := by
  have hclosed : p.closed = .string (String.ofList text) := by
    unfold StringLiteral.Progress.closed
    rw [hadds.malformed, hadds.decoded, List.append_nil, List.reverse_reverse]
  have hfirst : Found.first '"' (cs ++ '"' :: rest) =
      ⟨.string (String.ofList text), '"' :: ('"' :: p.written).reverse, rest⟩ := by
    show Found.stringLiteral '"' _ = _
    unfold Found.stringLiteral StringLiteral.scan
    rw [hscan, StringLiteral.scanFrom_quote, hclosed]
  exact lexemesOf_of_first hfirst rfl

/-- A quoted text is read as one string literal. -/
theorem lexemesOf_quoted (s : String) (rest : List Char) :
    lexemesOf ((quoted s).toList ++ rest) = .string (reread s) :: lexemesOf rest := by
  obtain ⟨p, hadds, hscan⟩ := StringLiteral.scanFrom_escaped s.toList {}
  rw [quoted, String.toList_ofList, List.cons_append, List.append_assoc]
  exact lexemesOf_string hadds hscan rest

theorem length_rereadChar {c : Char} (h : escapeChar '"' c = codeEscape c) :
    1 < (rereadChar c).length := by
  have := length_codeEscape c
  unfold rereadChar
  rw [if_pos h, List.length_tail]
  omega

theorem length_le_flatMap_rereadChar (cs : List Char) :
    cs.length ≤ (cs.flatMap rereadChar).length := by
  induction cs with
  | nil => exact Nat.le_refl _
  | cons c cs ih =>
    have hc : 1 ≤ (rereadChar c).length := by
      by_cases h : escapeChar '"' c = codeEscape c
      · exact (length_rereadChar h).le
      · rw [rereadChar, if_neg h]
        exact Nat.le_refl 1
    rw [List.flatMap_cons, List.length_append, List.length_cons]
    omega

theorem flatMap_rereadChar_eq_iff (cs : List Char) :
    cs.flatMap rereadChar = cs ↔ ∀ c ∈ cs, escapeChar '"' c ≠ codeEscape c := by
  induction cs with
  | nil => simp
  | cons c cs ih =>
    rw [List.flatMap_cons, List.forall_mem_cons, ← ih]
    by_cases h : escapeChar '"' c = codeEscape c
    · refine iff_of_false (fun heq => ?_) fun hne => hne.1 h
      -- the spelling is too long
      have hlength := congrArg List.length heq
      have := length_rereadChar h
      have := length_le_flatMap_rereadChar cs
      rw [List.length_append, List.length_cons] at hlength
      omega
    · rw [rereadChar, if_neg h, List.singleton_append, List.cons.injEq]
      exact ⟨fun heq => ⟨h, heq.2⟩, fun heq => ⟨rfl, heq.2⟩⟩

/-- A text is read back as it was exactly if no character is spelled by its number. -/
theorem reread_eq_iff (s : String) :
    reread s = s ↔ ∀ c ∈ s.toList, escapeChar '"' c ≠ codeEscape c := by
  rw [← flatMap_rereadChar_eq_iff, ← String.toList_inj, reread, String.toList_ofList]

end SmallScheme
