import SmallScheme.Proofs.Readable
import SmallScheme.Value.Embed

/-!
# Printing and reading back

Whether the text of a value that was read gives that value again.

1. `Datum.labelled`: the value of a datum by recursion on the datum. It has the same text
   (`Datum.text_embed`), and data without a common pair are equal as values exactly if they are equal part
   by part (`Datum.equal_embed`).
2. `Literal.same_reread_iff`: an atom survives unless it is an infinite number, whose text is that of a
   symbol, or a string with a character that is written by its code, which the reader does not decode.
3. `reread_equal_iff_plain`: the value survives exactly if all its atoms do.
-/

namespace SmallScheme

namespace Datum

theorem le_labelled (next : Label) (d : Datum) : next ≤ (labelled next d).2 := by
  induction d generalizing next with
  | atom a => exact Nat.le_refl _
  | nil => exact Nat.le_refl _
  | pair label head tail ihHead ihTail =>
    exact (Nat.le_succ next).trans ((ihHead _).trans (ihTail _))

/-! ## Text -/

theorem written_labelled (next : Label) (d : Datum) :
    (labelled next d).1.written (fun a => a.text.toList) = d.written ∧
      (labelled next d).1.writtenRest (fun a => a.text.toList) = d.writtenRest := by
  induction d generalizing next with
  | atom a => exact ⟨rfl, rfl⟩
  | nil => exact ⟨rfl, rfl⟩
  | pair label head tail ihHead ihTail =>
    simp only [labelled, Sexp.written, Sexp.writtenRest, ihHead, ihTail, written, writtenRest]
    exact ⟨trivial, trivial⟩

/-- A value has the text of the datum that it comes from. -/
theorem text_embed (next : Label) (d : Datum) : (d.embed next).1.text = d.text := by
  apply String.toList_inj.mp
  rw [embed_eq, toList_text, Value.text, Sexp.toList_text]
  exact (written_labelled next d).1

/-! ## Equality -/

/-- Equality of data part by part. -/
def same : Datum → Datum → Bool
  | .atom a, .atom b => a.same b
  | .nil, .nil => true
  | .pair _ head tail, .pair _ head' tail' => same head head' && same tail tail'
  | _, _ => false

theorem equal_labelled {m n : Label} {d e : Datum} (hm : (labelled n d).2 ≤ m) :
    (labelled m e).1.equal (labelled n d).1 = same e d := by
  induction d generalizing m n e with
  | atom a => cases e <;> simp [labelled, Value.equal, Value.equalAll, Object.same, same]
  | nil => cases e <;> simp [labelled, Value.equal, Value.equalAll, same]
  | pair label head tail ihHead ihTail =>
    cases e with
    | atom b => simp [labelled, Value.equal, Value.equalAll, same]
    | nil => simp [labelled, Value.equal, Value.equalAll, same]
    | pair label' head' tail' =>
      have hback : (labelled (labelled (n + 1) head).2 tail).2 ≤ m := hm
      have hfront := (le_labelled (labelled (n + 1) head).2 tail).trans hback
      have hlabel : m ≠ n := Nat.ne_of_gt ((le_labelled (n + 1) head).trans hfront)
      have hm' := le_labelled (m + 1) head'
      simp only [labelled]
      rw [Value.equal, Value.equalAll, if_neg hlabel, Value.equalAll_cons, Value.equalAll_cons,
        Value.equalAll, Bool.and_true, ihHead (hfront.trans (Nat.le_succ m)),
        ihTail (hback.trans ((Nat.le_succ m).trans hm')), same]

/-- Two data without a common pair are equal as values if they are equal part by part. -/
theorem equal_embed (next : Label) (d e : Datum) :
    (e.embed (d.embed next).2).1.equal (d.embed next).1 = same e d := by
  rw [embed_eq, embed_eq, equal_labelled (Nat.le_refl _)]

end Datum

/-! ## Atoms -/

namespace Literal

/-- An atom that the reader gets back from its text: a number has to be finite, and a string has to have no
character that is written by its code. -/
def Plain : Literal → Prop
  | number x => x.isInf = false
  | string s => ∀ c ∈ s.toList, Text.escapeChar '"' c ≠ Text.codeEscape c
  | symbol _ | boolean _ => True

/-- The plain atoms among those that can be read are the ones that are read back. -/
theorem same_reread_iff {a : Literal} (h : a.Readable) : a.reread.same a = true ↔ a.Plain := by
  cases a with
  | symbol s =>
    have hname : Symbol.ofName s.name = s := congrArg Symbol.mk h.2
    rw [reread, hname, same, Plain, beq_self_eq_true]
    exact iff_of_true rfl trivial
  | number x =>
    rw [reread, Plain]
    by_cases hinf : x.isInf = true
    · rw [if_pos hinf, hinf]
      exact iff_of_false Bool.false_ne_true Bool.noConfusion
    · rw [if_neg hinf, same]
      exact iff_of_true ((Decimal.beq_self_iff x).mpr h) (Bool.eq_false_iff.mpr hinf)
  | string s =>
    rw [reread, same, Plain, beq_iff_eq]
    exact reread_eq_iff s
  | boolean b =>
    rw [reread, same, beq_self_eq_true]
    exact iff_of_true rfl trivial

end Literal

theorem Datum.same_reread_iff (d : Datum) (h : ∀ a ∈ d.atoms, a.Readable) :
    Datum.same d.reread d = true ↔ ∀ a ∈ d.atoms, a.Plain := by
  induction d with
  | atom a =>
    rw [Sexp.atoms, List.forall_mem_singleton]
    exact Literal.same_reread_iff (h a (List.mem_singleton_self a))
  | nil => exact iff_of_true rfl fun a ha => absurd ha List.not_mem_nil
  | pair label head tail ihHead ihTail =>
    have hhead := ihHead fun a ha => h a (List.mem_append_left _ ha)
    have htail := ihTail fun a ha => h a (List.mem_append_right _ ha)
    rw [Sexp.atoms, List.forall_mem_append, ← hhead, ← htail, ← Bool.and_eq_true]
    rfl

theorem Datum.forall_plain_iff (d : Datum) :
    (∀ a ∈ d.atoms, a.Plain) ↔
      (∀ x, Literal.number x ∈ d.atoms → x.isInf = false) ∧
        ∀ s, Literal.string s ∈ d.atoms → ∀ c ∈ s.toList, Text.escapeChar '"' c ≠ Text.codeEscape c := by
  constructor
  · intro h
    exact ⟨fun x hx => h _ hx, fun s hs => h _ hs⟩
  · rintro ⟨hnumber, hstring⟩ a ha
    cases a with
    | number x => exact hnumber x ha
    | string s => exact hstring s ha
    | symbol s => trivial
    | boolean b => trivial

/-! ## The round trip -/

/-- The text of a value that was read is read as one datum. As a value this equals the first one exactly if
no number in it is infinite and no string in it has a character that is written by its code. -/
theorem reread_equal_iff_plain {source : String} {d : Datum} (h : (TokenStream.ofString source).Delivers d)
    (next : Label) :
    ∃ e, readAll (d.embed next).1.text = .ok [e] ∧
      ((e.embed (d.embed next).2).1.equal (d.embed next).1 = true ↔
        (∀ x, Literal.number x ∈ d.atoms → x.isInf = false) ∧
          ∀ s, Literal.string s ∈ d.atoms →
            ∀ c ∈ s.toList, Text.escapeChar '"' c ≠ Text.codeEscape c) := by
  have hd : Datum.Readable maxNesting d := h.readable
  refine ⟨d.reread, ?_, ?_⟩
  · rw [Datum.text_embed]
    exact Datum.readAll_text hd.atoms hd.nesting_le
  · rw [Datum.equal_embed, Datum.same_reread_iff d hd.atoms, Datum.forall_plain_iff]

/-- A symbol and a tabulator. -/
def tabulated : Datum := .cons (.symbol (.ofName "tab")) (.atom (.string "\t"))

theorem tabulator_plain : ∀ c ∈ "\t".toList, Text.escapeChar '"' c ≠ Text.codeEscape c := by
  intro c hc
  rw [List.mem_singleton.mp hc]
  decide

theorem delivers_tabulated : (TokenStream.ofString tabulated.text).Delivers tabulated := by
  have hname : IsName "tab".toList :=
    ⟨'t', ['a', 'b'], rfl, ⟨List.all_eq_true.mp rfl, by decide, by decide⟩, rfl⟩
  have hatoms : ∀ a ∈ tabulated.atoms, a.Readable := by
    intro a ha
    rcases List.mem_cons.mp ha with rfl | ha
    · exact readable_symbol hname
    · rw [List.mem_singleton.mp ha]
      trivial
  have hstring : Text.reread "\t" = "\t" := (reread_eq_iff _).mpr tabulator_plain
  have hreread : tabulated.reread = tabulated := by
    unfold tabulated Datum.reread Symbol.ofName
    simp only [Sexp.mapAtoms, Literal.reread, Symbol.ofName, Text.upper_upper, hstring]
  have hread := Datum.readAll_text hatoms (by decide)
  rw [hreread] at hread
  exact TokenStream.delivers_of_readData hread _ (List.mem_singleton_self _)

theorem tabulated_read_back :
    ∃ e, readAll (tabulated.embed 0).1.text = .ok [e] ∧
      (e.embed (tabulated.embed 0).2).1.equal (tabulated.embed 0).1 = true := by
  obtain ⟨e, hread, hequal⟩ := reread_equal_iff_plain delivers_tabulated 0
  refine ⟨e, hread, hequal.mpr ⟨fun x hx => ?_, fun s hs => ?_⟩⟩
  · simp [tabulated, Sexp.atoms] at hx
  · simp only [tabulated, Sexp.atoms, List.cons_append, List.nil_append, List.mem_cons,
      List.not_mem_nil, or_false, reduceCtorEq, false_or, Literal.string.injEq] at hs
    subst hs
    exact tabulator_plain

end SmallScheme
