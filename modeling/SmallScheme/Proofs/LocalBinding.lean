import SmallScheme.Proofs.FormChecks

/-!
# Local bindings mean what they say

`local_binding_direct`: local bindings are evaluated as the values of their names one after the other, and
then the body in a new frame with these names.

1. The expression that stands for local bindings is the application of a procedure, built from new pairs
   (`applied_eq`).
2. The procedure is a special form, so that evaluating it makes a closure whatever its symbol is bound to
   (`lambda_endsAt_iff`).
3. The operands are evaluated in order (`operands_leads_iff`), and the call makes the frame
   (`call_closure`).
-/

namespace SmallScheme

/-! ## Frames of local names -/

/-- The last binding of a symbol counts. -/
theorem Bindings.get?_insertAll (b : Bindings) (pairs : List (Symbol × Value)) (s : Symbol) :
    (b.insertAll pairs).get? s = (pairs.reverse.lookup s).or (b.get? s) := by
  induction pairs generalizing b with
  | nil => rfl
  | cons pair pairs ih =>
    obtain ⟨t, v⟩ := pair
    show ((b.insert t v).insertAll pairs).get? s = _
    rw [ih, get?_insert, List.reverse_cons, List.lookup_append, Option.or_assoc, List.lookup_cons]
    by_cases hst : s = t
    · simp [hst]
    · rw [if_neg hst, beq_eq_false_iff_ne.mpr hst]
      rfl

/-- The frame inside `parent` that binds local names to their values. -/
def Frame.locals (parent : FrameId) (names : List Symbol) (vs : List Value) : Frame :=
  ⟨some parent, Bindings.insertAll [] (names.zip vs)⟩

theorem Frame.get?_locals (parent : FrameId) (names : List Symbol) (vs : List Value) (s : Symbol) :
    (Frame.locals parent names vs).get? s = (names.zip vs).reverse.lookup s := by
  show (Bindings.insertAll [] (names.zip vs)).get? s = _
  rw [Bindings.get?_insertAll]
  exact Option.or_none

/-- A frame just added is the first one in which its own symbols are looked up. -/
theorem Store.lookup_addFrame_self {st : Store} {frame : Frame} {s : Symbol} {v : Value}
    (h : frame.get? s = some v) : (st.addFrame frame).2.lookup (st.addFrame frame).1 s = .ok v := by
  have hframe : (st.addFrame frame).2.frames[(st.addFrame frame).1]? = some frame :=
    Array.getElem?_push_size
  have hget : (st.addFrame frame).2.get? (st.addFrame frame).1 s = some v := by
    rw [get?, hframe]
    simp only [h]
  rw [lookup, hget]

/-- Local bindings, evaluated inside `d` waiting evaluations: the values from left to right, up to the first
one that has none; then the body in a new frame. -/
inductive LocalEnds (d : Nat) (frame : FrameId) (names : List Symbol) (values body : List Value)
    (st : Store) : Outcome → Store → Prop where
  | stops {out st'} (hvalues : ValuesStop (d + 1) frame values st out st') :
      LocalEnds d frame names values body st out st'
  | body {vs st₁ out st'} (hvalues : ValuesEnd (d + 1) frame values st vs st₁)
      (hbody : BodyEnds d (st₁.addFrame (.locals frame names vs)).1 body
        (st₁.addFrame (.locals frame names vs)).2 out st') :
      LocalEnds d frame names values body st out st'

/-! ## The application that stands for local bindings -/

/-- The store after the next `n` labels have been handed out. -/
def Store.skip (st : Store) (n : Nat) : Store := { st with nextLabel := st.nextLabel + n }

theorem Store.skip_skip (st : Store) (m n : Nat) : (st.skip m).skip n = st.skip (m + n) := by
  unfold skip
  rw [Nat.add_assoc]

theorem Store.cons_eq (st : Store) (head tail : Value) :
    st.cons head tail = (.pair st.nextLabel head tail, st.skip 1) := rfl

theorem Store.consReversed_eq (st : Store) (items : List Value) {ts : List Value} {tail : Value}
    (h : tail.Listed ts) :
    ∃ v, Value.Listed v (items.reverse ++ ts) ∧ st.consReversed items tail = (v, st.skip items.length) := by
  induction items generalizing st ts tail with
  | nil => exact ⟨tail, h, rfl⟩
  | cons item items ih =>
    obtain ⟨v, hv, heq⟩ := ih (st.skip 1) (.pair h)
    refine ⟨v, ?_, ?_⟩
    · rwa [List.reverse_cons, List.append_assoc]
    · rw [List.length_cons, Nat.add_comm, ← skip_skip]
      exact heq

theorem Store.list_eq (st : Store) (items : List Value) :
    ∃ v, Value.Listed v items ∧ st.list items = (v, st.skip items.length) := by
  obtain ⟨v, hv, heq⟩ := st.consReversed_eq items.reverse .nil
  rw [List.reverse_reverse, List.append_nil] at hv
  rw [List.length_reverse] at heq
  exact ⟨v, hv, heq⟩

theorem lambdaSymbol_eq : Keyword.lambdaSymbol = Keyword.lambda.symbol := rfl

/-- The application is built from pairs of its own. -/
theorem Form.applied_eq (st : Store) (names : List Symbol) (values body : List Value) :
    ∃ label label' label'' params exps operands, Value.Listed params (names.map Value.symbol) ∧
      Value.Listed exps body ∧ Value.Listed operands values ∧
      Form.applied st names values body =
        (.pair label (.pair label' (Value.symbol Keyword.lambda.symbol) (.pair label'' params exps))
            operands,
          st.skip (names.length + body.length + values.length + 3)) := by
  obtain ⟨params, hparams, hp⟩ := st.list_eq (names.map Value.symbol)
  rw [List.length_map] at hp
  obtain ⟨exps, hexps, he⟩ := (st.skip names.length).list_eq body
  obtain ⟨operands, hoperands, ho⟩ := (st.skip (names.length + body.length + 1 + 1)).list_eq values
  have hlabels : names.length + body.length + 1 + 1 + values.length + 1 =
      names.length + body.length + values.length + 3 := by omega
  rw [← hlabels]
  simp only [Form.applied, hp, he, Store.cons_eq, Store.skip_skip, ho, lambdaSymbol_eq]
  exact ⟨_, _, _, params, exps, operands, hparams, hexps, hoperands, rfl⟩

/-! ## Calling it -/

section Calling

variable {d : Nat} {frame : FrameId} {st st' : Store} {out : Outcome}

/-- A procedure is made at once, whatever the symbol that makes it is bound to. -/
theorem lambda_endsAt_iff (hd : d < maxDepth) {label label' : Label} {params exps : Value}
    {names : List Symbol} {body : List Value} (hparams : params.Listed (names.map Value.symbol))
    (hbody : exps.Listed body) :
    EndsAt d (.pair label (Value.symbol Keyword.lambda.symbol) (.pair label' params exps)) frame st out st' ↔
      out = .value (.atom (.closure st.nextLabel names body frame)) ∧ st' = st.skip 1 := by
  rw [Form.special_endsAt_iff hd .lambda, Form.parse_eq_of_shaped (.lambda hparams hbody)]
  exact give_leads_iff

/-- The operands of a call are evaluated from left to right, and then the procedure is called. -/
theorem operands_leads_iff {procedure rest : Value} {done values : List Value}
    (hrest : rest.Listed values) :
    (Stack.operands ⟨[], d⟩ st procedure done rest frame).Leads (.done out st') ↔
      ValuesStop (d + 1) frame values st out st' ∨
      ∃ vs st₁, ValuesEnd (d + 1) frame values st vs st₁ ∧
        (Stack.call ⟨[], d⟩ st₁ procedure (done.reverse ++ vs)).Leads (.done out st') := by
  induction hrest generalizing st done with
  | nil =>
    constructor
    · intro h
      refine .inr ⟨[], st, .nil, ?_⟩
      rwa [List.append_nil]
    · rintro (h | ⟨vs, st₁, h, hcall⟩)
      · cases h
      · cases h
        rwa [List.append_nil] at hcall
  | @pair label head tail values _ ih =>
    have hreverse (v : Value) (vs : List Value) :
        (v :: done).reverse ++ vs = done.reverse ++ v :: vs := by
      rw [List.reverse_cons, List.append_assoc, List.singleton_append]
    refine enter_leads_iff.trans ⟨?_, ?_⟩
    · rintro (⟨ha, hhead⟩ | ⟨v, st₁, hhead, h⟩)
      · exact .inl (.here hhead ha)
      · rcases ih.mp h with htail | ⟨vs, st₂, htail, hcall⟩
        · exact .inl (.later hhead htail)
        · rw [hreverse] at hcall
          exact .inr ⟨v :: vs, st₂, .cons hhead htail, hcall⟩
    · rintro (h | ⟨vs, st₂, h, hcall⟩)
      · cases h with
        | here hhead ha => exact .inl ⟨ha, hhead⟩
        | later hhead htail => exact .inr ⟨_, _, hhead, ih.mpr (.inl htail)⟩
      · cases h with
        | @cons _ _ _ v st₁ vs _ hhead htail =>
          rw [← hreverse] at hcall
          exact .inr ⟨v, st₁, hhead, ih.mpr (.inr ⟨vs, st₂, htail, hcall⟩)⟩

/-- Calling a closure with as many arguments as it has parameters evaluates its body in a new frame. -/
theorem call_closure (k : Stack) {label : Label} {names : List Symbol} {vs body : List Value}
    (h : names.length = vs.length) :
    k.call st (.atom (.closure label names body frame)) vs =
      k.body (st.addFrame (.locals frame names vs)).2 (st.addFrame (.locals frame names vs)).1 body := by
  have hframe : Frame.ofArguments frame names vs = .ok (.locals frame names vs) := if_pos h
  simp only [Stack.call, hframe]

/-- The application of a procedure of as many parameters as there are operands. -/
theorem applied_endsAt_iff (hd : d + 1 < maxDepth) (label label' label'' : Label)
    {params exps operands : Value} {names : List Symbol} {values body : List Value}
    (hparams : params.Listed (names.map Value.symbol)) (hbody : exps.Listed body)
    (hoperands : operands.Listed values) (hlength : names.length = values.length) :
    EndsAt d (.pair label (.pair label' (Value.symbol Keyword.lambda.symbol) (.pair label'' params exps))
      operands) frame st out st' ↔ LocalEnds d frame names values body (st.skip 1) out st' := by
  have hd' : d < maxDepth := by omega
  have hcall {vs : List Value} {st₁ : Store} (hvs : ValuesEnd (d + 1) frame values (st.skip 1) vs st₁) :
      (Stack.call ⟨[], d⟩ st₁ (.atom (.closure st.nextLabel names body frame)) vs).Leads (.done out st') ↔
        BodyEnds d (st₁.addFrame (.locals frame names vs)).1 body
          (st₁.addFrame (.locals frame names vs)).2 out st' := by
    rw [call_closure _ (hlength.trans hvs.length_eq.symm)]
    exact body_leads_iff hd'
  refine (endsAt_iff_leads hd').trans ((leads_iff_of_leads (.of_step (step_application rfl))).trans ?_)
  rw [enter_leads_iff]
  simp only [lambda_endsAt_iff hd hparams hbody]
  constructor
  · rintro (⟨ha, rfl, -⟩ | ⟨v, st₁, ⟨⟨⟩, rfl⟩, h⟩)
    · exact absurd rfl (ha _)
    · rcases (operands_leads_iff hoperands).mp h with h | ⟨vs, st₁, hvs, h⟩
      · exact .stops h
      · exact .body hvs ((hcall hvs).mp h)
  · intro h
    refine .inr ⟨_, _, ⟨rfl, rfl⟩, (operands_leads_iff hoperands).mpr ?_⟩
    cases h with
    | stops h => exact .inl h
    | body hvs h => exact .inr ⟨_, _, hvs, (hcall hvs).mpr h⟩

end Calling

/-- **Local bindings.** Let `(let ((name value) …) body …)` be evaluated inside `d` waiting evaluations, in any
frame of any store. The values are evaluated from left to right in this frame, inside `d + 1` waiting
evaluations; the first one that ends without a value ends the whole. Then a frame is added inside this one,
in which each name has the value given for it last, and the body is evaluated there inside `d` waiting
evaluations. The labels of the pairs and the closure that are made on the way are no longer free. -/
theorem local_binding_direct {args : Value} {names : List Symbol} {values body : List Value}
    (hargs : Form.Shaped .bind args (.bind names values body)) (label : Label) (frame : FrameId)
    (st : Store) {d : Nat} (hd : d + 1 < maxDepth) :
    (∀ out st', EndsAt d (.pair label (Value.symbol ⟨"LET"⟩) args) frame st out st' ↔
      LocalEnds d frame names values body (st.skip (2 * names.length + body.length + 4)) out st') ∧
    ∀ vs s, (Frame.locals frame names vs).get? s = (names.zip vs).reverse.lookup s := by
  refine ⟨fun out st' => ?_, Frame.get?_locals frame names⟩
  have hlength : names.length = values.length := by
    cases hargs with
    | bind _ _ _ => rw [List.length_map, List.length_map]
  have hd' : d < maxDepth := by omega
  obtain ⟨label₀, label₁, label₂, params, exps, operands, hparams, hexps, hoperands, happlied⟩ :=
    Form.applied_eq st names values body
  have hlabels : names.length + body.length + values.length + 3 + 1 =
      2 * names.length + body.length + 4 := by omega
  rw [← hlabels, ← Store.skip_skip,
    ← applied_endsAt_iff hd label₀ label₁ label₂ hparams hexps hoperands hlength]
  refine (Form.special_endsAt_iff hd' .bind).trans ?_
  simp only [Form.parse_eq_of_shaped hargs, Stack.form, happlied]
  exact (endsAt_iff_leads hd').symm

/-- `((lambda #t) (lambda #f)) lambda` -/
def rebinding : Value :=
  .pair 0 (.pair 1 (.pair 2 (Value.symbol ⟨"LAMBDA"⟩) (.pair 3 (Value.boolean true) .nil))
    (.pair 4 (.pair 5 (Value.symbol ⟨"LAMBDA"⟩) (.pair 6 (Value.boolean false) .nil)) .nil))
    (.pair 7 (Value.symbol ⟨"LAMBDA"⟩) .nil)

theorem rebinding_shaped : Form.Shaped .bind rebinding (.bind [⟨"LAMBDA"⟩, ⟨"LAMBDA"⟩]
    [Value.boolean true, Value.boolean false] [Value.symbol ⟨"LAMBDA"⟩]) := by
  have hfirst : Value.Listed (.pair 2 (Value.symbol ⟨"LAMBDA"⟩) (.pair 3 (Value.boolean true) .nil))
      [Value.symbol ⟨"LAMBDA"⟩, Value.boolean true] := .pair (.pair .nil)
  have hsecond : Value.Listed (.pair 5 (Value.symbol ⟨"LAMBDA"⟩) (.pair 6 (Value.boolean false) .nil))
      [Value.symbol ⟨"LAMBDA"⟩, Value.boolean false] := .pair (.pair .nil)
  have hpairs : List.Forall₂ (fun item pair => Value.Listed item [Value.symbol pair.1, pair.2]) _
      [((⟨"LAMBDA"⟩ : Symbol), Value.boolean true), (⟨"LAMBDA"⟩, Value.boolean false)] :=
    .cons hfirst (.cons hsecond .nil)
  exact .bind (.pair (.pair .nil)) (.pair (.pair .nil)) hpairs

/-- The last of two bindings of the symbol that makes procedures counts. -/
theorem rebinding_last_wins : ∃ st', EndsAt 0 (.pair 8 (Value.symbol ⟨"LET"⟩) rebinding)
    Store.globalFrame .initial (.value (Value.boolean false)) st' := by
  have hd : 0 + 1 < maxDepth := by decide
  have hdirect := local_binding_direct rebinding_shaped 8 Store.globalFrame .initial hd
  have hconstant (b : Bool) := constant_endsAt hd (Value.boolean b) rfl Store.globalFrame
    (Store.initial.skip 9)
  refine ⟨_, (hdirect.1 _ _).mpr (.body (.cons (hconstant true) (.cons (hconstant false) .nil))
    (.last (symbol_endsAt (by decide) (Store.lookup_addFrame_self ?_))))⟩
  exact (hdirect.2 _ _).trans rfl

end SmallScheme
