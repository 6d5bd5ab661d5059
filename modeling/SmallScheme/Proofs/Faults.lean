import SmallScheme.Machine
import SmallScheme.Proofs.Grammar

/-!
# Failures of reading and of evaluation

Reading and evaluation fail in different ways. A failure of reading has a place and one of seven causes
(`TokenStream.ofReading_of_readFrom`); a failure of evaluation has no place and one of the other seven
(`State.run_fails`).

1. The reader fails at the end of the tokens, at a token that is no lexeme, or because a token does not fit
   the lists and quotes that are open (`Reading.next_failed`).
2. Whatever evaluation computes fails by its own causes only (`FailsEvaluating`), hence every step of the
   machine does (`State.step_fails`), and every run.
-/

namespace SmallScheme

/-- The causes for which evaluation fails. -/
def Fault.isEvaluation : Fault → Bool
  | unboundSymbol _ | notAProcedure _ | notAPair _ | notANumber _ | arityMismatch .. | malformedForm ..
  | recursionTooDeep _ => true
  | _ => false

namespace Error

/-- A failure of reading: it has a place, and a cause for which evaluation does not fail. -/
def OfReading (e : Error) : Prop := e.span.isSome = true ∧ e.fault.isEvaluation = false

/-- A failure of evaluation: it has no place, and one of the causes of evaluation. -/
def OfEvaluation (e : Error) : Prop := e.span = none ∧ e.fault.isEvaluation = true

end Error

/-! ## Reading -/

/-- The causes that lie in how tokens fit together. -/
def Fault.isStructural : Fault → Bool
  | unexpectedCloseParen | unexpectedDot | malformedDot _ | invalidNumber _ | nestingTooDeep _ => true
  | _ => false

namespace Reading

/-- If this is a failure, it has a place and lies in how tokens fit together. -/
def FailsStructurally : Reading → Prop
  | failed e => e.span.isSome = true ∧ e.fault.isStructural = true
  | _ => True

theorem deliver_failsStructurally (d : Datum) (contexts : List Context) :
    (deliver [] d contexts).2.FailsStructurally := by
  induction contexts generalizing d with
  | nil => trivial
  | cons context outer ih =>
    cases context with
    | quote =>
      rw [deliver, deliver_snd]
      exact ih _
    | tailed found dot tail => exact ⟨rfl, rfl⟩
    | _ => trivial

theorem close_failsStructurally (span : Span) (contexts : List Context) :
    (close [] span contexts).2.FailsStructurally := by
  match contexts with
  | [] | .quote :: _ | .dotted .. :: _ => exact ⟨rfl, rfl⟩
  | .items start found :: outer =>
    rw [close, deliver_snd]
    exact deliver_failsStructurally _ outer
  | .tailed found dot tail :: outer =>
    rw [close, deliver_snd]
    exact deliver_failsStructurally _ outer

theorem dot_failsStructurally (span : Span) (contexts : List Context) :
    (dot span contexts).FailsStructurally := by
  match contexts with
  | [] | .quote :: _ | .dotted .. :: _ | .tailed .. :: _ => exact ⟨rfl, rfl⟩
  | .items start found :: outer => trivial

theorem enter_failsStructurally (context : Context) (span : Span) (contexts : List Context) :
    (enter context span contexts).FailsStructurally := by
  unfold enter
  split_ifs
  · exact ⟨rfl, rfl⟩
  · trivial

theorem fault_cases {lexeme : Lexeme} {fault : Fault} (h : lexeme.atom? = some (.error fault)) :
    (lexeme = .endOfText ∧ fault = .endOfInput) ∨
    (∃ detail, lexeme = .illegal detail ∧ fault = .lexical detail) ∨
    ∃ text, lexeme = .number text ∧ Decimal.number? text = none ∧ fault = .invalidNumber text := by
  cases lexeme with
  | endOfText =>
    cases h
    exact .inl ⟨rfl, rfl⟩
  | illegal detail =>
    cases h
    exact .inr (.inl ⟨detail, rfl, rfl⟩)
  | number text =>
    simp only [Lexeme.atom?, Option.some.injEq] at h
    split at h
    · cases h
    · next hnone =>
      cases h
      exact .inr (.inr ⟨text, rfl, hnone, rfl⟩)
  | _ => cases h

/-- A failure that a token can cause: it is the end, or no lexeme at all, or it does not fit what is open. -/
def CausedBy (t : Token) (e : Error) : Prop :=
  (t.lexeme = .endOfText ∧ e = ⟨.endOfInput, some t.span⟩) ∨
    (∃ detail, t.lexeme = .illegal detail ∧ e = ⟨.lexical detail, some t.span⟩) ∨
    (e.span.isSome = true ∧ e.fault.isStructural = true)

theorem FailsStructurally.causedBy {r : Reading} (hr : r.FailsStructurally) {t : Token} {e : Error}
    (h : r = .failed e) : CausedBy t e := by
  rw [h] at hr
  exact .inr (.inr hr)

/-- **How the reader fails.** -/
theorem next_failed {contexts : List Context} {t : Token} {e : Error} (h : next contexts t = .failed e) :
    CausedBy t e := by
  revert h
  apply next_cases (motive := fun t r => r = .failed e → CausedBy t e)
  case separator => exact fun t _ h => by cases h
  case atom => exact fun t d _ h => (deliver_failsStructurally d contexts).causedBy h
  case fault =>
    intro t fault ht h
    cases h
    rcases fault_cases ht with ⟨hlexeme, rfl⟩ | ⟨detail, hlexeme, rfl⟩ | ⟨text, -, -, rfl⟩
    · exact .inl ⟨hlexeme, rfl⟩
    · exact .inr (.inl ⟨detail, hlexeme, rfl⟩)
    · exact .inr (.inr ⟨rfl, rfl⟩)
  case leftParen => exact fun span h => (enter_failsStructurally _ span contexts).causedBy h
  case rightParen => exact fun span h => (close_failsStructurally span contexts).causedBy h
  case quote => exact fun span h => (enter_failsStructurally _ span contexts).causedBy h
  case dot => exact fun span h => (dot_failsStructurally span contexts).causedBy h

theorem ofReading_of_next {contexts : List Context} {t : Token} {e : Error}
    (h : next contexts t = .failed e) : e.OfReading := by
  rcases next_failed h with ⟨-, rfl⟩ | ⟨detail, -, rfl⟩ | ⟨hspan, hfault⟩
  · exact ⟨rfl, rfl⟩
  · exact ⟨rfl, rfl⟩
  · refine ⟨hspan, ?_⟩
    cases hf : e.fault <;> simp_all [Fault.isStructural, Fault.isEvaluation]

end Reading

namespace TokenStream

theorem ofReading_of_readFrom {stop : Position} {contexts : List Context} {tokens : List Token}
    {e : Error} (h : (readFrom stop contexts tokens).1 = .failed e) : e.OfReading := by
  induction tokens generalizing contexts with
  | nil =>
    rw [readFrom] at h
    split_ifs at h
    cases h
    exact ⟨rfl, rfl⟩
  | cons t tokens ih =>
    rw [readFrom_cons] at h
    cases hn : Reading.next contexts t with
    | pending contexts' =>
      rw [hn] at h
      exact ih h
    | complete d =>
      rw [hn] at h
      cases h
    | failed e' =>
      rw [hn] at h
      cases h
      exact Reading.ofReading_of_next hn

end TokenStream

/-! ## Evaluation -/

/-- If the computation fails, it is a failure of evaluation. -/
def FailsEvaluating {α : Type} (x : Except Error α) : Prop := ∀ e, x = .error e → e.OfEvaluation

namespace FailsEvaluating

variable {α β : Type} {x : Except Error α}

theorem ok (a : α) : FailsEvaluating (.ok a) := by
  intro e h
  cases h

theorem error {e : Error} (h : e.OfEvaluation) : FailsEvaluating (.error e : Except Error α) := by
  intro e' h'
  cases h'
  exact h

theorem bind {f : α → Except Error β} (hx : FailsEvaluating x) (hf : ∀ a, FailsEvaluating (f a)) :
    FailsEvaluating (x >>= f) := by
  intro e h
  cases x with
  | error e' => exact hx e (by cases h; rfl)
  | ok a => exact hf a e h

theorem map (f : α → β) (hx : FailsEvaluating x) : FailsEvaluating (x.map f) := by
  intro e h
  cases x with
  | error e' => exact hx e (by cases h; rfl)
  | ok a => cases h

theorem mapM {f : α → Except Error β} (hf : ∀ a, FailsEvaluating (f a)) (items : List α) :
    FailsEvaluating (items.mapM f) := by
  induction items with
  | nil => exact .ok []
  | cons a items ih =>
    rw [List.mapM_cons]
    exact (hf a).bind fun b => ih.bind fun bs => .ok _

end FailsEvaluating

namespace Form

variable (keyword : Keyword)

theorem malformed_fails {α : Type} (detail : String) :
    FailsEvaluating (malformed keyword detail : Except Error α) :=
  .error ⟨rfl, rfl⟩

theorem proper_fails (part : Value) : FailsEvaluating (proper keyword part) := by
  unfold proper
  split
  · exact .ok _
  · exact malformed_fails keyword _

theorem parameters_fails (params : Value) : FailsEvaluating (parameters keyword params) := by
  have hone : ∀ v, FailsEvaluating (parameter keyword v) := by
    intro v
    unfold parameter
    split
    · exact .ok _
    · exact malformed_fails keyword _
  refine (FailsEvaluating.mapM hone _).bind fun names => ?_
  split_ifs
  · exact .ok names
  · exact malformed_fails keyword _

theorem binding_fails (v : Value) : FailsEvaluating (binding v) := by
  unfold binding
  split
  · refine (proper_fails .bind _).bind fun parts => ?_
    split
    · exact .ok _
    · exact malformed_fails .bind _
  · exact malformed_fails .bind _
  · exact malformed_fails .bind _

/-- Parts that do not fit are a failure of evaluation. -/
theorem parse_fails (args : Value) : FailsEvaluating (parse keyword args) := by
  cases keyword with
  | quote =>
    refine (proper_fails .quote args).bind fun parts => ?_
    split
    · exact .ok _
    · exact malformed_fails .quote _
  | define =>
    show FailsEvaluating (parseDefine args)
    unfold parseDefine
    split
    · refine (proper_fails .define _).bind fun parts => ?_
      split
      · exact .ok _
      · exact malformed_fails .define _
    · refine (parameters_fails .define _).bind fun params => ?_
      exact (proper_fails .define _).bind fun body => .ok _
    · exact malformed_fails .define _
    · exact malformed_fails .define _
    · exact malformed_fails .define _
  | assign =>
    refine (proper_fails .assign args).bind fun parts => ?_
    split
    · exact .ok _
    · exact malformed_fails .assign _
    · exact malformed_fails .assign _
  | conditional =>
    refine (proper_fails .conditional args).bind fun parts => ?_
    split
    · exact .ok _
    · exact .ok _
    · exact malformed_fails .conditional _
  | sequence => exact (proper_fails .sequence args).map _
  | lambda =>
    show FailsEvaluating (parseLambda args)
    unfold parseLambda
    split
    · refine (parameters_fails .lambda _).bind fun params => ?_
      exact (proper_fails .lambda _).bind fun body => .ok _
    · exact malformed_fails .lambda _
  | bind =>
    refine (proper_fails .bind args).bind fun parts => ?_
    split
    · exact malformed_fails .bind _
    · refine (proper_fails .bind _).bind fun bindings => ?_
      exact (FailsEvaluating.mapM binding_fails bindings).bind fun pairs => .ok _
  | quit => exact .ok _
  | vars => exact .ok _

end Form

namespace Primitive

theorem asNumber_fails (v : Value) : FailsEvaluating v.asNumber := by
  unfold Value.asNumber
  split
  · exact .ok _
  · exact .error ⟨rfl, rfl⟩

theorem numbers_fails (args : List Value) : FailsEvaluating (numbers args) :=
  .mapM asNumber_fails args

theorem reduce_fails (unary : Float → Float) (op : Float → Float → Float) (args : List Value) :
    FailsEvaluating (reduce unary op args) := by
  refine (numbers_fails args).bind fun xs => ?_
  split
  · exact .error ⟨rfl, rfl⟩
  · exact .ok _
  · exact .ok _

theorem chainFrom_fails (rel : Float → Float → Bool) (x : Float) (args : List Value) :
    FailsEvaluating (chainFrom rel x args) := by
  induction args generalizing x with
  | nil => exact .ok _
  | cons arg args ih =>
    refine (asNumber_fails arg).bind fun y => ?_
    split_ifs
    · exact ih y
    · exact .ok _

theorem chain_fails (rel : Float → Float → Bool) (args : List Value) :
    FailsEvaluating (chain rel args) := by
  cases args with
  | nil => exact .error ⟨rfl, rfl⟩
  | cons arg args => exact (asNumber_fails arg).bind fun x => chainFrom_fails rel x args

theorem unary_fails {f : Value → Except Error Value} (hf : ∀ v, FailsEvaluating (f v))
    (args : List Value) : FailsEvaluating (unary f args) := by
  unfold unary
  split
  · exact hf _
  · exact .error ⟨rfl, rfl⟩

theorem binary_fails {α : Type} (f : Value → Value → α) (args : List Value) :
    FailsEvaluating (binary f args) := by
  unfold binary
  split
  · exact .ok _
  · exact .error ⟨rfl, rfl⟩

theorem asPair_fails (v : Value) : FailsEvaluating v.asPair := by
  unfold Value.asPair
  split
  · exact .ok _
  · exact .error ⟨rfl, rfl⟩

/-- Primitive procedures fail by the causes of evaluation. -/
theorem apply_fails (p : Primitive) (args : List Value) (st : Store) :
    FailsEvaluating (p.apply args st) := by
  cases p with
  | add | multiply => exact ((numbers_fails args).bind fun xs => .ok _).map _
  | subtract | divide => exact (reduce_fails _ _ args).map _
  | less | lessEqual | greater | greaterEqual | numberEqual => exact (chain_fails _ args).map _
  | isNumber | isPair | isNull => exact (unary_fails (fun v => .ok _) args).map _
  | isEqual => exact (binary_fails _ args).map _
  | cons => exact binary_fails _ args
  | car | cdr => exact (unary_fails (fun v => (asPair_fails v).map _) args).map _

end Primitive

namespace Next

/-- If the machine stops with a failure, it is one of evaluation. -/
def FailsEvaluating : Next → Prop
  | .done (.failed e) _ => e.OfEvaluation
  | _ => True

end Next

namespace Stack

variable (k : Stack) (st : Store) (frame : FrameId)

theorem enter_fails (exp : Value) (waiting : Pending) :
    (k.enter st exp frame waiting).FailsEvaluating := by
  unfold enter
  split_ifs
  · exact ⟨rfl, rfl⟩
  · trivial

theorem body_fails (exps : List Value) : (k.body st frame exps).FailsEvaluating := by
  match exps with
  | [] => trivial
  | [last] => trivial
  | exp :: next :: rest => exact enter_fails k st frame exp _

theorem call_fails (procedure : Value) (args : List Value) :
    (k.call st procedure args).FailsEvaluating := by
  unfold call
  split
  · next p =>
    split
    · trivial
    · next e h => exact Primitive.apply_fails p args st e h
  · next label params body outer =>
    split
    · exact body_fails k _ _ body
    · next e h =>
      unfold Frame.ofArguments at h
      split_ifs at h
      cases h
      exact ⟨rfl, rfl⟩
  · exact ⟨rfl, rfl⟩

theorem operands_fails (procedure : Value) (done : List Value) (rest : Value) :
    (k.operands st procedure done rest frame).FailsEvaluating := by
  cases rest with
  | atom a => exact ⟨rfl, rfl⟩
  | nil => exact call_fails k st procedure done.reverse
  | pair label head tail => exact enter_fails k st frame head _

theorem form_fails (f : Form) : (k.form st frame f).2.FailsEvaluating := by
  cases f with
  | define name value => exact enter_fails k st frame value _
  | assign name value => exact enter_fails k st frame value _
  | conditional test consequent alternative => exact enter_fails k st frame test _
  | sequence body => exact body_fails k st frame body
  | _ => trivial

theorem eval_fails (exp : Value) : (k.eval st exp frame).2.FailsEvaluating := by
  unfold eval
  split
  · next name =>
    dsimp only
    unfold Store.lookup
    cases st.get? frame name with
    | some v => trivial
    | none => exact ⟨rfl, rfl⟩
  · next label head args =>
    split
    · next keyword _ =>
      split
      · next f _ => exact form_fails k st frame f
      · next e h => exact Form.parse_fails keyword args e h
    · exact enter_fails k st frame head _
  · trivial

theorem resume_fails (v : Value) (waiting : Pending) : (k.resume st v waiting).2.FailsEvaluating := by
  cases waiting with
  | branch consequent alternative frame =>
    unfold resume
    dsimp only
    split
    · trivial
    · cases alternative <;> trivial
  | define name frame => trivial
  | assign name frame => trivial
  | sequence next rest frame => exact body_fails k st frame (next :: rest)
  | operator args frame => exact operands_fails k st frame v [] args
  | operand procedure done rest frame => exact operands_fails k st frame procedure (v :: done) rest

end Stack

namespace State

theorem step_fails (s : State) : s.step.2.FailsEvaluating := by
  match s with
  | ⟨.eval exp frame, k, st⟩ => exact k.eval_fails st frame exp
  | ⟨.give v, ⟨[], depth⟩, st⟩ => trivial
  | ⟨.give v, ⟨waiting :: pending, depth⟩, st⟩ => exact Stack.resume_fails _ st v waiting

/-- **Failures of evaluation.** A run that fails does so without a place, by one of the causes of
evaluation. -/
theorem run_fails {σ : Type} (observe : σ → EvalEvent → σ) {fuel : Nat} {seen : σ} {s : State}
    {e : Error} (h : (s.run observe fuel seen).2.1 = .failed e) : e.OfEvaluation := by
  induction fuel generalizing seen s with
  | zero => cases h
  | succ fuel ih =>
    have hstep := s.step_fails
    rw [run] at h
    rcases heq : s.step with ⟨events, s' | ⟨out, st⟩⟩
    · rw [heq] at h
      exact ih h
    · rw [heq] at h hstep
      obtain rfl : out = .failed e := h
      exact hstep

end State

end SmallScheme
