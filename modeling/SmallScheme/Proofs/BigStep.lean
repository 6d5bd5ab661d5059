import SmallScheme.Machine

/-!
# Recursive evaluation

What the machine computes, without a machine: a relation that evaluates every part of an expression
by a derivation of its own, those in tail position included, and that knows no limit. A procedure is
evaluated before its operands, these from left to right, and only then is the procedure looked at.

Every derivation has a height. A part whose value something waits for (the test of a conditional, the
value of a definition or an assignment, the procedure and the operands of a call, an expression before
the last one of a body) adds one level; what takes the place of the whole adds none.
-/

namespace SmallScheme

/-- What recursive evaluation is asked to do. -/
inductive Task where
  /-- Evaluate an expression. -/
  | expression (exp : Value) (frame : FrameId)
  /-- Evaluate a special form whose parts fit. -/
  | form (f : Form) (frame : FrameId)
  /-- Evaluate expressions in order, for the value of the last one. -/
  | body (exps : List Value) (frame : FrameId)
  /-- Evaluate the operands `rest` of a call, after those with the values `done`, and call. -/
  | operands (procedure : Value) (done : List Value) (rest : Value) (frame : FrameId)
  /-- Call a procedure. -/
  | call (procedure : Value) (args : List Value)

/-- An outcome without a value ends every evaluation around it as well. -/
def Outcome.Abrupt (out : Outcome) : Prop := ∀ v, out ≠ .value v

theorem Outcome.value_or_abrupt (out : Outcome) : (∃ v, out = .value v) ∨ out.Abrupt := by
  cases out with
  | value v => exact .inl ⟨v, rfl⟩
  | _ => exact .inr (by intro v hv; cases hv)

namespace Value

/-- An expression that stands for itself: neither a symbol nor a pair. -/
def isConstant : Value → Bool
  | symbol _ => false
  | .pair .. => false
  | _ => true

/-- A value that can be called. -/
def isProcedure : Value → Bool
  | .atom (.primitive _) => true
  | .atom (.closure ..) => true
  | _ => false

end Value

/-- `Evaluates task st h out st'`: the task, begun in the store `st`, comes to the outcome `out` and the
store `st'` by a derivation of height `h`. -/
inductive Evaluates : Task → Store → Nat → Outcome → Store → Prop where
  -- expressions
  | bound {st frame name v} (h : st.lookup frame name = .ok v) :
      Evaluates (.expression (.symbol name) frame) st 0 (.value v) st
  | unbound {st frame name e} (h : st.lookup frame name = .error e) :
      Evaluates (.expression (.symbol name) frame) st 0 (.failed e) st
  | constant {st frame exp} (h : Value.isConstant exp = true) :
      Evaluates (.expression exp frame) st 0 (.value exp) st
  | malformed {st frame label head args keyword e} (hk : Keyword.ofHead? head = some keyword)
      (hf : Form.parse keyword args = .error e) :
      Evaluates (.expression (.pair label head args) frame) st 0 (.failed e) st
  | special {st frame label head args keyword f h out st'}
      (hk : Keyword.ofHead? head = some keyword) (hf : Form.parse keyword args = .ok f)
      (heval : Evaluates (.form f frame) st h out st') :
      Evaluates (.expression (.pair label head args) frame) st h out st'
  | application {st frame label head args h v st₁ h' out st₂} (hk : Keyword.ofHead? head = none)
      (hhead : Evaluates (.expression head frame) st h (.value v) st₁)
      (hargs : Evaluates (.operands v [] args frame) st₁ h' out st₂) :
      Evaluates (.expression (.pair label head args) frame) st (max (h + 1) h') out st₂
  | application_stops {st frame label head args h out st₁} (hk : Keyword.ofHead? head = none)
      (hhead : Evaluates (.expression head frame) st h out st₁) (ha : out.Abrupt) :
      Evaluates (.expression (.pair label head args) frame) st (h + 1) out st₁
  -- special forms
  | quote {st frame v} : Evaluates (.form (.quote v) frame) st 0 (.value v) st
  | define {st frame name value h v st₁}
      (hval : Evaluates (.expression value frame) st h (.value v) st₁) :
      Evaluates (.form (.define name value) frame) st (h + 1) (.value (.symbol okSymbol))
        (st₁.bind frame name v)
  | define_stops {st frame name value h out st₁}
      (hval : Evaluates (.expression value frame) st h out st₁) (ha : out.Abrupt) :
      Evaluates (.form (.define name value) frame) st (h + 1) out st₁
  | defineProcedure {st frame name params body v st₁}
      (hc : st.closure params body frame = (v, st₁)) :
      Evaluates (.form (.defineProcedure name params body) frame) st 0 (.value (.symbol okSymbol))
        (st₁.bind frame name v)
  | assign {st frame name value h v st₁}
      (hval : Evaluates (.expression value frame) st h (.value v) st₁) :
      Evaluates (.form (.assign name value) frame) st (h + 1) (.value v)
        (st₁.bind (st₁.owner frame name) name v)
  | assign_stops {st frame name value h out st₁}
      (hval : Evaluates (.expression value frame) st h out st₁) (ha : out.Abrupt) :
      Evaluates (.form (.assign name value) frame) st (h + 1) out st₁
  | consequent {st frame test consequent alternative h v st₁ h' out st₂}
      (htest : Evaluates (.expression test frame) st h (.value v) st₁) (hv : v.isTruthy = true)
      (hthen : Evaluates (.expression consequent frame) st₁ h' out st₂) :
      Evaluates (.form (.conditional test consequent alternative) frame) st (max (h + 1) h') out st₂
  | alternative {st frame test consequent alternative h v st₁ h' out st₂}
      (htest : Evaluates (.expression test frame) st h (.value v) st₁) (hv : v.isTruthy = false)
      (helse : Evaluates (.expression alternative frame) st₁ h' out st₂) :
      Evaluates (.form (.conditional test consequent (some alternative)) frame) st
        (max (h + 1) h') out st₂
  | no_alternative {st frame test consequent h v st₁}
      (htest : Evaluates (.expression test frame) st h (.value v) st₁) (hv : v.isTruthy = false) :
      Evaluates (.form (.conditional test consequent none) frame) st (h + 1) (.value .nil) st₁
  | conditional_stops {st frame test consequent alternative h out st₁}
      (htest : Evaluates (.expression test frame) st h out st₁) (ha : out.Abrupt) :
      Evaluates (.form (.conditional test consequent alternative) frame) st (h + 1) out st₁
  | sequence {st frame body h out st'} (hbody : Evaluates (.body body frame) st h out st') :
      Evaluates (.form (.sequence body) frame) st h out st'
  | lambda {st frame params body v st₁} (hc : st.closure params body frame = (v, st₁)) :
      Evaluates (.form (.lambda params body) frame) st 0 (.value v) st₁
  | bind {st frame names values body exp st₁ h out st₂}
      (ha : Form.applied st names values body = (exp, st₁))
      (hexp : Evaluates (.expression exp frame) st₁ h out st₂) :
      Evaluates (.form (.bind names values body) frame) st h out st₂
  | quit {st frame} : Evaluates (.form .quit frame) st 0 .quit st
  | vars {st frame} : Evaluates (.form .vars frame) st 0 (.value .nil) st
  -- bodies
  | empty {st frame} : Evaluates (.body [] frame) st 0 (.value .nil) st
  | last {st frame exp h out st'} (hexp : Evaluates (.expression exp frame) st h out st') :
      Evaluates (.body [exp] frame) st h out st'
  | next {st frame exp exp' rest h v st₁ h' out st₂}
      (hexp : Evaluates (.expression exp frame) st h (.value v) st₁)
      (hrest : Evaluates (.body (exp' :: rest) frame) st₁ h' out st₂) :
      Evaluates (.body (exp :: exp' :: rest) frame) st (max (h + 1) h') out st₂
  | next_stops {st frame exp exp' rest h out st₁}
      (hexp : Evaluates (.expression exp frame) st h out st₁) (ha : out.Abrupt) :
      Evaluates (.body (exp :: exp' :: rest) frame) st (h + 1) out st₁
  -- operands
  | operand {st frame procedure done label head tail h v st₁ h' out st₂}
      (hhead : Evaluates (.expression head frame) st h (.value v) st₁)
      (htail : Evaluates (.operands procedure (done ++ [v]) tail frame) st₁ h' out st₂) :
      Evaluates (.operands procedure done (.pair label head tail) frame) st (max (h + 1) h') out st₂
  | operand_stops {st frame procedure done label head tail h out st₁}
      (hhead : Evaluates (.expression head frame) st h out st₁) (ha : out.Abrupt) :
      Evaluates (.operands procedure done (.pair label head tail) frame) st (h + 1) out st₁
  | improper {st frame procedure done a} :
      Evaluates (.operands procedure done (.atom a) frame) st 0
        (.failed ⟨.notAPair (Value.text (.atom a)), none⟩) st
  | complete {st frame procedure done h out st'}
      (hcall : Evaluates (.call procedure done) st h out st') :
      Evaluates (.operands procedure done .nil frame) st h out st'
  -- calls
  | primitive {st p args v st'} (h : Primitive.apply p args st = .ok (v, st')) :
      Evaluates (.call (.atom (.primitive p)) args) st 0 (.value v) st'
  | primitive_fails {st p args e} (h : Primitive.apply p args st = .error e) :
      Evaluates (.call (.atom (.primitive p)) args) st 0 (.failed e) st
  | closure {st label params body frame args inner h out st'}
      (ha : Frame.ofArguments frame params args = .ok inner)
      (hbody : Evaluates (.body body (st.addFrame inner).1) (st.addFrame inner).2 h out st') :
      Evaluates (.call (.atom (.closure label params body frame)) args) st h out st'
  | closure_fails {st label params body frame args e}
      (ha : Frame.ofArguments frame params args = .error e) :
      Evaluates (.call (.atom (.closure label params body frame)) args) st 0 (.failed e) st
  | notProcedure {st v args} (h : Value.isProcedure v = false) :
      Evaluates (.call v args) st 0 (.failed ⟨.notAProcedure v.text, none⟩) st

end SmallScheme
