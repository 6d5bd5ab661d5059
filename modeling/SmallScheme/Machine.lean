import SmallScheme.Form
import SmallScheme.Primitive.Apply

/-!
# Evaluation

Evaluation is a machine that takes one small step at a time. It holds what it is doing, the evaluations
that wait for the result, and the store. An expression in tail position replaces the one before it, so
that the number of waiting evaluations bounds the nesting of all others; it is limited.
-/

namespace SmallScheme

/-- The most evaluations that may wait at once, counting the running one. -/
def maxDepth : Nat := 30000

/-- An evaluation that waits for the value of a part. The arguments of a call that are done are given latest first. -/
inductive Pending where
  | branch (consequent : Value) (alternative : Option Value) (frame : FrameId)
  | define (name : Symbol) (frame : FrameId)
  | assign (name : Symbol) (frame : FrameId)
  | sequence (next : Value) (rest : List Value) (frame : FrameId)
  | operator (args : Value) (frame : FrameId)
  | operand (procedure : Value) (done : List Value) (rest : Value) (frame : FrameId)

/-- What the machine is doing: evaluating, or handing a value to the evaluation that waits for it. -/
inductive Control where
  | eval (exp : Value) (frame : FrameId)
  | give (v : Value)

/-- The waiting evaluations of this run, innermost first, and how many there are with those outside of it. -/
structure Stack where
  pending : List Pending
  depth : Nat

/-- The machine between two steps. -/
structure State where
  control : Control
  stack : Stack
  store : Store

/-- How a run ends; it is `unfinished` if the steps allowed were used up. -/
inductive Outcome where
  | value (v : Value)
  | failed (e : Error)
  | quit
  | unfinished

/-- What evaluation does that an observer may want to know. -/
inductive EvalEvent where
  | evaluating (exp : Value)
  | calling (exp : Value)
  | interned (s : Symbol)
  | assignedUnbound (s : Symbol)
  | binding (s : Symbol) (v : Value)
  | countedSymbols
  | quitting

inductive Next where
  | running (s : State)
  | done (result : Outcome) (store : Store)

/-- The symbol that a definition returns. -/
def okSymbol : Symbol := .ofName "ok"

namespace Stack

/-- Goes on with another control in place of the one before. -/
def proceed (k : Stack) (st : Store) (control : Control) : Next :=
  .running ⟨control, k, st⟩

/-- Evaluates a part, for which `waiting` waits. -/
def enter (k : Stack) (st : Store) (exp : Value) (frame : FrameId) (waiting : Pending) : Next :=
  if maxDepth ≤ k.depth + 1 then .done (.failed ⟨.recursionTooDeep maxDepth, none⟩) st
  else .running ⟨.eval exp frame, ⟨waiting :: k.pending, k.depth + 1⟩, st⟩

/-- Evaluates expressions in order; the last one takes the place of the whole. -/
def body (k : Stack) (st : Store) (frame : FrameId) : List Value → Next
  | [] => k.proceed st (.give .nil)
  | [last] => k.proceed st (.eval last frame)
  | exp :: next :: rest => k.enter st exp frame (.sequence next rest frame)

def call (k : Stack) (st : Store) (procedure : Value) (args : List Value) : Next :=
  match procedure with
  | .atom (.primitive p) =>
    match p.apply args st with
    | .ok (v, st) => k.proceed st (.give v)
    | .error e => .done (.failed e) st
  | .atom (.closure _ params body frame) =>
    match Frame.ofArguments frame params args with
    | .ok inner =>
      let (inner, st) := st.addFrame inner
      k.body st inner body
    | .error e => .done (.failed e) st
  | other => .done (.failed ⟨.notAProcedure (Value.text other), none⟩) st

/-- Evaluates the arguments of a call from left to right, and then calls. -/
def operands (k : Stack) (st : Store) (procedure : Value) (done : List Value) (rest : Value)
    (frame : FrameId) : Next :=
  match rest with
  | .pair _ head tail => k.enter st head frame (.operand procedure done tail frame)
  | .nil => k.call st procedure done.reverse
  | .atom _ => .done (.failed ⟨.notAPair (Value.text rest), none⟩) st

/-- Binds a name in a frame and gives the symbol that says so. -/
def define (k : Stack) (st : Store) (name : Symbol) (v : Value) (frame : FrameId) :
    List EvalEvent × Next :=
  ([.interned okSymbol], k.proceed (st.bind frame name v) (.give (.symbol okSymbol)))

def form (k : Stack) (st : Store) (frame : FrameId) : Form → List EvalEvent × Next
  | .quote v => ([], k.proceed st (.give v))
  | .define name value => ([], k.enter st value frame (.define name frame))
  | .defineProcedure name params body =>
    let (v, st) := st.closure params body frame
    k.define st name v frame
  | .assign name value => ([], k.enter st value frame (.assign name frame))
  | .conditional test consequent alternative =>
    ([], k.enter st test frame (.branch consequent alternative frame))
  | .sequence body => ([], k.body st frame body)
  | .lambda params body =>
    let (v, st) := st.closure params body frame
    ([], k.proceed st (.give v))
  | .bind names values body =>
    let (exp, st) := Form.applied st names values body
    ([.interned Keyword.lambdaSymbol], k.proceed st (.eval exp frame))
  | .quit => ([.quitting], .done .quit st)
  | .vars =>
    ((st.bindings frame).map (fun (name, v) => .binding name v) ++ [.countedSymbols],
      k.proceed st (.give .nil))

def eval (k : Stack) (st : Store) (exp : Value) (frame : FrameId) : List EvalEvent × Next :=
  match exp with
  | .symbol name =>
    ([.evaluating exp], match st.lookup frame name with
      | .ok v => k.proceed st (.give v)
      | .error e => .done (.failed e) st)
  | .pair _ head args =>
    match Keyword.ofHead? head with
    | some keyword =>
      match Form.parse keyword args with
      | .ok f =>
        let (events, next) := k.form st frame f
        (.evaluating exp :: events, next)
      | .error e => ([.evaluating exp], .done (.failed e) st)
    | none => ([.evaluating exp, .calling exp], k.enter st head frame (.operator args frame))
  | v => ([.evaluating exp], k.proceed st (.give v))

/-- Hands a value to the evaluation that waited for it. -/
def resume (k : Stack) (st : Store) (v : Value) : Pending → List EvalEvent × Next
  | .branch consequent alternative frame =>
    ([], if v.isTruthy then k.proceed st (.eval consequent frame)
      else match alternative with
        | some exp => k.proceed st (.eval exp frame)
        | none => k.proceed st (.give .nil))
  | .define name frame => k.define st name v frame
  | .assign name frame =>
    let owner := st.owner frame name
    let events := if st.binds owner name then [] else [.assignedUnbound name]
    (events, k.proceed (st.bind owner name v) (.give v))
  | .sequence next rest frame => ([], k.body st frame (next :: rest))
  | .operator args frame => ([], k.operands st v [] args frame)
  | .operand procedure done rest frame => ([], k.operands st procedure (v :: done) rest frame)

end Stack

namespace State

/-- One step of the machine, with what it did. -/
def step : State → List EvalEvent × Next
  | ⟨.eval exp frame, k, st⟩ => k.eval st exp frame
  | ⟨.give v, ⟨[], _⟩, st⟩ => ([], .done (.value v) st)
  | ⟨.give v, ⟨waiting :: pending, depth⟩, st⟩ =>
    Stack.resume ⟨pending, depth - 1⟩ st v waiting

/-- Runs the machine for at most `fuel` steps, showing every event to an observer. -/
def run {σ : Type} (observe : σ → EvalEvent → σ) : Nat → σ → State → σ × Outcome × Store
  | 0, seen, s => (seen, .unfinished, s.store)
  | fuel + 1, seen, s =>
    match s.step with
    | (events, .running s) => run observe fuel (events.foldl observe seen) s
    | (events, .done result store) => (events.foldl observe seen, result, store)

/-- The machine that is about to evaluate an expression inside `depth` waiting evaluations. -/
def start (exp : Value) (frame : FrameId) (depth : Nat) (store : Store) : State :=
  ⟨.eval exp frame, ⟨[], depth⟩, store⟩

end State

end SmallScheme
