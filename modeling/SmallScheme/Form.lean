import SmallScheme.Store.Basic

/-!
# Special forms

A pair whose head is one of nine symbols is a special form, whatever that symbol is bound to. Its parts
are checked completely before anything is evaluated; what passes the check is a `Form`.
-/

namespace SmallScheme

/-- The symbols that begin a special form. -/
inductive Keyword where
  | quote
  | define
  | assign
  | conditional
  | sequence
  | lambda
  | bind
  | quit
  | vars
  deriving DecidableEq, Repr

namespace Keyword

def ofSymbol? (s : Symbol) : Option Keyword :=
  match s.name with
  | "QUOTE" => some quote
  | "DEFINE" => some define
  | "SET!" => some assign
  | "IF" => some conditional
  | "BEGIN" => some sequence
  | "LAMBDA" => some lambda
  | "LET" => some bind
  | "QUIT" => some quit
  | ":VARS" => some vars
  | _ => none

def ofHead? (head : Value) : Option Keyword :=
  head.symbol?.bind ofSymbol?

/-- The keyword as failures name it. -/
def text : Keyword → String
  | quote => "quote"
  | define => "define"
  | assign => "set!"
  | conditional => "if"
  | sequence => "begin"
  | lambda => "lambda"
  | bind => "let"
  | quit => "quit"
  | vars => ":vars"

def lambdaSymbol : Symbol := .ofName "lambda"

end Keyword

/-- A special form whose parts fit. -/
inductive Form where
  | quote (v : Value)
  | define (name : Symbol) (value : Value)
  | defineProcedure (name : Symbol) (params : List Symbol) (body : List Value)
  | assign (name : Symbol) (value : Value)
  | conditional (test consequent : Value) (alternative : Option Value)
  | sequence (body : List Value)
  | lambda (params : List Symbol) (body : List Value)
  | bind (names : List Symbol) (values : List Value) (body : List Value)
  | quit
  | vars

namespace Form

def malformed {α : Type} (keyword : Keyword) (detail : String) : Except Error α :=
  .error ⟨.malformedForm keyword.text detail, none⟩

/-- The elements of a part that has to be a proper list. -/
def proper (keyword : Keyword) (part : Value) : Except Error (List Value) :=
  match part.toList? with
  | some items => .ok items
  | none => malformed keyword (part.text ++ " is not a proper list")

/-- A parameter, which has to be a symbol. -/
def parameter (keyword : Keyword) (v : Value) : Except Error Symbol :=
  match v with
  | .symbol s => .ok s
  | v => malformed keyword ("parameter " ++ v.text ++ " is not a symbol")

/-- The parameters of a procedure: a proper list of symbols. -/
def parameters (keyword : Keyword) (params : Value) : Except Error (List Symbol) := do
  let (items, last) := params.spine
  let names ← items.mapM (parameter keyword)
  if last.isNil then return names
  else malformed keyword ("parameter list " ++ params.text ++ " is not a proper list")

/-- Checks `(quote v)`. -/
def parseQuote (args : Value) : Except Error Form := do
  match ← proper .quote args with
  | [v] => return .quote v
  | parts => malformed .quote s!"expected one expression, got {parts.length}"

/-- Checks `(define name value)` and `(define (name params …) body …)`. -/
def parseDefine : Value → Except Error Form
  | .pair _ (Value.symbol name) rest => do
    match ← proper .define rest with
    | [value] => return .define name value
    | parts =>
      malformed .define s!"expected a single value for {name.name}, got {parts.length}"
  | .pair _ (.pair _ (Value.symbol name) params) body => do
    return .defineProcedure name (← parameters .define params) (← proper .define body)
  | .pair _ (.pair _ other _) _ =>
    malformed .define ("procedure name " ++ Value.text other ++ " is not a symbol")
  | .pair _ other _ => malformed .define ("can't define " ++ Value.text other)
  | _ => malformed .define "missing name"

/-- Checks `(set! name value)`. -/
def parseAssign (args : Value) : Except Error Form := do
  match ← proper .assign args with
  | [Value.symbol name, value] => return .assign name value
  | [other, _] => malformed .assign ("target " ++ Value.text other ++ " is not a symbol")
  | parts => malformed .assign s!"expected a target and a value, got {parts.length} parts"

/-- Checks `(if test consequent)` and `(if test consequent alternative)`. -/
def parseConditional (args : Value) : Except Error Form := do
  match ← proper .conditional args with
  | [test, consequent] => return .conditional test consequent none
  | [test, consequent, alternative] => return .conditional test consequent (some alternative)
  | parts =>
    malformed .conditional s!"expected a test and one or two branches, got {parts.length} parts"

/-- Checks `(lambda (params …) body …)`. -/
def parseLambda : Value → Except Error Form
  | .pair _ params body => do
    return .lambda (← parameters .lambda params) (← proper .lambda body)
  | _ => malformed .lambda "missing parameter list"

/-- Checks one local binding `(name value)`. -/
def binding (v : Value) : Except Error (Symbol × Value) :=
  match v with
  | .pair .. => do
    match ← proper .bind v with
    | [Value.symbol name, value] => return (name, value)
    | _ => malformed .bind ("binding " ++ v.text ++ " needs a name and a value")
  | .nil => malformed .bind "empty binding"
  | .atom _ => malformed .bind ("binding " ++ v.text ++ " is not a list")

/-- Checks `(let ((name value) …) body …)`. -/
def parseBind (args : Value) : Except Error Form := do
  match ← proper .bind args with
  | [] => malformed .bind "missing binding list"
  | bindings :: body =>
    let pairs ← (← proper .bind bindings).mapM binding
    return .bind (pairs.map Prod.fst) (pairs.map Prod.snd) body

def parse (keyword : Keyword) (args : Value) : Except Error Form :=
  match keyword with
  | .quote => parseQuote args
  | .define => parseDefine args
  | .assign => parseAssign args
  | .conditional => parseConditional args
  | .sequence => (proper .sequence args).map .sequence
  | .lambda => parseLambda args
  | .bind => parseBind args
  | .quit => .ok .quit
  | .vars => .ok .vars

/-- Local bindings as the application of a procedure: `((lambda (names …) body …) values …)`. -/
def applied (st : Store) (names : List Symbol) (values body : List Value) : Value × Store :=
  let (params, st) := st.list (names.map .symbol)
  let (body, st) := st.list body
  let (rest, st) := st.cons params body
  let (procedure, st) := st.cons (.symbol Keyword.lambdaSymbol) rest
  let (operands, st) := st.list values
  st.cons procedure operands

end Form

end SmallScheme
