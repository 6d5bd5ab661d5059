import SmallScheme.Store.Basic

/-!
# Applying primitive procedures

Sums and products fold all arguments; a difference or quotient folds the later arguments into the first,
and with a single one negates or inverts it. A comparison holds if it holds between all neighbours, and
looks no further than the first pair of which it does not.
-/

namespace SmallScheme

namespace Primitive

/-- All arguments as numbers. The failure names the first one that is not. -/
def numbers (args : List Value) : Except Error (List Float) :=
  args.mapM Value.asNumber

/-- Folds numbers from a starting value on. -/
def fold (op : Float → Float → Float) (start : Float) (args : List Value) : Except Error Value := do
  let xs ← numbers args
  return .number (xs.foldl op start)

/-- Folds numbers into the first one; a single one goes through `unary`. -/
def reduce (unary : Float → Float) (op : Float → Float → Float) (args : List Value) :
    Except Error Value := do
  match ← numbers args with
  | [] => .error ⟨.arityMismatch (.atLeast 1) 0, none⟩
  | [x] => return .number (unary x)
  | x :: xs => return .number (xs.foldl op x)

/-- The relation holds between a number and the first argument, and between all later neighbours. -/
def chainFrom (rel : Float → Float → Bool) (x : Float) : List Value → Except Error Value
  | [] => .ok (.boolean true)
  | arg :: args => do
    let y ← arg.asNumber
    if rel x y then chainFrom rel y args else return .boolean false

/-- The relation holds between all neighbours. -/
def chain (rel : Float → Float → Bool) : List Value → Except Error Value
  | [] => .error ⟨.arityMismatch (.atLeast 1) 0, none⟩
  | arg :: args => do chainFrom rel (← arg.asNumber) args

def unary (f : Value → Except Error Value) (args : List Value) : Except Error Value :=
  match args with
  | [v] => f v
  | _ => .error ⟨.arityMismatch (.exactly 1) args.length, none⟩

def binary {α : Type} (f : Value → Value → α) (args : List Value) : Except Error α :=
  match args with
  | [v, w] => .ok (f v w)
  | _ => .error ⟨.arityMismatch (.exactly 2) args.length, none⟩

def isNumberValue : Value → Bool
  | .number _ => true
  | _ => false

/-- A result that leaves the store as it is. -/
def keeping (st : Store) (result : Except Error Value) : Except Error (Value × Store) :=
  result.map (·, st)

/-- Applies a primitive procedure. Only the making of a pair changes the store. -/
def apply (p : Primitive) (args : List Value) (st : Store) : Except Error (Value × Store) :=
  match p with
  | add => keeping st (fold (· + ·) 0 args)
  | multiply => keeping st (fold (· * ·) 1 args)
  | subtract => keeping st (reduce (- ·) (· - ·) args)
  | divide => keeping st (reduce (1 / ·) (· / ·) args)
  | less => keeping st (chain (fun x y => x < y) args)
  | lessEqual => keeping st (chain (fun x y => x ≤ y) args)
  | greater => keeping st (chain (fun x y => x > y) args)
  | greaterEqual => keeping st (chain (fun x y => x ≥ y) args)
  | numberEqual => keeping st (chain (fun x y => x == y) args)
  | isNumber => keeping st (unary (fun v => .ok (.boolean (isNumberValue v))) args)
  | isPair => keeping st (unary (fun v => .ok (.boolean v.isPair)) args)
  | isNull => keeping st (unary (fun v => .ok (.boolean v.isNil)) args)
  | isEqual => keeping st (binary (fun v w => .boolean (v.equal w)) args)
  | cons => binary st.cons args
  | car => keeping st (unary (fun v => v.asPair.map Prod.fst) args)
  | cdr => keeping st (unary (fun v => v.asPair.map Prod.snd) args)

end Primitive

namespace Store

/-- The names that every program starts with: the primitive procedures and two constants. -/
def initialBindings : List (Symbol × Value) :=
  Primitive.all.map (fun p => (Symbol.ofName p.name, .atom (.primitive p))) ++
    [(.ofName "pi", .number 3.141592653589793), (.ofName "nil", .nil)]

/-- The outermost frame of a fresh program. -/
def globalFrame : FrameId := 0

/-- The store of a fresh program: one frame with the initial bindings. -/
def initial : Store :=
  { frames := #[⟨none, Bindings.insertAll [] initialBindings⟩] }

end Store

end SmallScheme
