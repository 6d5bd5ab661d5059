/-!
# Primitive procedures

The procedures that every program starts with.
-/

namespace SmallScheme

inductive Primitive where
  | add
  | multiply
  | subtract
  | divide
  | less
  | lessEqual
  | greater
  | greaterEqual
  | numberEqual
  | isNumber
  | isPair
  | isNull
  | isEqual
  | cons
  | car
  | cdr
  deriving DecidableEq, Repr

namespace Primitive

def all : List Primitive :=
  [add, multiply, subtract, divide, less, lessEqual, greater, greaterEqual, numberEqual, isNumber,
    isPair, isNull, isEqual, cons, car, cdr]

/-- The name under which a program finds the procedure. -/
def name : Primitive → String
  | add => "+"
  | multiply => "*"
  | subtract => "-"
  | divide => "/"
  | less => "<"
  | lessEqual => "<="
  | greater => ">"
  | greaterEqual => ">="
  | numberEqual => "="
  | isNumber => "number?"
  | isPair => "pair?"
  | isNull => "null?"
  | isEqual => "equal?"
  | cons => "cons"
  | car => "car"
  | cdr => "cdr"

end Primitive

end SmallScheme
