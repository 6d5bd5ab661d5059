import SmallScheme.Datum.Basic
import SmallScheme.Error
import SmallScheme.Primitive.Basic

/-!
# Values

What programs compute with. Besides the data that can be written down there are procedures, and every
pair is a cell of its own: two pairs with equal parts can still be told apart by their labels. A closure
has a label too, the only thing by which closures are compared.
-/

namespace SmallScheme

/-- The label of a pair or a closure. -/
abbrev Label := Nat

/-- The number of a frame of bindings, counted in the order of creation. -/
abbrev FrameId := Nat

inductive Object where
  | literal (l : Literal)
  | primitive (p : Primitive)
  | closure (label : Label) (params : List Symbol) (body : List (Sexp Label Object))
      (frame : FrameId)

/-- A value; expressions to be evaluated are values as well. -/
abbrev Value := Sexp Label Object

namespace Object

/-- The written form of an atom. A closure shows its parameters only. -/
def text : Object → String
  | literal l => l.text
  | primitive p => s!"<native {p.name}>"
  | closure _ params _ _ => "<lambda (" ++ " ".intercalate (params.map Symbol.name) ++ ")>"

/-- Equality of atoms. Closures are equal only to themselves. -/
def same : Object → Object → Bool
  | literal l, literal m => l.same m
  | primitive p, primitive q => p == q
  | closure label _ _ _, closure label' _ _ _ => label == label'
  | _, _ => false

end Object

namespace Value

@[match_pattern] abbrev symbol (s : Symbol) : Value := .atom (.literal (.symbol s))

@[match_pattern] abbrev number (x : Float) : Value := .atom (.literal (.number x))

@[match_pattern] abbrev boolean (b : Bool) : Value := .atom (.literal (.boolean b))

def text (v : Value) : String :=
  Sexp.text Object.text v

/-- Everything counts as true except `#f` and the number zero. -/
def isTruthy : Value → Bool
  | boolean b => b
  | number x => x != 0
  | _ => true

def symbol? : Value → Option Symbol
  | symbol s => some s
  | _ => none

def asPair : Value → Except Error (Value × Value)
  | .pair _ head tail => .ok (head, tail)
  | v => .error ⟨.notAPair v.text, none⟩

def asNumber : Value → Except Error Float
  | number x => .ok x
  | v => .error ⟨.notANumber v.text, none⟩

/-- The number of nodes on the left of all pairs of values. -/
def leftSize : List (Value × Value) → Nat
  | [] => 0
  | (v, _) :: more => v.size + leftSize more

/-- Compares two values part by part, and all pairs of values that are still to be compared after
them. Two pairs with the same label are the same cell and are not looked into. -/
def equalAll (todo : List (Value × Value)) : Bool :=
  match todo with
  | [] => true
  | (.atom a, .atom b) :: more => a.same b && equalAll more
  | (.nil, .nil) :: more => equalAll more
  | (.pair label head tail, .pair label' head' tail') :: more =>
    if label = label' then equalAll more
    else equalAll ((head, head') :: (tail, tail') :: more)
  | _ :: _ => false
termination_by leftSize todo
decreasing_by
  all_goals
    simp only [leftSize, Sexp.size]
    omega

def equal (v w : Value) : Bool :=
  equalAll [(v, w)]

/-- What is still to be compared can be compared apart. -/
theorem equalAll_cons (v w : Value) (more : List (Value × Value)) :
    equalAll ((v, w) :: more) = (v.equal w && equalAll more) := by
  unfold equal
  induction v generalizing w more with
  | atom a => cases w <;> simp [equalAll]
  | nil => cases w <;> simp [equalAll]
  | pair label head tail ihHead ihTail =>
    cases w with
    | atom b => simp [equalAll]
    | nil => simp [equalAll]
    | pair label' head' tail' =>
      rw [equalAll, equalAll]
      split
      · simp [equalAll]
      · rw [ihHead, ihTail, ihHead _ [(tail, tail')], Bool.and_assoc]

/-- A closure in full, or nothing for other values. -/
def closureText? : Value → Option String
  | .atom (.closure _ params body _) =>
    let names := ", ".intercalate (params.map fun s => "Symbol(" ++ s.name ++ ")")
    some ("RsiClosure \x7b params: [" ++ names ++ "], body: [" ++
      ", ".intercalate (body.map text) ++ "] \x7d")
  | _ => none

end Value

end SmallScheme
