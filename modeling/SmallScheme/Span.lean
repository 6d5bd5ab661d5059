/-!
# Places in source text

A position counts characters from 0 and lines and columns from 1. A span is a position and a number of
characters.
-/

namespace SmallScheme

/-- A place between two characters of a text. -/
structure Position where
  offset : Nat := 0
  line : Nat := 1
  column : Nat := 1
  deriving DecidableEq, Repr

namespace Position

/-- The place after one more character. Only a line feed starts a new line. -/
def advance (p : Position) (c : Char) : Position :=
  if c = '\n' then ⟨p.offset + 1, p.line + 1, 1⟩ else ⟨p.offset + 1, p.line, p.column + 1⟩

def after (p : Position) (cs : List Char) : Position :=
  cs.foldl advance p

@[simp] theorem after_nil (p : Position) : p.after [] = p := rfl

@[simp] theorem after_cons (p : Position) (c : Char) (cs : List Char) :
    p.after (c :: cs) = (p.advance c).after cs := rfl

theorem after_append (p : Position) (cs ds : List Char) :
    p.after (cs ++ ds) = (p.after cs).after ds :=
  List.foldl_append

@[simp] theorem offset_advance (p : Position) (c : Char) :
    (p.advance c).offset = p.offset + 1 := by
  unfold advance
  split <;> rfl

theorem offset_after (p : Position) (cs : List Char) :
    (p.after cs).offset = p.offset + cs.length := by
  induction cs generalizing p with
  | nil => rfl
  | cons c cs ih => simp [ih]; omega

end Position

/-- A run of `length` characters from a start on. -/
structure Span where
  start : Position
  length : Nat
  deriving DecidableEq, Repr

namespace Span

/-- The offset right after the last character. -/
def stop (s : Span) : Nat :=
  s.start.offset + s.length

/-- The span from the start of the first to the end of the second. -/
def merge (first second : Span) : Span :=
  ⟨first.start, second.stop - first.start.offset⟩

/-- Merging where either span may be missing: a missing one adds nothing. -/
def merge? : Option Span → Option Span → Option Span
  | some first, some second => some (first.merge second)
  | some first, none => some first
  | none, second => second

def text (s : Span) : String :=
  s!"{s.start.line}:{s.start.column}"

end Span

end SmallScheme
