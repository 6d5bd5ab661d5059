/-!
# S-expressions

Binary trees with atoms at the leaves and a distinguished empty list. A chain of pairs along the tails
that ends in the empty list is a proper list. Each pair carries a label, which tells pairs with equal
parts apart where that matters.
-/

namespace SmallScheme

/-- A tree of pairs labelled by `ι` over atoms in `α`. -/
inductive Sexp (ι α : Type) where
  | atom (a : α)
  | nil
  | pair (label : ι) (head tail : Sexp ι α)

namespace Sexp

variable {ι α : Type}

instance : Inhabited (Sexp ι α) := ⟨.nil⟩

def size : Sexp ι α → Nat
  | atom _ => 1
  | nil => 1
  | pair _ head tail => 1 + head.size + tail.size

def isNil : Sexp ι α → Bool
  | nil => true
  | _ => false

def isPair : Sexp ι α → Bool
  | pair .. => true
  | _ => false

/-- Walks along the tails, adding the heads to those found before, latest first. -/
def spineFrom (found : List (Sexp ι α)) : Sexp ι α → List (Sexp ι α) × Sexp ι α
  | pair _ head tail => spineFrom (head :: found) tail
  | last => (found.reverse, last)

/-- The heads along the tails, and what ends the chain. -/
def spine (s : Sexp ι α) : List (Sexp ι α) × Sexp ι α :=
  spineFrom [] s

/-- The elements of a proper list. -/
def toList? (s : Sexp ι α) : Option (List (Sexp ι α)) :=
  match s.spine with
  | (items, nil) => some items
  | _ => none

def length? (s : Sexp ι α) : Option Nat :=
  s.toList?.map List.length

theorem spineFrom_eq (found : List (Sexp ι α)) (s : Sexp ι α) :
    s.spineFrom found = (found.reverse ++ s.spine.1, s.spine.2) := by
  unfold spine
  induction s generalizing found with
  | atom a => simp [spineFrom]
  | nil => simp [spineFrom]
  | pair _ head tail _ ih =>
    simp only [spineFrom]
    rw [ih, ih [head]]
    simp

@[simp] theorem spine_atom (a : α) : (atom a : Sexp ι α).spine = ([], atom a) := rfl

@[simp] theorem spine_nil : (nil : Sexp ι α).spine = ([], nil) := rfl

@[simp] theorem spine_pair (label : ι) (head tail : Sexp ι α) :
    (pair label head tail).spine = (head :: tail.spine.1, tail.spine.2) := by
  rw [spine, spineFrom, spineFrom_eq]
  simp

/-- Part of a text still to be written: a whole expression, or the remainder of a list whose opening
parenthesis and at least one element are written already. -/
inductive Piece (ι α : Type) where
  | whole (s : Sexp ι α)
  | remainder (s : Sexp ι α)

def Piece.size : Piece ι α → Nat
  | .whole s => s.size
  | .remainder s => s.size

def Piece.total : List (Piece ι α) → Nat
  | [] => 0
  | piece :: more => piece.size + Piece.total more

/-- Writes pieces one after the other behind what is written already. -/
def write (atomText : α → String) (out : String) (pieces : List (Piece ι α)) : String :=
  match pieces with
  | [] => out
  | .whole (atom a) :: more => write atomText (out ++ atomText a) more
  | .whole nil :: more => write atomText (out ++ "()") more
  | .whole (pair _ head tail) :: more =>
    write atomText (out ++ "(") (.whole head :: .remainder tail :: more)
  | .remainder (atom a) :: more => write atomText (out ++ " . " ++ atomText a ++ ")") more
  | .remainder nil :: more => write atomText (out ++ ")") more
  | .remainder (pair _ head tail) :: more =>
    write atomText (out ++ " ") (.whole head :: .remainder tail :: more)
termination_by Piece.total pieces
decreasing_by
  all_goals
    simp only [Piece.total, Piece.size, size]
    omega

/-- The text of an expression in list notation, given the text of its atoms. -/
def text (atomText : α → String) (s : Sexp ι α) : String :=
  write atomText "" [.whole s]

end Sexp

end SmallScheme
