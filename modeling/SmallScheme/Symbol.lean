import SmallScheme.Text.Quoted
import SmallScheme.Text.Upper

/-!
# Symbols

A symbol is a name in upper case. Within one program two symbols are the same exactly when their names
are, so evaluation needs nothing but the name. A symbol table makes the bookkeeping explicit: it lists
the distinct names in the order of their first use, and hands out one entry for each.
-/

namespace SmallScheme

/-- A symbol, known by its upper-case name. -/
structure Symbol where
  name : String
  deriving DecidableEq, Repr, Inhabited

namespace Symbol

/-- The symbol that a name denotes, whatever the case of its letters. -/
def ofName (name : String) : Symbol :=
  ⟨Text.upper name⟩

end Symbol

/-- The distinct symbols in use, in the order of their first use. -/
structure SymbolTable where
  /-- Tells the entries of one table from those of another. -/
  key : Nat
  symbols : Array Symbol := #[]

namespace SymbolTable

/-- A symbol as one particular table holds it. -/
structure Entry where
  table : Nat
  slot : Nat
  symbol : Symbol
  deriving DecidableEq, Repr

def size (t : SymbolTable) : Nat :=
  t.symbols.size

/-- The entry of a symbol, which is added at the end if it is new. -/
def enter (t : SymbolTable) (s : Symbol) : Entry × SymbolTable :=
  match t.symbols.findIdx? (· == s) with
  | some slot => (⟨t.key, slot, s⟩, t)
  | none => (⟨t.key, t.symbols.size, s⟩, { t with symbols := t.symbols.push s })

def intern (t : SymbolTable) (name : String) : Entry × SymbolTable :=
  t.enter (.ofName name)

/-- A label followed by quoted names in parentheses; the bare label if there are none. -/
def labelled (label : String) (symbols : List Symbol) : String :=
  if symbols.isEmpty then label
  else label ++ "(" ++ ", ".intercalate (symbols.map fun s => Text.quoted s.name) ++ ")"

def text (t : SymbolTable) : String :=
  labelled "SymbolTable" t.symbols.toList

end SymbolTable

end SmallScheme
