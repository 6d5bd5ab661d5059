import SmallScheme.Error
import SmallScheme.Text.Class
import SmallScheme.Token.Basic

/-!
# String literals

The inside of a string literal is a sequence of elements: plain characters and escapes. Each element is
decoded on its own; a malformed escape spoils the literal but does not end it, so the closing quotation
mark is found in any case.
-/

namespace SmallScheme.StringLiteral

open Text

/-- What one element of a literal stands for. -/
inductive Element where
  | char (c : Char)
  | malformed (escape : String)
  deriving DecidableEq, Repr

/-- The character with a code written in hexadecimal, if the code is a Unicode scalar value. -/
def scalar? (digits : List Char) : Option Char :=
  (hexNumber? digits).bind fun n => if n.isValidChar then some (Char.ofNat n) else none

/-- The character named by the inside of a braced escape: one to eight hexadecimal digits. -/
def braced? (digits : List Char) : Option Char :=
  if digits.isEmpty || 8 < digits.length then none else scalar? digits

/-- A decoded character, or else the escape as it was written. -/
def Element.ofChar? (c? : Option Char) (escape : List Char) : Element :=
  match c? with
  | some c => .char c
  | none => .malformed (String.ofList escape)

/-- The control characters with an escape of one letter. -/
def control? : Char → Option Char
  | 'n' => some '\n'
  | 't' => some '\t'
  | 'r' => some '\r'
  | 'a' => some '\x07'
  | 'e' => some '\x1b'
  | '0' => some '\x00'
  | _ => none

/-- The element after a backslash: its meaning, the characters it takes up, and the rest. There is none
if the text ends inside it. -/
def escaped? : List Char → Option (Element × List Char × List Char)
  | [] => none
  | 'x' :: a :: b :: rest =>
    some (.ofChar? (scalar? [a, b]) ['\\', 'x', a, b], ['x', a, b], rest)
  | 'x' :: _ => none
  | '\x7b' :: cs =>
    let digits := cs.takeWhile (· != '\x7d')
    match cs.dropWhile (· != '\x7d') with
    | [] => none
    | close :: rest =>
      let written := '\x7b' :: (digits ++ [close])
      some (.ofChar? (braced? digits) ('\\' :: written), written, rest)
  | c :: rest => some (.char ((control? c).getD c), [c], rest)

/-- The element at the front of a non-empty text: its meaning, the characters it takes up, and the
rest. There is none if the text ends inside it. -/
def element? : List Char → Option (Element × List Char × List Char)
  | [] => none
  | '\\' :: cs => (escaped? cs).map fun (e, written, rest) => (e, '\\' :: written, rest)
  | c :: rest => some (.char c, [c], rest)

theorem escaped?_length {cs written rest : List Char} {e : Element}
    (h : escaped? cs = some (e, written, rest)) : rest.length < cs.length := by
  unfold escaped? at h
  split at h
  · simp at h
  · simp at h; simp [← h.2.2]; omega
  · simp at h
  · next cs =>
    have hle := (List.dropWhile_sublist (p := (· != '\x7d')) (l := cs)).length_le
    simp only at h
    split at h
    · simp at h
    · next _ _ heq => simp at h; rw [heq] at hle; simp [← h.2.2] at *; omega
  · simp at h; simp [← h.2.2]

theorem element?_length {cs written rest : List Char} {e : Element}
    (h : element? cs = some (e, written, rest)) : rest.length < cs.length := by
  unfold element? at h
  split at h
  · simp at h
  · next cs =>
    simp only [Option.map_eq_some_iff, Prod.mk.injEq] at h
    obtain ⟨⟨e', w', r'⟩, hr, h⟩ := h
    have := escaped?_length hr
    simp only [← h.2.2, List.length_cons]
    omega
  · simp at h; simp [← h.2.2]

/-- What the scan of a literal has found so far, latest first. -/
structure Progress where
  decoded : List Char := []
  malformed : Option String := none
  written : List Char := []

def Progress.add (p : Progress) (e : Element) (written : List Char) : Progress :=
  let p := { p with written := written.reverse ++ p.written }
  match e with
  | .char c => { p with decoded := c :: p.decoded }
  | .malformed escape => { p with malformed := p.malformed <|> some escape }

/-- The lexeme of a literal that was closed. -/
def Progress.closed (p : Progress) : Lexeme :=
  match p.malformed with
  | some escape => .illegal ("invalid escape sequence " ++ escape)
  | none => .string (String.ofList p.decoded.reverse)

/-- The lexeme of a literal that the end of the text cut off. -/
def Progress.cut (p : Progress) : Lexeme :=
  .illegal (unterminatedString ++ ": " ++ Text.quoted (String.ofList p.decoded.reverse))

/-- Scans the elements of a literal up to its closing quotation mark: the lexeme, the characters it
takes up, and the rest. -/
def scanFrom (p : Progress) (cs : List Char) : Lexeme × List Char × List Char :=
  match cs with
  | '"' :: rest => (p.closed, ('"' :: p.written).reverse, rest)
  | cs =>
    match h : element? cs with
    | some (e, written, rest) =>
      have := element?_length h
      scanFrom (p.add e written) rest
    | none => (p.cut, p.written.reverse ++ cs, [])
termination_by cs.length

theorem scanFrom_length (p : Progress) (cs : List Char) :
    (scanFrom p cs).2.2.length ≤ cs.length := by
  fun_induction scanFrom p cs with
  | case1 => simp
  | case2 p cs _ e written rest _ hlt ih => omega
  | case3 => simp

/-- Scans a literal whose opening quotation mark has been taken off. -/
def scan (cs : List Char) : Lexeme × List Char × List Char :=
  scanFrom {} cs

end SmallScheme.StringLiteral
