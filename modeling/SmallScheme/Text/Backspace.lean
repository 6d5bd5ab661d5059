import SmallScheme.Text.Cluster

/-!
# Backspaces

A line that was typed may hold backspaces, each of which takes back what was typed last. The unit is the
cluster. Of each cluster the number of its bytes is remembered in a single byte, so a backspace after a
cluster of 256 bytes or more takes back the remainder only.
-/

namespace SmallScheme.Text

/-- The characters that were typed and the remembered sizes of their clusters, both latest first. -/
structure Typed where
  chars : List Char := []
  sizes : List Nat := []

namespace Typed

def byteSize (cs : List Char) : Nat :=
  cs.foldl (fun n c => n + c.utf8Size) 0

/-- Takes back as many bytes of characters, given latest first, as make up whole characters. -/
def takeBack (n : Nat) : List Char → List Char
  | [] => []
  | c :: cs => if c.utf8Size ≤ n then takeBack (n - c.utf8Size) cs else c :: cs

/-- Types one more cluster. -/
def strike (t : Typed) (cluster : List Char) : Typed :=
  if cluster = ['\x08'] then
    match t.sizes with
    | [] => t
    | n :: sizes => ⟨takeBack n t.chars, sizes⟩
  else ⟨cluster.reverse ++ t.chars, byteSize cluster % 256 :: t.sizes⟩

end Typed

/-- A line as it was meant. -/
def applyBackspaces (line : String) : String :=
  String.ofList ((clusters line.toList).foldl Typed.strike {}).chars.reverse

end SmallScheme.Text
