import SmallScheme.Text.ClusterClass

/-!
# Clusters

A text is divided into clusters, the runs of characters that a reader sees as one. Whether a character
belongs to the cluster before it depends on its class, on the class of the character before it, and, for
pictures, flags and conjuncts, on what led up to there. Every character belongs to one cluster.
-/

namespace SmallScheme.Text

/-- How far a combined picture has come; it is `joined` behind a joiner. -/
inductive PictureState where
  | none
  | whole
  | joined
  deriving DecidableEq, Repr

/-- How far a conjunct of consonants has come; it is `linked` behind a linker. -/
inductive ConjunctState where
  | none
  | whole
  | linked
  deriving DecidableEq, Repr

/-- What the characters before a place mean for the one after it. -/
structure ClusterContext where
  last : ClusterClass := .lineFeed
  picture : PictureState := .none
  conjunct : ConjunctState := .none
  /-- The characters before end in an odd number of flag letters. -/
  isHalfFlag : Bool := false

namespace ClusterClass

/-- A control character or an end of line, which no cluster shares with others. -/
def isBreak (k : ClusterClass) : Bool :=
  k == carriageReturn || k == lineFeed || k == control

/-- The second class goes on with the syllable of the first. -/
def continuesSyllable : ClusterClass → ClusterClass → Bool
  | leading, k => k == leading || k == vowel || k == openSyllable || k == closedSyllable
  | openSyllable, k | vowel, k => k == vowel || k == trailing
  | closedSyllable, k | trailing, k => k == trailing
  | _, _ => false

/-- The class belongs to whatever comes before it. -/
def attaches (k : ClusterClass) : Bool :=
  k == extend || k == joiner || k == spacing

end ClusterClass

namespace ClusterContext

def joins (ctx : ClusterContext) (k : ClusterClass) : Bool :=
  if ctx.last.isBreak || k.isBreak then ctx.last == .carriageReturn && k == .lineFeed
  else k.attaches || ctx.last == .prepend || ctx.last.continuesSyllable k ||
    (k == .pictograph && ctx.picture == .joined) || (k == .regional && ctx.isHalfFlag) ||
    (k == .consonant && ctx.conjunct == .linked)

/-- The state of a combined picture after one more character. -/
def nextPicture (s : PictureState) : ClusterClass → PictureState
  | .pictograph => .whole
  | .extend => if s = .whole then .whole else .none
  | .joiner => if s = .whole then .joined else .none
  | _ => .none

/-- The state of a conjunct after one more character. The non-joiner ends it. -/
def nextConjunct (s : ConjunctState) (c : Char) (k : ClusterClass) : ConjunctState :=
  if k == .consonant then .whole
  else if isLinker c then (if s = .none then .none else .linked)
  else if (k == .extend && c != '\u200c') || k == .joiner then s
  else .none

def push (ctx : ClusterContext) (c : Char) (k : ClusterClass) : ClusterContext :=
  { last := k
    picture := nextPicture ctx.picture k
    conjunct := nextConjunct ctx.conjunct c k
    isHalfFlag := k == .regional && !ctx.isHalfFlag }

end ClusterContext

/-- Divides a text after the clusters found before and the characters of the current one, both latest
first. -/
def clustersFrom (found : List (List Char)) (current : List Char) (ctx : ClusterContext) :
    List Char → List (List Char)
  | [] => (current.reverse :: found).reverse
  | c :: cs =>
    let k := ClusterClass.of c
    if ctx.joins k then clustersFrom found (c :: current) (ctx.push c k) cs
    else clustersFrom (current.reverse :: found) [c] (ctx.push c k) cs

def clusters : List Char → List (List Char)
  | [] => []
  | c :: cs => clustersFrom [] [c] (({} : ClusterContext).push c (.of c)) cs

theorem flatten_clustersFrom (found : List (List Char)) (current : List Char)
    (ctx : ClusterContext) (cs : List Char) :
    (clustersFrom found current ctx cs).flatten =
      found.reverse.flatten ++ current.reverse ++ cs := by
  induction cs generalizing found current ctx with
  | nil => simp [clustersFrom]
  | cons c cs ih =>
    simp only [clustersFrom]
    split <;> rw [ih] <;> simp

/-- Nothing is lost and nothing is moved. -/
theorem flatten_clusters (cs : List Char) : (clusters cs).flatten = cs := by
  cases cs with
  | nil => rfl
  | cons c cs => simp [clusters, flatten_clustersFrom]

end SmallScheme.Text
