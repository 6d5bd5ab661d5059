import SmallScheme.Value.Basic

/-!
# Data as values

A datum becomes a value by giving each of its pairs a label of its own. The labels are consecutive, and a
pair is labelled before its parts. `embed_eq` describes the value by recursion on the datum.
-/

namespace SmallScheme.Datum

/-- A pair of which one part is still to be built. -/
inductive Unfinished where
  | awaitingHead (label : Label) (tail : Datum)
  | awaitingTail (label : Label) (head : Value)

def Unfinished.size : Unfinished → Nat
  | .awaitingHead _ tail => tail.size
  | .awaitingTail _ _ => 0

/-- The number of nodes that unfinished pairs leave to be built. -/
def Unfinished.total : List Unfinished → Nat
  | [] => 0
  | u :: outer => u.size + Unfinished.total outer

/-- Hands a finished value to the unfinished pairs around it, up to the next datum to build. -/
def finish (v : Value) : List Unfinished → Value ⊕ (Datum × List Unfinished)
  | [] => .inl v
  | .awaitingHead label tail :: outer => .inr (tail, .awaitingTail label v :: outer)
  | .awaitingTail label head :: outer => finish (.pair label head v) outer

theorem size_finish {v : Value} {outer rest : List Unfinished} {d : Datum}
    (h : finish v outer = .inr (d, rest)) :
    d.size + Unfinished.total rest = Unfinished.total outer := by
  induction outer generalizing v with
  | nil => simp [finish] at h
  | cons u outer ih =>
    cases u with
    | awaitingHead label tail =>
      simp only [finish, Sum.inr.injEq, Prod.mk.injEq] at h
      simp [← h.1, ← h.2, Unfinished.total, Unfinished.size]
    | awaitingTail label head => simpa [Unfinished.total, Unfinished.size] using ih h

/-- Builds a datum inside unfinished pairs: the whole value, and the next label not in use. -/
def embedWithin (next : Label) (d : Datum) (outer : List Unfinished) : Value × Label :=
  match d with
  | .pair _ head tail => embedWithin (next + 1) head (.awaitingHead next tail :: outer)
  | .nil =>
    match h : finish .nil outer with
    | .inl v => (v, next)
    | .inr (d, outer') =>
      have := size_finish h
      embedWithin next d outer'
  | .atom a =>
    match h : finish (.atom (.literal a)) outer with
    | .inl v => (v, next)
    | .inr (d, outer') =>
      have := size_finish h
      embedWithin next d outer'
termination_by d.size + Unfinished.total outer
decreasing_by
  all_goals
    simp only [Unfinished.total, Sexp.size, Unfinished.size]
    omega

/-- The value of a datum, its pairs labelled from `next` on, and the next label not in use. -/
def embed (next : Label) (d : Datum) : Value × Label :=
  embedWithin next d []

/-! ## By recursion on the datum -/

/-- The value of a datum with its pairs labelled from `next` on, and the next label not in use. -/
def labelled (next : Label) : Datum → Value × Label
  | .atom a => (.atom (.literal a), next)
  | .nil => (.nil, next)
  | .pair _ head tail =>
    let front := labelled (next + 1) head
    let back := labelled front.2 tail
    (.pair next front.1 back.1, back.2)

/-- What is left to do once a value is finished. -/
def resume (next : Label) : Value ⊕ (Datum × List Unfinished) → Value × Label
  | .inl v => (v, next)
  | .inr (d, outer) => embedWithin next d outer

theorem embedWithin_eq (next : Label) (d : Datum) (outer : List Unfinished) :
    embedWithin next d outer = resume (labelled next d).2 (finish (labelled next d).1 outer) := by
  induction d generalizing next outer with
  | atom a =>
    rw [embedWithin, labelled]
    split
    · next v h => exact (congrArg (resume next) h).symm
    · next d outer' h => exact (congrArg (resume next) h).symm
  | nil =>
    rw [embedWithin, labelled]
    split
    · next v h => exact (congrArg (resume next) h).symm
    · next d outer' h => exact (congrArg (resume next) h).symm
  | pair label head tail ihHead ihTail =>
    rw [embedWithin, ihHead, finish, resume, ihTail, finish]
    rfl

theorem embed_eq (next : Label) (d : Datum) : d.embed next = labelled next d := by
  rw [embed, embedWithin_eq]
  rfl

end SmallScheme.Datum
