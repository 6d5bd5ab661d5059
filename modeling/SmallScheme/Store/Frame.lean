import SmallScheme.Value.Basic

/-!
# Frames of bindings

A frame binds symbols to values and names the frame around it. Its bindings are kept in the order of
their names, one for each name, and binding a name again replaces its value.
-/

namespace SmallScheme

/-- Bindings in strictly increasing order of their names. -/
abbrev Bindings := List (Symbol × Value)

namespace Bindings

/-- Binds a symbol, replacing an earlier binding of it. -/
def insert (s : Symbol) (v : Value) : Bindings → Bindings
  | [] => [(s, v)]
  | (t, w) :: rest =>
    if s.name = t.name then (s, v) :: rest
    else if s.name < t.name then (s, v) :: (t, w) :: rest
    else (t, w) :: insert s v rest

def get? (b : Bindings) (s : Symbol) : Option Value :=
  b.lookup s

/-- Binds symbols to values one after the other, so that the last binding of a symbol counts. -/
def insertAll (b : Bindings) (pairs : List (Symbol × Value)) : Bindings :=
  pairs.foldl (fun b (s, v) => b.insert s v) b

theorem get?_cons (s t : Symbol) (v : Value) (rest : Bindings) :
    get? ((s, v) :: rest) t = if t = s then some v else get? rest t := by
  unfold get?
  rw [List.lookup_cons]
  by_cases h : t = s
  · simp [h]
  · rw [if_neg h, beq_eq_false_iff_ne.mpr h]

/-- A symbol that is bound has its new value, and all others the values they had. -/
theorem get?_insert (b : Bindings) (s t : Symbol) (v : Value) :
    get? (b.insert s v) t = if t = s then some v else b.get? t := by
  induction b with
  | nil => exact get?_cons s t v []
  | cons entry rest ih =>
    obtain ⟨u, w⟩ := entry
    rw [insert]
    split
    · next hname =>
      obtain rfl : s = u := by
        cases s
        exact congrArg Symbol.mk hname
      rw [get?_cons, get?_cons]
      by_cases h : t = s <;> simp [h]
    · next hname =>
      split
      · exact get?_cons s t v _
      · rw [get?_cons, ih, get?_cons]
        by_cases h : t = u
        · subst h
          have hne : t ≠ s := fun heq => hname (by rw [heq])
          rw [if_pos rfl, if_neg hne, if_pos rfl]
        · rw [if_neg h, if_neg h]

theorem mem_insert {b : Bindings} {s : Symbol} {v : Value} {entry : Symbol × Value}
    (h : entry ∈ b.insert s v) : entry = (s, v) ∨ entry ∈ b := by
  induction b with
  | nil => exact .inl (List.mem_singleton.mp h)
  | cons first rest ih =>
    rw [insert] at h
    split at h
    · rcases List.mem_cons.mp h with h | h
      · exact .inl h
      · exact .inr (List.mem_cons_of_mem first h)
    · split at h
      · exact List.mem_cons.mp h
      · rcases List.mem_cons.mp h with rfl | h
        · exact .inr List.mem_cons_self
        · exact (ih h).imp_right (List.mem_cons_of_mem first)

theorem mem_insertAll {b : Bindings} {pairs : List (Symbol × Value)} {entry : Symbol × Value}
    (h : entry ∈ b.insertAll pairs) : entry ∈ pairs ∨ entry ∈ b := by
  unfold insertAll at h
  induction pairs generalizing b with
  | nil => exact .inr h
  | cons pair pairs ih =>
    rcases ih h with h | h
    · exact .inl (List.mem_cons_of_mem pair h)
    · rcases mem_insert h with rfl | h
      · exact .inl List.mem_cons_self
      · exact .inr h

theorem mem_of_get? {b : Bindings} {s : Symbol} {v : Value} (h : b.get? s = some v) :
    (s, v) ∈ b := by
  obtain ⟨before, after, rfl, -⟩ := List.lookup_eq_some_iff.mp h
  simp

end Bindings

/-- Bindings and the frame around them; the outermost frame has none. -/
structure Frame where
  parent : Option FrameId
  bindings : Bindings := []

namespace Frame

/-- A frame inside `parent` that binds each parameter to the argument at its place. -/
def ofArguments (parent : FrameId) (params : List Symbol) (args : List Value) :
    Except Error Frame :=
  if params.length = args.length then .ok ⟨some parent, Bindings.insertAll [] (params.zip args)⟩
  else .error ⟨.arityMismatch (.exactly params.length) args.length, none⟩

/-- The frame of a call lies inside the parent and binds arguments. -/
theorem ofArguments_eq_ok {parent : FrameId} {params : List Symbol} {args : List Value}
    {frame : Frame} (h : ofArguments parent params args = .ok frame) :
    frame.parent = some parent ∧ ∀ entry ∈ frame.bindings, entry.2 ∈ args := by
  unfold ofArguments at h
  split at h
  · cases h
    refine ⟨rfl, fun entry he => ?_⟩
    rcases Bindings.mem_insertAll he with he | he
    · exact (List.of_mem_zip he).2
    · cases he
  · cases h

def get? (f : Frame) (s : Symbol) : Option Value :=
  f.bindings.get? s

def binds (f : Frame) (s : Symbol) : Bool :=
  (f.get? s).isSome

def bind (f : Frame) (s : Symbol) (v : Value) : Frame :=
  { f with bindings := f.bindings.insert s v }

def text (f : Frame) : String :=
  SymbolTable.labelled "RsiEnv" (f.bindings.map Prod.fst)

end Frame

end SmallScheme
