import SmallScheme.Store.Frame
import SmallScheme.Value.Embed

/-!
# The store

All frames ever made, in the order of their creation, and the next label for a pair or a closure. A
frame is never removed, and its parent was there before it, so every chain of parents ends.
-/

namespace SmallScheme

/-- The frames in use and the next free label. -/
structure Store where
  frames : Array Frame := #[]
  nextLabel : Label := 0

namespace Store

def addFrame (st : Store) (frame : Frame) : FrameId × Store :=
  (st.frames.size, { st with frames := st.frames.push frame })

/-- Adds an empty frame inside another, or an outermost one. -/
def newFrame (st : Store) (parent : Option FrameId) : FrameId × Store :=
  st.addFrame ⟨parent, []⟩

/-- Adds a frame that binds each parameter to the argument at its place. -/
def extend (st : Store) (params : List Symbol) (args : List Value) (parent : FrameId) :
    Except Error (FrameId × Store) :=
  (Frame.ofArguments parent params args).map st.addFrame

/-- Binds a symbol in one frame. -/
def bind (st : Store) (f : FrameId) (s : Symbol) (v : Value) : Store :=
  { st with frames := st.frames.modify f (·.bind s v) }

/-- Binding a symbol changes one frame at most. -/
theorem frames_bind {st : Store} {f g : FrameId} {s : Symbol} {v : Value} {frame : Frame}
    (h : (st.bind f s v).frames[g]? = some frame) :
    st.frames[g]? = some frame ∨ ∃ old, st.frames[g]? = some old ∧ frame = old.bind s v := by
  have hmodify : (st.frames.modify f (·.bind s v))[g]? = some frame := h
  rw [Array.getElem?_modify] at hmodify
  split at hmodify
  · obtain ⟨old, hold, rfl⟩ := Option.map_eq_some_iff.mp hmodify
    exact .inr ⟨old, hold, rfl⟩
  · exact .inl hmodify

def parent (st : Store) (f : FrameId) : Option FrameId :=
  st.frames[f]?.bind Frame.parent

def bindings (st : Store) (f : FrameId) : Bindings :=
  (st.frames[f]?.map Frame.bindings).getD []

/-- The symbol is bound in the frame itself. -/
def binds (st : Store) (f : FrameId) (s : Symbol) : Bool :=
  st.frames[f]?.any (·.binds s)

/-- The value of a symbol in the innermost frame that binds it, from a frame outward. -/
def get? (st : Store) (f : FrameId) (s : Symbol) : Option Value :=
  match st.frames[f]? with
  | none => none
  | some frame =>
    match frame.get? s with
    | some v => some v
    | none =>
      match frame.parent with
      | some p => if p < f then st.get? p s else none
      | none => none
termination_by f

/-- The value of a symbol, from a frame outward; to ask for an unbound symbol is a failure. -/
def lookup (st : Store) (f : FrameId) (s : Symbol) : Except Error Value :=
  match st.get? f s with
  | some v => .ok v
  | none => .error ⟨.unboundSymbol s.name, none⟩

/-- The innermost frame that binds a symbol, or the outermost frame if none does. -/
def owner (st : Store) (f : FrameId) (s : Symbol) : FrameId :=
  match st.frames[f]? with
  | none => f
  | some frame =>
    if frame.binds s then f
    else
      match frame.parent with
      | some p => if p < f then st.owner p s else f
      | none => f
termination_by f

def cons (st : Store) (head tail : Value) : Value × Store :=
  (.pair st.nextLabel head tail, { st with nextLabel := st.nextLabel + 1 })

/-- Makes pairs that put the items, given last first, in front of a tail. -/
def consReversed (st : Store) (items : List Value) (tail : Value) : Value × Store :=
  items.foldl (fun (tail, st) item => st.cons item tail) (tail, st)

def list (st : Store) (items : List Value) : Value × Store :=
  st.consReversed items.reverse .nil

def closure (st : Store) (params : List Symbol) (body : List Value) (frame : FrameId) :
    Value × Store :=
  (.atom (.closure st.nextLabel params body frame), { st with nextLabel := st.nextLabel + 1 })

def embed (st : Store) (d : Datum) : Value × Store :=
  let (v, next) := d.embed st.nextLabel
  (v, { st with nextLabel := next })

end Store

end SmallScheme
