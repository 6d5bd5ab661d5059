import SmallScheme.Proofs.Confinement

/-!
# The store over time

`Session.operations_keep_store`: what holds of the store of a session after any sequence of operations on
its frames and evaluations.

1. A well-formed store has parents older than their children, and its values hold frames that exist
   (`Store.WellFormed`). In such a store every chain of parents ends (`WellFormed.exists_hasRoot`), and the
   search for a symbol goes outward one frame at a time until it ends (`WellFormed.search_owner`).
2. Reading and evaluating a text is confined like evaluation (`Session.runTokens_confined`), and so is
   every operation but one that adds an outermost frame (`Session.perform_confined`). An operation on frames
   that exist therefore keeps the store well-formed (`Session.perform_keeps`).
3. By induction on the operations, the frames live on and all that was returned holds frames that exist
   (`Session.performAll_keeps`).
-/

namespace SmallScheme

namespace Store

/-! ## Well-formed stores -/

/-- The frames of a store. -/
def existing (st : Store) : Set FrameId := {f : Nat | f < st.frames.size}

theorem mem_existing {st : Store} {f : Nat} : f ∈ st.existing ↔ f < st.frames.size := Iff.rfl

/-- Every parent was there before its child, and every closure was made in a frame that exists. -/
structure WellFormed (st : Store) : Prop where
  parent_lt : ∀ f p : Nat, st.parent f = some p → p < f
  captured : ∀ f name v g, (name, v) ∈ st.bindings f → v.Captures g → g ∈ st.existing

/-- The outermost frame around a frame. -/
inductive HasRoot (st : Store) : FrameId → FrameId → Prop where
  | outermost {f} (hf : f ∈ st.existing) (hp : st.parent f = none) : HasRoot st f f
  | inner {f p root} (hp : st.parent f = some p) (h : HasRoot st p root) : HasRoot st f root

/-- The search for a symbol from a frame outward ends at the first frame that binds it, or else at the
outermost one. -/
inductive Search (st : Store) (name : Symbol) : FrameId → FrameId → Prop where
  | found {f} (h : st.binds f name = true) : Search st name f f
  | outermost {f} (h : st.binds f name = false) (hp : st.parent f = none) : Search st name f f
  | outward {f p g} (h : st.binds f name = false) (hp : st.parent f = some p)
      (hs : Search st name p g) : Search st name f g

variable {S : Set FrameId} {st st' : Store}

theorem mem_existing_of_parent {f p : FrameId} (h : st.parent f = some p) : f ∈ st.existing := by
  obtain ⟨frame, hframe, -⟩ := Option.bind_eq_some_iff.mp h
  exact (Array.getElem?_eq_some_iff.mp hframe).1

theorem mem_existing_of_binding {f : FrameId} {entry : Symbol × Value} (h : entry ∈ st.bindings f) :
    f ∈ st.existing := by
  by_contra hf
  rw [bindings, Array.getElem?_eq_none (Nat.not_lt.mp hf)] at h
  cases h

theorem WellFormed.closed (h : st.WellFormed) : st.Closed st.existing := by
  intro f _ frame hframe
  constructor
  · intro p hp
    have hparent : st.parent f = some p := by
      rw [parent, hframe]
      exact hp
    have hlt : p < f := h.parent_lt f p hparent
    exact hlt.trans (mem_existing_of_parent hparent)
  · rintro ⟨name, v⟩ he g hg
    refine h.captured f name v g ?_ hg
    rw [bindings, hframe]
    exact he

/-- A chain of parents ends. -/
theorem WellFormed.exists_hasRoot (h : st.WellFormed) {f : Nat} (hf : f ∈ st.existing) :
    ∃ root, st.HasRoot f root := by
  induction f using Nat.strongRecOn with
  | ind f ih =>
  cases hp : st.parent f with
  | none => exact ⟨f, .outermost hf hp⟩
  | some p =>
    have hlt : p < f := h.parent_lt f p hp
    obtain ⟨root, hroot⟩ := ih p hlt (hlt.trans hf)
    exact ⟨root, .inner hp hroot⟩

/-- A chain of parents does not come back. -/
theorem WellFormed.acyclic (h : st.WellFormed) (f : FrameId) :
    ¬Relation.TransGen (fun g p => st.parent g = some p) f f := by
  have hlt : ∀ g : Nat, Relation.TransGen (fun g p => st.parent g = some p) f g → g < f := by
    intro g hg
    induction hg with
    | single hp => exact h.parent_lt _ _ hp
    | tail _ hp ih => exact (h.parent_lt _ _ hp).trans ih
  exact fun hcycle => (hlt f hcycle).false

/-- The owner of a symbol is where the search for it ends, and its value is the one bound there. -/
theorem WellFormed.search_owner (h : st.WellFormed) {f : Nat} (hf : f ∈ st.existing)
    (name : Symbol) :
    st.Search name f (st.owner f name) ∧
      st.get? f name = (st.bindings (st.owner f name)).get? name := by
  induction f using Nat.strongRecOn with
  | ind f ih =>
  obtain ⟨frame, hframe⟩ : ∃ frame, st.frames[f]? = some frame :=
    ⟨_, Array.getElem?_eq_getElem hf⟩
  have hparent : st.parent f = frame.parent := by
    rw [parent, hframe]
    rfl
  have hbinds : st.binds f name = frame.binds name := by
    rw [binds, hframe]
    rfl
  have hbindings : st.bindings f = frame.bindings := by
    rw [bindings, hframe]
    rfl
  rw [owner, get?, hframe]
  dsimp only
  cases hv : frame.get? name with
  | some v =>
    have hb : frame.binds name = true := by
      rw [Frame.binds, hv]
      rfl
    rw [if_pos hb]
    refine ⟨.found (hbinds.trans hb), ?_⟩
    rw [hbindings]
    exact hv.symm
  | none =>
    have hb : frame.binds name = false := by
      rw [Frame.binds, hv]
      rfl
    rw [if_neg (by rw [hb]; exact Bool.false_ne_true)]
    cases hp : frame.parent with
    | none =>
      refine ⟨.outermost (hbinds.trans hb) (hparent.trans hp), ?_⟩
      rw [hbindings]
      exact hv.symm
    | some p =>
      have hlt : p < f := h.parent_lt f p (hparent.trans hp)
      obtain ⟨hsearch, hvalue⟩ := ih p hlt (hlt.trans hf)
      dsimp only
      rw [if_pos hlt, if_pos hlt]
      exact ⟨.outward (hbinds.trans hb) (hparent.trans hp) hsearch, hvalue⟩

theorem HasRoot.outermost_root {f root : FrameId} (h : st.HasRoot f root) :
    root ∈ st.existing ∧ st.parent root = none := by
  induction h with
  | outermost hf hp => exact ⟨hf, hp⟩
  | inner _ _ ih => exact ih

/-! ## Stores that grow -/

theorem existing_union_created (h : st.frames.size ≤ st'.frames.size) :
    st.existing ∪ st.created st' = st'.existing := by
  ext f
  simp only [Set.mem_union, mem_existing, mem_created]
  omega

theorem Grows.existing_subset (h : st.Grows st') : st.existing ⊆ st'.existing :=
  fun _ hf => lt_of_lt_of_le hf h.size_le

/-- A store stays well-formed as it grows, if the new frames are younger than their parents and all frames
hold frames that exist. -/
theorem WellFormed.of_grows (h : st.WellFormed) (hgrows : st.Grows st')
    (hparent : ∀ f p : Nat, f ∈ st.created st' → st'.parent f = some p → p < f)
    (hclosed : st'.Closed st'.existing) : st'.WellFormed := by
  refine ⟨fun f p hp => ?_, fun f name v g hb hg => ?_⟩
  · by_cases hf : f < st.frames.size
    · rw [hgrows.parent_eq f hf] at hp
      exact h.parent_lt f p hp
    · exact hparent f p ⟨Nat.not_lt.mp hf, mem_existing_of_parent hp⟩ hp
  · exact hclosed.link (mem_existing_of_binding hb) (.binding hb hg)

theorem Effect.parent_lt (h : st.Effect st.existing st') {f p : Nat} (hf : f ∈ st.created st')
    (hp : st'.parent f = some p) : p < f := by
  obtain ⟨q, hq, hold | hnew⟩ := h.parent_created f hf
  · cases hp.symm.trans hq
    exact lt_of_lt_of_le hold hf.1
  · cases hp.symm.trans hq
    exact hnew.2

/-- Evaluation creates no outermost frame. -/
theorem Effect.outermost (h : st.Effect S st') {f : Nat} (hf : f ∈ st'.existing)
    (hp : st'.parent f = none) : f ∈ st.existing ∧ st.parent f = none := by
  by_cases hold : f < st.frames.size
  · rw [h.parent_eq f hold] at hp
    exact ⟨hold, hp⟩
  · obtain ⟨p, hparent, -⟩ := h.parent_created f ⟨Nat.not_lt.mp hold, hf⟩
    rw [hp] at hparent
    cases hparent

/-- An empty outermost frame may be added. -/
theorem WellFormed.newRoot (h : st.WellFormed) : (st.addFrame ⟨none, []⟩).2.WellFormed := by
  have hgrows : st.Grows (st.addFrame ⟨none, []⟩).2 := .addFrame st ⟨none, []⟩
  have hframe : Frame.Within st.existing ⟨none, []⟩ := by
    constructor
    · rintro p ⟨⟩
    · rintro entry ⟨⟩
  have hclosed := h.closed.addFrame hframe
  rw [existing_union_created hgrows.size_le] at hclosed
  refine h.of_grows hgrows (fun f p _ hp => ?_) hclosed
  rw [parent_addFrame] at hp
  split_ifs at hp
  exact h.parent_lt f p hp

theorem initialBindings_within {entry : Symbol × Value} (h : entry ∈ initialBindings) :
    entry.2.Within S := by
  rcases initialBindings_cases h with hnil | ⟨l, hl⟩ | ⟨p, hp⟩
  · rw [hnil]
    exact Value.within_nil
  · rw [hl]
    exact Value.within_literal l
  · rw [hp]
    exact Value.within_primitive p

theorem mem_existing_initial {f : Nat} (hf : f ∈ initial.existing) : f = globalFrame :=
  Nat.lt_one_iff.mp hf

theorem wellFormed_initial : initial.WellFormed := by
  constructor
  · intro f p hp
    cases mem_existing_initial (mem_existing_of_parent hp)
    cases hp
  · intro f name v g hb hg
    cases mem_existing_initial (mem_existing_of_binding hb)
    rcases Bindings.mem_insertAll hb with hb | hb
    · exact initialBindings_within hb g hg
    · cases hb

end Store

/-! ## Operations -/

/-- What can be done with a session from outside. -/
inductive Operation where
  /-- Adds an empty frame inside another, or an outermost one. -/
  | newFrame (parent : Option FrameId)
  /-- Adds a frame that binds parameters to arguments. -/
  | extend (params : List Symbol) (args : List Value) (parent : FrameId)
  /-- Binds a name in a frame. -/
  | bind (frame : FrameId) (name : Symbol) (v : Value)
  /-- Binds a name where the search for it from a frame ends. -/
  | assign (frame : FrameId) (name : Symbol) (v : Value)
  /-- Evaluates an expression. -/
  | eval (fuel : Nat) (exp : Value) (frame : FrameId)
  /-- Reads and evaluates a text. -/
  | run (fuel : Nat) (text : String) (frame : FrameId)

/-- The frames that an operation is given, by themselves or in closures. -/
def Operation.given : Operation → Set FrameId
  | .newFrame parent => {f | parent = some f}
  | .extend _ args parent => {f | f = parent ∨ ∃ arg ∈ args, arg.Captures f}
  | .bind frame _ v => {f | f = frame ∨ v.Captures f}
  | .assign frame _ v => {f | f = frame ∨ v.Captures f}
  | .eval _ exp frame => {f | f = frame ∨ exp.Captures f}
  | .run _ _ frame => {frame}

/-- The value of an outcome, if there is one. -/
def Outcome.value? : Outcome → Option Value
  | .value v => some v
  | .failed _ | .quit | .unfinished => none

theorem Outcome.Within.of_value? {S : Set FrameId} {out : Outcome} (h : out.Within S) {v : Value}
    (hv : out.value? = some v) : v.Within S := by
  cases out with
  | value w =>
    cases hv
    exact h
  | failed e => cases hv
  | quit => cases hv
  | unfinished => cases hv

namespace Session

/-- Performs an operation: the value that it returns, if any, and the session after it. -/
def perform (s : Session) : Operation → Option Value × Session
  | .newFrame parent => (none, { s with store := (s.store.newFrame parent).2 })
  | .extend params args parent =>
    match s.store.extend params args parent with
    | .ok (_, store) => (none, { s with store })
    | .error _ => (none, s)
  | .bind frame name v => (none, { s with store := s.store.bind frame name v })
  | .assign frame name v =>
    (none, { s with store := s.store.bind (s.store.owner frame name) name v })
  | .eval fuel exp frame =>
    let (out, s') := s.eval fuel exp frame
    (out.value?, s')
  | .run fuel text frame =>
    let (result, s') := s.run fuel text frame
    (result.value, s')

/-- Performs operations one after the other: all values that they return, and the session after them. -/
def performAll (s : Session) : List Operation → List Value × Session
  | [] => ([], s)
  | op :: ops =>
    let first := s.perform op
    let rest := first.2.performAll ops
    (first.1.toList ++ rest.1, rest.2)

/-- The frames that each operation is given exist when it is performed. -/
def Allows (s : Session) : List Operation → Prop
  | [] => True
  | op :: ops => op.given ⊆ s.store.existing ∧ (s.perform op).2.Allows ops

/-- A session came from another within a set that is closed in its store, but for the frames that were
created, and so did what was returned. -/
def Confined (S : Set FrameId) (s : Session) (result : Option Value × Session) : Prop :=
  s.store.Evolves S result.2.store fun T =>
    result.2.store.Closed T ∧ ∀ v, result.1 = some v → v.Within T

variable {S : Set FrameId} {s : Session}

theorem Confined.of_frames_eq {result : Option Value × Session}
    (heq : result.2.store.frames = s.store.frames) (hst : s.store.Closed S)
    (hv : ∀ v, result.1 = some v → v.Within S) : Confined S s result :=
  .of_size_eq (.of_frames_eq heq) (by rw [heq]) ⟨hst.of_frames_eq heq, hv⟩

/-- A datum is evaluated within the set. -/
theorem evalDatum_within {fuel : Nat} {d : Datum} {frame : FrameId} {events : List ReadEvent}
    {out : Outcome} {s' : Session} (heval : (s.noteReading events).evalDatum fuel d frame = (out, s'))
    (hframe : frame ∈ S) (hst : s.store.Closed S) : (Next.done out s'.store).Confined S s.store := by
  obtain ⟨hexp, heq⟩ := s.store.embed_within d
  have hrun := Session.eval_within fuel ⟨(s.store.embed d).2, (s.noteReading events).journal⟩ hexp
    hframe (hst.of_frames_eq heq)
  have heval' : Session.eval fuel ⟨(s.store.embed d).2, (s.noteReading events).journal⟩
      (s.store.embed d).1 frame = (out, s') := heval
  rw [heval'] at hrun
  exact .after_frames_eq heq hrun

/-- The expressions of a text are evaluated within the set, one after the other. -/
theorem runTokens_confined (fuel : Nat) {frame : FrameId} (last : Option Value) (tokens : TokenStream)
    (hframe : frame ∈ S) (hst : s.store.Closed S) (hlast : ∀ v, last = some v → v.Within S) :
    Confined S s ((runTokens fuel frame s last tokens).1.value, (runTokens fuel frame s last tokens).2) := by
  fun_induction runTokens fuel frame s last tokens generalizing S with
  | case1 => exact .of_frames_eq rfl hst hlast
  | case2 => exact .of_frames_eq rfl hst hlast
  | case3 s last tokens d events rest _ _ v s' heval ih =>
    obtain ⟨heffect, hv, hst'⟩ := evalDatum_within heval hframe hst
    refine Store.Evolves.after heffect (ih (.inl hframe) hst' ?_)
    rintro _ ⟨⟩
    exact hv
  -- The text ends early: the value is that of the expression before.
  | case4 s last tokens d events rest _ _ e s' heval =>
    obtain ⟨heffect, -, hst'⟩ := evalDatum_within heval hframe hst
    exact ⟨heffect, hst', fun v hv => (hlast v hv).mono Set.subset_union_left⟩
  | case5 s last tokens d events rest _ _ s' heval =>
    obtain ⟨heffect, -, hst'⟩ := evalDatum_within heval hframe hst
    exact ⟨heffect, hst', fun v hv => (hlast v hv).mono Set.subset_union_left⟩
  | case6 s last tokens d events rest _ _ s' heval =>
    obtain ⟨heffect, -, hst'⟩ := evalDatum_within heval hframe hst
    exact ⟨heffect, hst', fun v hv => (hlast v hv).mono Set.subset_union_left⟩

/-- An operation leaves the frames outside of a closed set alone, if it is given frames of the set and
adds no outermost frame. -/
theorem perform_confined {op : Operation} (hop : op ≠ .newFrame none) (hgiven : op.given ⊆ S)
    (hst : s.store.Closed S) : Confined S s (s.perform op) := by
  have hnone : ∀ v : Value, none = some v → v.Within S := by
    rintro v ⟨⟩
  cases op with
  | newFrame parent =>
    cases parent with
    | none => exact absurd rfl hop
    | some p =>
      have hp : p ∈ S := hgiven rfl
      refine ⟨.addFrame hp rfl, hst.addFrame ⟨?_, ?_⟩, ?_⟩
      · rintro _ ⟨⟩
        exact hp
      · rintro _ ⟨⟩
      · rintro _ ⟨⟩
  | extend params args parent =>
    have hp : parent ∈ S := hgiven (.inl rfl)
    have hargs : ∀ arg ∈ args, arg.Within S := fun arg harg f hf => hgiven (.inr ⟨arg, harg, hf⟩)
    simp only [perform, Store.extend]
    cases hframe : Frame.ofArguments parent params args with
    | error e => exact .of_frames_eq rfl hst hnone
    | ok frame =>
      obtain ⟨hwithin, hparent⟩ := Frame.ofArguments_within hframe hp hargs
      refine ⟨.addFrame hp hparent, hst.addFrame hwithin, ?_⟩
      rintro _ ⟨⟩
  | bind frame name v =>
    have hframe : frame ∈ S := hgiven (.inl rfl)
    exact .of_size_eq (.bind hframe name v) Array.size_modify
      ⟨hst.bind frame name fun f hf => hgiven (.inr hf), hnone⟩
  | assign frame name v =>
    have hframe : s.store.owner frame name ∈ S := hst.owner (hgiven (.inl rfl)) name
    exact .of_size_eq (.bind hframe name v) Array.size_modify
      ⟨hst.bind _ name fun f hf => hgiven (.inr hf), hnone⟩
  | eval fuel exp frame =>
    have hexp : exp.Within S := fun f hf => hgiven (.inr hf)
    obtain ⟨heffect, hout, hst'⟩ := s.eval_within fuel hexp (hgiven (.inl rfl)) hst
    exact ⟨heffect, hst', fun v hv => hout.of_value? hv⟩
  | run fuel text frame => exact runTokens_confined fuel none (.ofString text) (hgiven rfl) hst hnone

/-! ## Histories -/

/-- Between two moments of a session its frames live on, and at the second one the store is well-formed
and the values that were returned hold frames that exist. -/
structure Keeps (s : Session) (returned : List Value) (s' : Session) : Prop where
  grows : s.store.Grows s'.store
  wellFormed : s'.store.WellFormed
  returned_within : ∀ v ∈ returned, v.Within s'.store.existing

theorem perform_keeps (hs : s.store.WellFormed) {op : Operation} (hgiven : op.given ⊆ s.store.existing) :
    s.Keeps (s.perform op).1.toList (s.perform op).2 := by
  by_cases hop : op = .newFrame none
  · subst hop
    refine ⟨.addFrame s.store ⟨none, []⟩, hs.newRoot, ?_⟩
    rintro _ ⟨⟩
  · obtain ⟨heffect, hclosed, hreturned⟩ := perform_confined hop hgiven hs.closed
    rw [Store.existing_union_created heffect.size_le] at hclosed hreturned
    refine ⟨heffect.toGrows, hs.of_grows heffect.toGrows (fun f p => heffect.parent_lt) hclosed, ?_⟩
    exact fun v hv => hreturned v (Option.mem_toList.mp hv)

theorem performAll_keeps (hs : s.store.WellFormed) {ops : List Operation} (hops : s.Allows ops) :
    s.Keeps (s.performAll ops).1 (s.performAll ops).2 := by
  induction ops generalizing s with
  | nil => exact ⟨.of_frames_eq rfl, hs, fun v hv => by cases hv⟩
  | cons op ops ih =>
    have hfirst := perform_keeps hs hops.1
    have hrest := ih hfirst.wellFormed hops.2
    refine ⟨hfirst.grows.trans hrest.grows, hrest.wellFormed, fun v hv => ?_⟩
    rcases List.mem_append.mp hv with hv | hv
    · exact (hfirst.returned_within v hv).mono hrest.grows.existing_subset
    · exact hrest.returned_within v hv

/-- Operations that add no outermost frame leave the outermost frames as they are. -/
theorem performAll_outermost (hs : s.store.WellFormed) {ops : List Operation} (hops : s.Allows ops)
    (hroot : .newFrame none ∉ ops) {f : Nat} (hf : f ∈ (s.performAll ops).2.store.existing)
    (hp : (s.performAll ops).2.store.parent f = none) :
    f ∈ s.store.existing ∧ s.store.parent f = none := by
  induction ops generalizing s with
  | nil => exact ⟨hf, hp⟩
  | cons op ops ih =>
    rw [List.mem_cons, not_or] at hroot
    obtain ⟨hf', hp'⟩ := ih (perform_keeps hs hops.1).wellFormed hops.2 hroot.2 hf hp
    have heffect := (perform_confined (Ne.symm hroot.1) hops.1 hs.closed).effect
    exact heffect.outermost hf' hp'

theorem performAll_append (s : Session) (before after : List Operation) :
    s.performAll (before ++ after) =
      ((s.performAll before).1 ++ ((s.performAll before).2.performAll after).1,
        ((s.performAll before).2.performAll after).2) := by
  induction before generalizing s with
  | nil => rfl
  | cons op before ih =>
    rw [List.cons_append, performAll, ih, performAll]
    simp only [List.append_assoc]

theorem allows_append {before after : List Operation} :
    s.Allows (before ++ after) ↔ s.Allows before ∧ (s.performAll before).2.Allows after := by
  induction before generalizing s with
  | nil => exact (true_and _).to_iff.symm
  | cons op before ih => exact (and_congr_right fun _ => ih).trans and_assoc.symm

/-- **The history of a store.** Let operations be performed on a fresh session, each on frames that exist.
Afterwards every frame is younger than its parent, so that no chain of parents comes back, each has an
end, and the search for a symbol ends. No frame has disappeared, changed its parent or lost a binding
since any earlier moment. The closures in bound values and in all values returned were made in frames
that exist. If no operation has added another outermost frame, every chain of parents ends at the global
frame. -/
theorem operations_keep_store (level : Level) {before after : List Operation}
    (hallowed : (initial level).Allows (before ++ after)) :
    let earlier := ((initial level).performAll before).2.store
    let st := ((initial level).performAll (before ++ after)).2.store
    let returned := ((initial level).performAll (before ++ after)).1
    (∀ f p : Nat, st.parent f = some p → p < f) ∧
    (∀ f, ¬Relation.TransGen (fun g p => st.parent g = some p) f f) ∧
    (∀ f ∈ st.existing, ∃ root, st.HasRoot f root) ∧
    (∀ f ∈ st.existing, ∀ name, st.Search name f (st.owner f name) ∧
      st.get? f name = (st.bindings (st.owner f name)).get? name) ∧
    earlier.Grows st ∧
    (∀ f name v g, (name, v) ∈ st.bindings f → v.Captures g → g ∈ st.existing) ∧
    (∀ v ∈ returned, ∀ g, v.Captures g → g ∈ st.existing) ∧
    (.newFrame none ∉ before ++ after → ∀ f ∈ st.existing, st.HasRoot f Store.globalFrame) := by
  intro earlier st returned
  have hkeeps := performAll_keeps Store.wellFormed_initial hallowed
  have hst : st.WellFormed := hkeeps.wellFormed
  have hgrows : earlier.Grows st := by
    have hallows := allows_append.mp hallowed
    have hbefore := performAll_keeps Store.wellFormed_initial hallows.1
    have hafter := (performAll_keeps hbefore.wellFormed hallows.2).grows
    show earlier.Grows ((initial level).performAll (before ++ after)).2.store
    rwa [performAll_append]
  refine ⟨hst.parent_lt, hst.acyclic, fun f hf => hst.exists_hasRoot hf,
    fun f hf name => hst.search_owner hf name, hgrows, hst.captured, hkeeps.returned_within, ?_⟩
  intro hroot f hf
  obtain ⟨root, hf⟩ := hst.exists_hasRoot hf
  obtain ⟨hexists, hp⟩ := hf.outermost_root
  have hinitial := performAll_outermost Store.wellFormed_initial hallowed hroot hexists hp
  rwa [Store.mem_existing_initial hinitial.1] at hf

/-- A frame is added inside the global one, a closure of the new frame is bound in it, and its name is
evaluated there. -/
def closureHistory : List Operation :=
  [.newFrame (some Store.globalFrame), .bind 1 okSymbol (.atom (.closure 0 [] [] 1)),
    .eval 1 (.symbol okSymbol) 1]

theorem closureHistory_rooted :
    (initial .off).Allows closureHistory ∧
      ((initial .off).performAll closureHistory).2.store.HasRoot 1 Store.globalFrame := by
  have hallowed : (initial .off).Allows (closureHistory.take 1 ++ closureHistory.drop 1) := by
    refine ⟨?_, ?_, ?_, trivial⟩
    · rintro f ⟨⟩
      exact Nat.zero_lt_one
    · rintro f (rfl | hf)
      · exact Nat.one_lt_two
      · cases hf with
        | here => exact Nat.one_lt_two
        | body hexp => cases hexp
    · rintro f (rfl | hf)
      · show 1 < (Array.modify _ _ _).size
        rw [Array.size_modify]
        exact Nat.one_lt_two
      · cases hf
  obtain ⟨-, -, -, -, hgrows, -, -, hrooted⟩ := operations_keep_store .off hallowed
  have hmade : 1 ∈ ((initial .off).performAll (closureHistory.take 1)).2.store.existing :=
    Nat.one_lt_two
  refine ⟨hallowed, hrooted ?_ 1 (hgrows.existing_subset hmade)⟩
  simp [closureHistory]

end Session

end SmallScheme
