import SmallScheme.Proofs.LocalBinding
import SmallScheme.Proofs.StoreHistory

/-!
# Frames as tables of what was written into them

`frames_tabulate_writes`: the bindings of a frame are the symbols ever written into it, in the strict order of
their names and each with the value written last.

1. To bind a symbol keeps bindings in the strict order of names (`Bindings.ordered_insert`), so that a symbol has
   the value with which it is listed and no other (`Bindings.Ordered.get?_eq_some_iff`).
2. The bindings of a frame are what its writes give one after the other (`Store.History.frame_eq`), and of the
   writes for one symbol the last counts (`lookup_reverse_eq_some_iff`).
3. A step of the machine makes one frame from arguments, or binds one symbol, or leaves all frames as they are
   (`State.step_frameStep`). So every frame that a program ever has is the result of its writes
   (`Session.performAll_chronicled`).
-/

namespace SmallScheme

/-! ## Bindings in order -/

namespace Bindings

/-- Every name stands before the later ones in the order of code points. -/
def Ordered (b : Bindings) : Prop := b.Pairwise fun entry later => entry.1.name < later.1.name

variable {b : Bindings}

theorem ordered_insert (h : b.Ordered) (s : Symbol) (v : Value) : (b.insert s v).Ordered := by
  induction b with
  | nil => exact List.pairwise_singleton _ _
  | cons entry rest ih =>
    obtain ⟨t, w⟩ := entry
    obtain ⟨hfirst, hrest⟩ := List.pairwise_cons.mp h
    rw [insert]
    split_ifs with heq hlt
    · refine List.pairwise_cons.mpr ⟨?_, hrest⟩
      intro later hlater
      have hname := hfirst later hlater
      rwa [← heq] at hname
    · refine List.pairwise_cons.mpr ⟨?_, h⟩
      intro later hlater
      rcases List.mem_cons.mp hlater with rfl | hlater
      · exact hlt
      · exact String.lt_trans hlt (hfirst later hlater)
    · refine List.pairwise_cons.mpr ⟨?_, ih hrest⟩
      intro later hlater
      rcases mem_insert hlater with rfl | hlater
      · by_contra hge
        exact heq (String.le_antisymm (String.not_lt.mp hge) (String.not_lt.mp hlt))
      · exact hfirst later hlater

theorem ordered_insertAll (h : b.Ordered) (pairs : List (Symbol × Value)) :
    (b.insertAll pairs).Ordered := by
  induction pairs generalizing b with
  | nil => exact h
  | cons pair pairs ih => exact ih (ordered_insert h pair.1 pair.2)

theorem insertAll_append (b : Bindings) (pairs more : List (Symbol × Value)) :
    b.insertAll (pairs ++ more) = (b.insertAll pairs).insertAll more :=
  List.foldl_append

/-- No name is listed twice. -/
theorem Ordered.nodup_names (h : b.Ordered) : (b.map fun entry => entry.1.name).Nodup := by
  refine List.pairwise_map.mpr (h.imp ?_)
  intro entry later hlt heq
  rw [heq] at hlt
  exact String.lt_irrefl _ hlt

theorem Ordered.nodup_symbols (h : b.Ordered) : (b.map Prod.fst).Nodup := by
  have hnames : ((b.map Prod.fst).map Symbol.name).Nodup := by
    rw [List.map_map]
    exact h.nodup_names
  refine List.Pairwise.of_map Symbol.name ?_ hnames
  intro s t hne heq
  exact hne (congrArg Symbol.name heq)

/-- A symbol has the value with which it is listed. -/
theorem Ordered.get?_eq_some_iff (h : b.Ordered) {s : Symbol} {v : Value} :
    b.get? s = some v ↔ (s, v) ∈ b := by
  refine ⟨mem_of_get?, ?_⟩
  induction b with
  | nil => rintro ⟨⟩
  | cons entry rest ih =>
    obtain ⟨t, w⟩ := entry
    obtain ⟨hfirst, hrest⟩ := List.pairwise_cons.mp h
    intro hmem
    rw [get?_cons]
    rcases List.mem_cons.mp hmem with heq | hlater
    · cases heq
      exact if_pos rfl
    · have hne : s ≠ t := by
        rintro rfl
        have hlt := hfirst _ hlater
        exact String.lt_irrefl _ hlt
      rw [if_neg hne]
      exact ih hrest hlater

theorem isSome_get?_iff {s : Symbol} : (b.get? s).isSome = true ↔ s ∈ b.map Prod.fst := by
  induction b with
  | nil => simp [get?]
  | cons entry rest ih =>
    obtain ⟨t, w⟩ := entry
    rw [get?_cons, List.map_cons, List.mem_cons, ← ih]
    by_cases h : s = t
    · simp [h]
    · simp [h]

end Bindings

/-! ## The last write -/

/-- Of the writes for a symbol, the last one gave it this value. -/
def LastWrite (writes : List (Symbol × Value)) (s : Symbol) (v : Value) : Prop :=
  ∃ before after, writes = before ++ (s, v) :: after ∧ s ∉ after.map Prod.fst

theorem lookup_reverse_eq_some_iff {writes : List (Symbol × Value)} {s : Symbol} {v : Value} :
    writes.reverse.lookup s = some v ↔ LastWrite writes s v := by
  have hne (others : List (Symbol × Value)) :
      (∀ entry ∈ others, (s != entry.1) = true) ↔ s ∉ others.map Prod.fst := by
    simp only [bne_iff_ne, List.mem_map, not_exists, not_and]
    exact forall₂_congr fun entry _ => ne_comm
  rw [List.lookup_eq_some_iff]
  constructor
  · rintro ⟨later, earlier, heq, hlater⟩
    refine ⟨earlier.reverse, later.reverse, ?_, ?_⟩
    · rw [← List.reverse_reverse writes, heq]
      simp
    · rw [List.map_reverse, List.mem_reverse]
      exact (hne later).mp hlater
  · rintro ⟨before, after, rfl, hafter⟩
    refine ⟨after.reverse, before.reverse, by simp, ?_⟩
    intro entry hentry
    exact (hne after).mpr hafter entry (List.mem_reverse.mp hentry)

namespace Bindings

/-- Writes give each symbol the value that was written last. -/
theorem mem_insertAll_nil_iff {writes : List (Symbol × Value)} {s : Symbol} {v : Value} :
    (s, v) ∈ insertAll [] writes ↔ LastWrite writes s v := by
  have hordered : (insertAll [] writes).Ordered := ordered_insertAll List.Pairwise.nil writes
  rw [← hordered.get?_eq_some_iff, get?_insertAll, ← lookup_reverse_eq_some_iff]
  exact Option.or_none.congr_left

end Bindings

/-! ## Histories of a frame -/

namespace Store

/-- `History st f writes`: the frame `f` of the store was made, empty or from arguments, and got what was
written into it in this order. What leaves the frame alone is not part of its history. -/
inductive History : Store → FrameId → List (Symbol × Value) → Prop where
  | newFrame (st : Store) (parent : Option FrameId) :
      History (st.newFrame parent).2 (st.newFrame parent).1 []
  | extend {st : Store} {params args parent f st'} (h : st.extend params args parent = .ok (f, st')) :
      History st' f (params.zip args)
  | bind {st f writes} (h : History st f writes) (s : Symbol) (v : Value) :
      History (st.bind f s v) f (writes ++ [(s, v)])
  | elsewhere {st st' f writes} (h : History st f writes) (hframe : st'.frames[f]? = st.frames[f]?) :
      History st' f writes

variable {st st' : Store} {f : FrameId} {writes : List (Symbol × Value)}

theorem getElem?_addFrame_self (st : Store) (frame : Frame) :
    (st.addFrame frame).2.frames[(st.addFrame frame).1]? = some frame :=
  Array.getElem?_push_size

theorem getElem?_bind (st : Store) (f g : FrameId) (s : Symbol) (v : Value) :
    (st.bind f s v).frames[g]? =
      if f = g then st.frames[g]?.map fun frame => frame.bind s v else st.frames[g]? :=
  Array.getElem?_modify

/-- **The bindings of a frame** are what its writes give one after the other. -/
theorem History.frame_eq (h : st.History f writes) :
    ∃ parent, st.frames[f]? = some ⟨parent, Bindings.insertAll [] writes⟩ := by
  induction h with
  | newFrame st parent => exact ⟨parent, getElem?_addFrame_self st _⟩
  | @extend st params args parent f st' h =>
    obtain ⟨frame, hframe, heq⟩ := exists_of_map_eq_ok h
    unfold Frame.ofArguments at hframe
    split_ifs at hframe
    cases hframe
    cases heq
    exact ⟨some parent, getElem?_addFrame_self st _⟩
  | bind _ s v ih =>
    obtain ⟨parent, hframe⟩ := ih
    refine ⟨parent, ?_⟩
    rw [getElem?_bind, if_pos rfl, hframe, Bindings.insertAll_append]
    rfl
  | elsewhere _ hframe ih =>
    rw [hframe]
    exact ih

/-- The bindings of a frame are a table of the writes. -/
structure Tabulates (st : Store) (f : FrameId) (writes : List (Symbol × Value)) : Prop where
  /-- The symbols ever written are listed, and no others. -/
  symbols : ∀ s, s ∈ (st.bindings f).map Prod.fst ↔ s ∈ writes.map Prod.fst
  once : ((st.bindings f).map Prod.fst).Nodup
  /-- Every name stands before the later ones in the order of code points. -/
  ordered : (st.bindings f).Pairwise fun entry later => entry.1.name < later.1.name
  last : ∀ s v, (s, v) ∈ st.bindings f ↔ LastWrite writes s v
  /-- A symbol is bound in the frame itself if it is listed. -/
  binds : ∀ s, st.binds f s = true ↔ s ∈ (st.bindings f).map Prod.fst
  /-- Its value in the frame itself is the one listed. -/
  get? : ∀ s v, st.frames[f]?.bind (·.get? s) = some v ↔ (s, v) ∈ st.bindings f
  /-- So is the value that is found from the frame outward. -/
  lookup : ∀ s v, (s, v) ∈ st.bindings f → st.lookup f s = .ok v

theorem History.bindings_eq (h : st.History f writes) :
    st.bindings f = Bindings.insertAll [] writes := by
  obtain ⟨parent, hframe⟩ := h.frame_eq
  rw [bindings, hframe]
  rfl

theorem History.tabulates (h : st.History f writes) : st.Tabulates f writes := by
  obtain ⟨parent, hframe⟩ := h.frame_eq
  have hbindings := h.bindings_eq
  have hordered : (Bindings.insertAll [] writes).Ordered :=
    Bindings.ordered_insertAll List.Pairwise.nil writes
  have hget (s : Symbol) : (Bindings.insertAll [] writes).get? s = writes.reverse.lookup s := by
    rw [Bindings.get?_insertAll]
    exact Option.or_none
  have hbinds (s : Symbol) :
      st.binds f s = true ↔ s ∈ (Bindings.insertAll [] writes).map Prod.fst := by
    rw [binds, hframe]
    exact Bindings.isSome_get?_iff
  refine ⟨?_, ?_, ?_, ?_, ?_, ?_, ?_⟩
  · intro s
    have hlookup : (writes.reverse.lookup s).isSome = true ↔ s ∈ writes.reverse.map Prod.fst :=
      Bindings.isSome_get?_iff
    rw [hbindings, ← Bindings.isSome_get?_iff, hget, hlookup, List.map_reverse, List.mem_reverse]
  · rw [hbindings]
    exact hordered.nodup_symbols
  · rw [hbindings]
    exact hordered
  · intro s v
    rw [hbindings]
    exact Bindings.mem_insertAll_nil_iff
  · intro s
    rw [hbindings]
    exact hbinds s
  · intro s v
    rw [hframe, hbindings]
    exact hordered.get?_eq_some_iff
  · intro s v hmem
    rw [hbindings] at hmem
    have hlocal : (Frame.mk parent (Bindings.insertAll [] writes)).get? s = some v :=
      hordered.get?_eq_some_iff.mpr hmem
    have hvalue : st.get? f s = some v := by
      rw [Store.get?, hframe]
      simp only [hlocal]
    rw [Store.lookup, hvalue]

/-! ## Every frame has a history -/

/-- All frames of the store are the results of their writes. -/
def Chronicled (st : Store) : Prop := ∀ f ∈ st.existing, ∃ writes, st.History f writes

/-- What one step can do to the frames of a store. -/
inductive FrameStep (st st' : Store) : Prop where
  | same (h : st'.frames = st.frames)
  /-- A frame is made from arguments. -/
  | call {params args parent frame} (h : Frame.ofArguments parent params args = .ok frame)
      (hframes : st'.frames = (st.addFrame frame).2.frames)
  | bind (f : FrameId) (s : Symbol) (v : Value) (hframes : st'.frames = (st.bind f s v).frames)

theorem Chronicled.of_frames_eq (h : st.Chronicled) (heq : st'.frames = st.frames) :
    st'.Chronicled := by
  intro f hf
  rw [mem_existing, heq] at hf
  obtain ⟨writes, hwrites⟩ := h f hf
  exact ⟨writes, hwrites.elsewhere (by rw [heq])⟩

/-- A new frame leaves the histories of the others alone. -/
theorem Chronicled.addFrame (h : st.Chronicled) {frame : Frame} {writes : List (Symbol × Value)}
    (hnew : (st.addFrame frame).2.History (st.addFrame frame).1 writes) :
    (st.addFrame frame).2.Chronicled := by
  intro f hf
  by_cases hold : f < st.frames.size
  · obtain ⟨writes', hwrites⟩ := h f hold
    exact ⟨writes', hwrites.elsewhere (getElem?_addFrame_of_lt hold frame)⟩
  · have hsize : (st.addFrame frame).2.frames.size = st.frames.size + 1 := Array.size_push _
    rw [mem_existing, hsize] at hf
    obtain rfl : f = st.frames.size := Nat.le_antisymm (Nat.lt_succ_iff.mp hf) (Nat.not_lt.mp hold)
    exact ⟨writes, hnew⟩

theorem Chronicled.bind (h : st.Chronicled) (f : FrameId) (s : Symbol) (v : Value) :
    (st.bind f s v).Chronicled := by
  intro g hg
  have hsize : (st.bind f s v).frames.size = st.frames.size := Array.size_modify
  rw [mem_existing, hsize] at hg
  obtain ⟨writes, hwrites⟩ := h g hg
  by_cases hfg : f = g
  · subst hfg
    exact ⟨_, hwrites.bind s v⟩
  · refine ⟨writes, hwrites.elsewhere ?_⟩
    rw [getElem?_bind, if_neg hfg]

theorem Chronicled.step (h : st.Chronicled) (hstep : st.FrameStep st') : st'.Chronicled := by
  cases hstep with
  | same heq => exact h.of_frames_eq heq
  | @call params args parent frame hframe heq =>
    have hextend : st.extend params args parent = .ok (st.addFrame frame) := by
      rw [extend, hframe]
      rfl
    exact (h.addFrame (.extend hextend)).of_frames_eq heq
  | bind f s v heq => exact (h.bind f s v).of_frames_eq heq

/-- Binds symbols in a frame one after the other. -/
def bindAll (st : Store) (f : FrameId) (pairs : List (Symbol × Value)) : Store :=
  pairs.foldl (fun st (s, v) => st.bind f s v) st

theorem History.bindAll (h : st.History f writes) (pairs : List (Symbol × Value)) :
    (st.bindAll f pairs).History f (writes ++ pairs) := by
  induction pairs generalizing st writes with
  | nil => rwa [List.append_nil]
  | cons pair pairs ih =>
    rw [List.append_cons]
    exact ih (h.bind pair.1 pair.2)

theorem getElem?_bindAll {frame : Frame} (h : st.frames[f]? = some frame)
    (pairs : List (Symbol × Value)) :
    (st.bindAll f pairs).frames[f]? = some ⟨frame.parent, frame.bindings.insertAll pairs⟩ := by
  induction pairs generalizing st frame with
  | nil => exact h
  | cons pair pairs ih =>
    have hbound : (st.bind f pair.1 pair.2).frames[f]? = some (frame.bind pair.1 pair.2) := by
      rw [getElem?_bind, if_pos rfl, h]
      rfl
    exact ih hbound

/-- The global frame is one made empty in which the initial names were bound. -/
theorem history_initial : initial.History globalFrame initialBindings := by
  have hempty : (({} : Store).newFrame none).2.History globalFrame [] := .newFrame {} none
  refine (hempty.bindAll initialBindings).elsewhere ?_
  exact (getElem?_bindAll (getElem?_addFrame_self {} ⟨none, []⟩) initialBindings).symm

theorem chronicled_initial : initial.Chronicled := by
  intro f hf
  obtain rfl := mem_existing_initial hf
  exact ⟨initialBindings, history_initial⟩

end Store

/-! ## Steps of the machine -/

namespace Stack

variable (k : Stack) (st : Store)

theorem enter_frameStep (exp : Value) (frame : FrameId) (waiting : Pending) :
    st.FrameStep (k.enter st exp frame waiting).store := .same (by rw [store_enter])

theorem body_frameStep (frame : FrameId) (exps : List Value) :
    st.FrameStep (k.body st frame exps).store := .same (by rw [store_body])

theorem call_frameStep (procedure : Value) (args : List Value) :
    st.FrameStep (k.call st procedure args).store := by
  match procedure with
  | .nil | .pair .. | .atom (.literal _) => exact .same rfl
  | .atom (.primitive p) =>
    simp only [call]
    cases happly : p.apply args st with
    | error e => exact .same rfl
    | ok result => exact .same (Primitive.apply_within happly (S := Set.univ) fun _ _ _ _ => trivial).2
  | .atom (.closure label params body outer) =>
    simp only [call]
    cases hinner : Frame.ofArguments outer params args with
    | error e => exact .same rfl
    | ok inner => exact .call hinner (by rw [store_body])

theorem operands_frameStep (procedure : Value) (done : List Value) (rest : Value) (frame : FrameId) :
    st.FrameStep (k.operands st procedure done rest frame).store := by
  match rest with
  | .nil => exact call_frameStep k st procedure done.reverse
  | .atom a => exact .same rfl
  | .pair label head tail => exact enter_frameStep k st head frame _

theorem form_frameStep (frame : FrameId) (f : Form) : st.FrameStep (k.form st frame f).2.store := by
  cases f with
  | define name value => exact enter_frameStep k st value frame _
  | defineProcedure name params body => exact .bind frame name _ rfl
  | assign name value => exact enter_frameStep k st value frame _
  | conditional test consequent alternative => exact enter_frameStep k st test frame _
  | sequence body => exact body_frameStep k st frame body
  | bind names values body =>
    obtain ⟨_, _, _, _, _, _, -, -, -, happlied⟩ := Form.applied_eq st names values body
    refine .same ?_
    show (Form.applied st names values body).2.frames = _
    rw [happlied]
    rfl
  | _ => exact .same rfl

theorem eval_frameStep (exp : Value) (frame : FrameId) : st.FrameStep (k.eval st exp frame).2.store := by
  unfold eval
  split
  · next name =>
    dsimp only
    cases st.lookup frame name <;> exact .same rfl
  · next label head args =>
    cases Keyword.ofHead? head with
    | none => exact enter_frameStep k st head frame _
    | some keyword =>
      dsimp only
      cases Form.parse keyword args with
      | error e => exact .same rfl
      | ok f => exact form_frameStep k st frame f
  · exact .same rfl

theorem resume_frameStep (v : Value) (waiting : Pending) :
    st.FrameStep (k.resume st v waiting).2.store := by
  cases waiting with
  | branch consequent alternative frame =>
    unfold resume
    dsimp only
    split_ifs
    · exact .same rfl
    · cases alternative <;> exact .same rfl
  | define name frame => exact .bind frame name v rfl
  | assign name frame => exact .bind (st.owner frame name) name v rfl
  | sequence next rest frame => exact body_frameStep k st frame (next :: rest)
  | operator args frame => exact operands_frameStep k st v [] args frame
  | operand procedure done rest frame => exact operands_frameStep k st procedure (v :: done) rest frame

end Stack

namespace State

/-- **One step** makes at most one frame or binds at most one symbol. -/
theorem step_frameStep (s : State) : s.store.FrameStep s.step.2.store := by
  obtain ⟨control, ⟨pending, depth⟩, st⟩ := s
  cases control with
  | eval exp frame => exact Stack.eval_frameStep ⟨pending, depth⟩ st exp frame
  | give v =>
    cases pending with
    | nil => exact .same rfl
    | cons waiting pending => exact Stack.resume_frameStep ⟨pending, depth - 1⟩ st v waiting

theorem run_chronicled {σ : Type} (observe : σ → EvalEvent → σ) (fuel : Nat) (seen : σ) {s : State}
    (h : s.store.Chronicled) : (s.run observe fuel seen).2.2.Chronicled := by
  induction fuel generalizing seen s with
  | zero => exact h
  | succ fuel ih =>
    have hstep := h.step s.step_frameStep
    rw [run]
    generalize s.step = result at hstep
    obtain ⟨events, s' | ⟨out, st⟩⟩ := result
    · exact ih _ hstep
    · exact hstep

end State

namespace Session

variable {s : Session}

theorem eval_chronicled (h : s.store.Chronicled) (fuel : Nat) (exp : Value) (frame : FrameId) :
    (s.eval fuel exp frame).2.store.Chronicled :=
  State.run_chronicled Journal.noteEvaluation fuel s.journal (s := .start exp frame 0 s.store) h

theorem evalDatum_chronicled (h : s.store.Chronicled) {fuel : Nat} {d : Datum} {frame : FrameId}
    {events : List ReadEvent} {out : Outcome} {s' : Session}
    (heval : (s.noteReading events).evalDatum fuel d frame = (out, s')) : s'.store.Chronicled := by
  have hrun := eval_chronicled (s := ⟨(s.store.embed d).2, (s.noteReading events).journal⟩)
    (h.of_frames_eq rfl) fuel (s.store.embed d).1 frame
  have heval' : Session.eval fuel ⟨(s.store.embed d).2, (s.noteReading events).journal⟩
      (s.store.embed d).1 frame = (out, s') := heval
  rwa [heval'] at hrun

theorem runTokens_chronicled (h : s.store.Chronicled) (fuel : Nat) (frame : FrameId)
    (last : Option Value) (tokens : TokenStream) :
    (runTokens fuel frame s last tokens).2.store.Chronicled := by
  fun_induction runTokens fuel frame s last tokens with
  | case1 => exact h
  | case2 => exact h
  | case3 s last tokens d events rest _ _ v s' heval ih => exact ih (evalDatum_chronicled h heval)
  | case4 s last tokens d events rest _ _ e s' heval => exact evalDatum_chronicled h heval
  | case5 s last tokens d events rest _ _ s' heval => exact evalDatum_chronicled h heval
  | case6 s last tokens d events rest _ _ s' heval => exact evalDatum_chronicled h heval

theorem perform_chronicled (h : s.store.Chronicled) (op : Operation) :
    (s.perform op).2.store.Chronicled := by
  cases op with
  | newFrame parent => exact h.addFrame (.newFrame s.store parent)
  | extend params args parent =>
    simp only [perform, Store.extend]
    cases hframe : Frame.ofArguments parent params args with
    | error e => exact h
    | ok frame => exact h.step (.call hframe rfl)
  | bind frame name v => exact h.bind frame name v
  | assign frame name v => exact h.bind (s.store.owner frame name) name v
  | eval fuel exp frame => exact eval_chronicled h fuel exp frame
  | run fuel text frame => exact runTokens_chronicled h fuel frame none (.ofString text)

theorem performAll_chronicled (h : s.store.Chronicled) (ops : List Operation) :
    (s.performAll ops).2.store.Chronicled := by
  induction ops generalizing s with
  | nil => exact h
  | cons op ops ih => exact ih (perform_chronicled h op)

end Session

/-! ## The table of a frame -/

theorem Store.extend_eq_error_iff {st : Store} {params : List Symbol} {args : List Value}
    {parent : FrameId} {e : Error} :
    st.extend params args parent = .error e ↔ params.length ≠ args.length ∧
      e = ⟨.arityMismatch (.exactly params.length) args.length, none⟩ := by
  unfold extend Frame.ofArguments
  split_ifs with h
  · constructor
    · rintro ⟨⟩
    · rintro ⟨hne, -⟩
      exact absurd h hne
  · constructor
    · rintro ⟨⟩
      exact ⟨h, rfl⟩
    · rintro ⟨-, rfl⟩
      rfl

/-- **Frames tabulate what was written.** Whatever was written into a frame, as arguments when it was made or
later, its bindings list the symbols written, each once and in the strict order of their names, with the values
written last; and these are the symbols bound in it and their values. A frame is not made from arguments
exactly if they are not as many as the parameters, repetitions counted, and then nothing happens. All frames
that a program ever has come about in this way. -/
theorem frames_tabulate_writes :
    (∀ st f writes, Store.History st f writes → st.Tabulates f writes) ∧
    (∀ (st : Store) params args parent e, st.extend params args parent = .error e ↔
      params.length ≠ args.length ∧
        e = ⟨.arityMismatch (.exactly params.length) args.length, none⟩) ∧
    (∀ (s : Session) params args parent, params.length ≠ args.length →
      s.perform (.extend params args parent) = (none, s)) ∧
    (∀ level ops f, f ∈ ((Session.initial level).performAll ops).2.store.existing →
      ∃ writes, Store.History ((Session.initial level).performAll ops).2.store f writes) := by
  refine ⟨fun st f writes h => h.tabulates, fun st params args parent e => Store.extend_eq_error_iff,
    fun s params args parent hne => ?_, fun level ops f hf => ?_⟩
  · have hextend : s.store.extend params args parent = .error _ :=
      Store.extend_eq_error_iff.mpr ⟨hne, rfl⟩
    simp only [Session.perform, hextend]
  · exact Session.performAll_chronicled Store.chronicled_initial ops f hf

/-- The parameter `X` is repeated, and `Y` is bound once more after the call: the second argument for `X` and the
last value of `Y` count. -/
theorem repeatedParameter_tabulated :
    ∃ st : Store,
      Store.initial.extend [⟨"Y"⟩, ⟨"X"⟩, ⟨"X"⟩] [.nil, .boolean true, .boolean false] 0 = .ok (1, st) ∧
      (st.bind 1 ⟨"Y"⟩ (.boolean true)).Tabulates 1
        [(⟨"Y"⟩, .nil), (⟨"X"⟩, .boolean true), (⟨"X"⟩, .boolean false), (⟨"Y"⟩, .boolean true)] ∧
      (st.bind 1 ⟨"Y"⟩ (.boolean true)).lookup 1 ⟨"X"⟩ = .ok (.boolean false) ∧
      (st.bind 1 ⟨"Y"⟩ (.boolean true)).lookup 1 ⟨"Y"⟩ = .ok (.boolean true) := by
  obtain ⟨st, hst⟩ : ∃ st, Store.initial.extend [⟨"Y"⟩, ⟨"X"⟩, ⟨"X"⟩]
      [.nil, .boolean true, .boolean false] 0 = .ok (1, st) := ⟨_, rfl⟩
  have htable := frames_tabulate_writes.1 _ _ _ (.bind (.extend hst) ⟨"Y"⟩ (.boolean true))
  refine ⟨st, hst, htable, htable.lookup _ _ ((htable.last _ _).mpr ?_),
    htable.lookup _ _ ((htable.last _ _).mpr ?_)⟩
  · exact ⟨[_, _], [_], rfl, by decide⟩
  · exact ⟨[_, _, _], [], rfl, by decide⟩

end SmallScheme
