import SmallScheme.Proofs.Cells
import SmallScheme.Proofs.LineByLine

/-!
# The courses of a program

What a program builds from its beginning on, at all of its moments.

1. A course lists the moments that a program went through: it begins to evaluate a datum, or the machine takes
   a step (`Course`). Each text that is run makes the course longer, and the value of the text is among
   those that were built (`Session.run_course`).
2. There are contents with which everything agrees that was built in a course (`Course.agrees`), by induction
   on the course. So cells with one label are equal, however far apart in time they were met.
-/

namespace SmallScheme

/-- The store after the latest moment, which stands first. -/
def storeAfter : List Next → Store
  | [] => .initial
  | next :: _ => next.answer.2

/-- The moments of a program, latest first. A datum may be evaluated at any time, since the evaluation before
it may have been given up. -/
inductive Course : List Next → Prop where
  | fresh : Course []
  | begin {moments} (h : Course moments) (d : Datum) (frame : FrameId) :
      Course (.running (.start ((storeAfter moments).embed d).1 frame 0
        ((storeAfter moments).embed d).2) :: moments)
  | step {next moments} (h : Course (next :: moments)) : Course (next.step :: next :: moments)

/-- A value is there at a moment: the machine works on it or came to it, an evaluation waits with it, or it
is bound in a frame. -/
inductive Next.Holds : Next → Value → Prop where
  | control {s} : Holds (.running s) s.control.value
  | waiting {s waiting v} (hw : waiting ∈ s.stack.pending) (hv : v ∈ waiting.values) :
      Holds (.running s) v
  | result {v st} : Holds (.done (.value v) st) v
  | bound {next frame name v} (hf : frame ∈ next.answer.2.frames) (hv : (name, v) ∈ frame.bindings) :
      Holds next v

/-- The value occurs in one that is there at one of the moments. -/
def Built (moments : List Next) (v : Value) : Prop := ∃ next ∈ moments, ∃ w, next.Holds w ∧ w.Part v

theorem Built.later {moments : List Next} {v : Value} (h : Built moments v) (later : List Next) :
    Built (later ++ moments) v := by
  obtain ⟨next, hnext, h⟩ := h
  exact ⟨next, List.mem_append_right later hnext, h⟩

/-! ## Running texts -/

namespace Course

variable {moments : List Next} {next : Next}

theorem iterate (h : Course (next :: moments)) (n : Nat) :
    ∃ later, Course (later ++ moments) ∧ (later ++ moments).head? = some (Next.step^[n] next) := by
  induction n with
  | zero => exact ⟨[next], h, rfl⟩
  | succ n ih =>
    obtain ⟨later, hlater, hhead⟩ := ih
    obtain ⟨rest, hrest⟩ := List.head?_eq_some_iff.mp hhead
    rw [hrest] at hlater
    refine ⟨(Next.step^[n] next).step :: later, ?_, ?_⟩
    · rw [List.cons_append, hrest]
      exact hlater.step
    · rw [Function.iterate_succ_apply']
      rfl

/-- The evaluation of a datum makes a course longer. -/
theorem evaluate (h : Course moments) (fuel : Nat) (frame : FrameId) (d : Datum) {out : Outcome}
    {st : Store} (heval : (storeAfter moments).evaluate fuel frame d = (out, st)) :
    ∃ later, Course (later ++ moments) ∧ storeAfter (later ++ moments) = st ∧
      ∀ v, out = .value v → Built (later ++ moments) v := by
  obtain ⟨later, hlater, hhead⟩ := (h.begin d frame).iterate fuel
  obtain ⟨rest, hrest⟩ := List.head?_eq_some_iff.mp hhead
  refine ⟨later, hlater, ?_, ?_⟩
  · rw [hrest, storeAfter]
    exact congrArg Prod.snd heval
  · rintro v rfl
    have hvalue : (Next.step^[fuel] (.running (.start ((storeAfter moments).embed d).1 frame 0
        ((storeAfter moments).embed d).2))).answer = (.value v, st) := heval
    refine ⟨_, List.mem_of_mem_head? hhead, v, ?_, .refl⟩
    generalize Next.step^[fuel] _ = last at hvalue
    cases last with
    | running s => cases hvalue
    | done out st =>
      cases hvalue
      exact .result

end Course

namespace Session

theorem runTokens_course {moments : List Next} (h : Course moments) {s : Session}
    (hs : s.store = storeAfter moments) (fuel : Nat) (frame : FrameId) {last : Option Value}
    (hlast : ∀ v, last = some v → Built moments v) (tokens : TokenStream) :
    ∃ later, Course (later ++ moments) ∧
      (runTokens fuel frame s last tokens).2.store = storeAfter (later ++ moments) ∧
      ∀ v, (runTokens fuel frame s last tokens).1.value = some v → Built (later ++ moments) v := by
  have hevaluate {s : Session} {moments : List Next} (hs : s.store = storeAfter moments) {d : Datum}
      {events : List ReadEvent} {out : Outcome} {s' : Session}
      (heval : (s.noteReading events).evalDatum fuel d frame = (out, s')) :
      (storeAfter moments).evaluate fuel frame d = (out, s'.store) := by
    have heq := evalDatum_eq fuel (s.noteReading events) d frame
    rw [heval] at heq
    rw [← hs]
    exact heq.symm
  fun_induction runTokens fuel frame s last tokens generalizing moments with
  | case1 => exact ⟨[], h, hs, hlast⟩
  | case2 => exact ⟨[], h, hs, hlast⟩
  | case3 s last tokens d events rest _ _ v s' heval ih =>
    obtain ⟨later, hlater, hstore, hv⟩ := h.evaluate fuel frame d (hevaluate hs heval)
    obtain ⟨more, hmore, hresult⟩ := ih hlater hstore.symm (by rintro _ ⟨⟩; exact hv v rfl)
    rw [← List.append_assoc] at hmore hresult
    exact ⟨more ++ later, hmore, hresult⟩
  -- The text ends early: the value is that of the expression before.
  | case4 s last tokens d events rest _ _ e s' heval =>
    obtain ⟨later, hlater, hstore, -⟩ := h.evaluate fuel frame d (hevaluate hs heval)
    exact ⟨later, hlater, hstore.symm, fun v hv => (hlast v hv).later later⟩
  | case5 s last tokens d events rest _ _ s' heval =>
    obtain ⟨later, hlater, hstore, -⟩ := h.evaluate fuel frame d (hevaluate hs heval)
    exact ⟨later, hlater, hstore.symm, fun v hv => (hlast v hv).later later⟩
  | case6 s last tokens d events rest _ _ s' heval =>
    obtain ⟨later, hlater, hstore, -⟩ := h.evaluate fuel frame d (hevaluate hs heval)
    exact ⟨later, hlater, hstore.symm, fun v hv => (hlast v hv).later later⟩

/-- A text that is run makes a course longer, and its value was built. -/
theorem run_course {moments : List Next} (h : Course moments) {s : Session}
    (hs : s.store = storeAfter moments) (fuel : Nat) (text : String) (frame : FrameId) :
    ∃ later, Course (later ++ moments) ∧
      (s.run fuel text frame).2.store = storeAfter (later ++ moments) ∧
      ∀ v, (s.run fuel text frame).1.value = some v → Built (later ++ moments) v :=
  runTokens_course h hs fuel frame (by rintro v ⟨⟩) (.ofString text)

end Session

/-! ## All that was built agrees -/

namespace Next

variable {C C' : Contents} {next : Next}

theorem agrees_of_holds (hst : next.answer.2.Agrees C) (h : ∀ v, next.Holds v → v.Agrees C) :
    next.Agrees C := by
  cases next with
  | running s => exact ⟨h _ .control, fun waiting hw v hv => h v (.waiting hw hv), hst⟩
  | done out st =>
    refine ⟨?_, hst⟩
    rintro v rfl
    exact h v .result

theorem Agrees.store (h : next.Agrees C) : next.answer.2.Agrees C := by
  cases next with
  | running s => exact State.Agrees.store h
  | done out st => exact h.2

theorem Agrees.holds (h : next.Agrees C) {v : Value} (hv : next.Holds v) : v.Agrees C := by
  cases hv with
  | control => exact State.Agrees.control h
  | waiting hw hv => exact State.Agrees.stack h _ hw _ hv
  | result => exact h.1 _ rfl
  | bound hf hv => exact h.store.bound _ hf _ hv

theorem step_agrees (h : next.Agrees C) : C.Grows fun C' => next.step.Agrees C' := by
  cases next with
  | running s => exact State.step_agrees h
  | done out st => exact .of_self h

end Next

theorem Store.initial_agrees : Store.initial.Agrees fun _ => none := by
  refine ⟨fun _ _ => rfl, fun frame hframe entry he => ?_⟩
  obtain rfl := Array.mem_singleton.mp hframe
  rcases Bindings.mem_insertAll he with he | he
  · rcases initialBindings_cases he with hnil | ⟨l, hl⟩ | ⟨p, hp⟩
    · rw [hnil]
      exact Value.agrees_nil
    · rw [hl]
      exact Value.agrees_literal l
    · rw [hp]
      exact Value.agrees_primitive p
  · cases he

/-- **One cell, one content.** Everything that was built in a course agrees with the same contents, and so
does the store. -/
theorem Course.agrees {moments : List Next} (h : Course moments) :
    ∃ C : Contents, (storeAfter moments).Agrees C ∧ ∀ v, Built moments v → v.Agrees C := by
  -- What was built before agrees with the contents that have grown, and so does the next moment.
  have hextend {C : Contents} {moments : List Next} {next : Next}
      (hbuilt : ∀ v, Built moments v → v.Agrees C) (hnext : C.Grows fun C' => next.Agrees C') :
      ∃ C' : Contents, (storeAfter (next :: moments)).Agrees C' ∧
        ∀ v, Built (next :: moments) v → v.Agrees C' := by
    obtain ⟨C', hext, hnext⟩ := hnext
    refine ⟨C', hnext.store, ?_⟩
    rintro v ⟨other, hother, w, hw, hv⟩
    rcases List.mem_cons.mp hother with rfl | hother
    · exact (hnext.holds hw).part hv
    · exact (hbuilt v ⟨other, hother, w, hw, hv⟩).mono hext
  induction h with
  | fresh =>
    refine ⟨_, Store.initial_agrees, ?_⟩
    rintro v ⟨next, hnext, -⟩
    cases hnext
  | @begin moments _ d frame ih =>
    obtain ⟨C, hst, hbuilt⟩ := ih
    obtain ⟨C', hext, hexp, hst'⟩ := Store.embed_agrees hst d
    refine hextend hbuilt ⟨C', hext, hexp, ?_, hst'⟩
    rintro waiting ⟨⟩
  | @step next moments _ ih =>
    obtain ⟨C, hst, hbuilt⟩ := ih
    refine hextend hbuilt (Next.step_agrees (Next.agrees_of_holds hst fun v hv => ?_))
    exact hbuilt v ⟨next, List.mem_cons_self, v, hv, .refl⟩

end SmallScheme
