import Mathlib.Data.Set.Basic
import Mathlib.Logic.Relation
import Mathlib.Tactic.ByContra
import Mathlib.Tactic.SplitIfs
import SmallScheme.Proofs.Captures
import SmallScheme.Session

/-!
# What evaluation can get at

`Session.eval_stays_in_reach`: evaluation changes no frame that it cannot reach from the frame it begins in or
through a closure in the expression, and what can be reached afterwards was in reach before or is new.

1. A set of frames is closed in a store if its frames lead to no others, neither by their parents nor by
   what is bound in them (`Store.Closed`).
2. The invariant: all that the machine holds lies within a closed set (`State.Within`). A step keeps it,
   except that the set takes in the frames that the step creates, and touches no frame outside of the set
   (`State.step_confined`).
3. So does a run (`State.run_confined`). The frames in reach form a closed set.
-/

namespace SmallScheme

/-! ## Closed sets of frames -/

/-- The parent of the frame and all that is bound in it lie within the set. -/
structure Frame.Within (S : Set FrameId) (frame : Frame) : Prop where
  parent : ∀ p, frame.parent = some p → p ∈ S
  bindings : ∀ entry ∈ frame.bindings, entry.2.Within S

namespace Frame

variable {S T : Set FrameId} {frame : Frame}

theorem Within.mono (hST : S ⊆ T) (h : frame.Within S) : frame.Within T :=
  ⟨fun p hp => hST (h.parent p hp), fun entry he => (h.bindings entry he).mono hST⟩

theorem Within.bind (h : frame.Within S) (name : Symbol) {v : Value} (hv : v.Within S) :
    (frame.bind name v).Within S := by
  refine ⟨h.parent, fun entry he => ?_⟩
  rcases Bindings.mem_insert he with rfl | he
  · exact hv
  · exact h.bindings entry he

/-- The frame of a call holds its arguments and the frame of the closure. -/
theorem ofArguments_within {parent : FrameId} {params : List Symbol} {args : List Value}
    (h : ofArguments parent params args = .ok frame) (hp : parent ∈ S)
    (hargs : ∀ arg ∈ args, arg.Within S) : frame.Within S ∧ frame.parent = some parent := by
  obtain ⟨hparent, hbindings⟩ := ofArguments_eq_ok h
  refine ⟨⟨fun p hframe => ?_, fun entry he => hargs entry.2 (hbindings entry he)⟩, hparent⟩
  rw [hparent] at hframe
  cases hframe
  exact hp

end Frame

namespace Store

/-- The frames that were made between two stores. -/
def created (st st' : Store) : Set FrameId := {f : Nat | st.frames.size ≤ f ∧ f < st'.frames.size}

theorem mem_created {st st' : Store} {f : Nat} :
    f ∈ st.created st' ↔ st.frames.size ≤ f ∧ f < st'.frames.size := Iff.rfl

/-- The frames of the set lead to no others. -/
def Closed (st : Store) (S : Set FrameId) : Prop :=
  ∀ f ∈ S, ∀ frame, st.frames[f]? = some frame → frame.Within S

variable {S : Set FrameId} {st st' : Store}

theorem Closed.of_frames_eq (h : st.Closed S) (heq : st'.frames = st.frames) : st'.Closed S := by
  unfold Closed
  rw [heq]
  exact h

theorem Closed.get? (h : st.Closed S) {f : FrameId} (hf : f ∈ S) {name : Symbol} {v : Value}
    (hv : st.get? f name = some v) : v.Within S := by
  fun_induction Store.get? st f name with
  | case1 => cases hv
  | case2 f frame hframe w hw =>
    cases hv
    exact (h f hf frame hframe).bindings _ (Bindings.mem_of_get? hw)
  | case3 f frame hframe _ p hparent _ ih => exact ih ((h f hf frame hframe).parent p hparent) hv
  | case4 => cases hv
  | case5 => cases hv

theorem Closed.lookup (h : st.Closed S) {f : FrameId} (hf : f ∈ S) {name : Symbol} {v : Value}
    (hv : st.lookup f name = .ok v) : v.Within S := by
  unfold Store.lookup at hv
  split at hv
  · next hget =>
    cases hv
    exact h.get? hf hget
  · cases hv

theorem Closed.owner (h : st.Closed S) {f : FrameId} (hf : f ∈ S) (name : Symbol) :
    st.owner f name ∈ S := by
  fun_induction Store.owner st f name with
  | case1 => exact hf
  | case2 => exact hf
  | case3 f frame hframe _ p hparent _ ih => exact ih ((h f hf frame hframe).parent p hparent)
  | case4 => exact hf
  | case5 => exact hf

theorem Closed.bind (h : st.Closed S) (f : FrameId) (name : Symbol) {v : Value}
    (hv : v.Within S) : (st.bind f name v).Closed S := by
  intro g hg frame hframe
  rcases frames_bind hframe with hframe | ⟨old, hold, rfl⟩
  · exact h g hg frame hframe
  · exact (h g hg old hold).bind name hv

/-- A new frame joins a closed set. -/
theorem Closed.addFrame (h : st.Closed S) {frame : Frame} (hframe : frame.Within S) :
    (st.addFrame frame).2.Closed (S ∪ st.created (st.addFrame frame).2) := by
  intro g hg found hfound
  have hpush : (st.frames.push frame)[g]? = some found := hfound
  rw [Array.getElem?_push] at hpush
  split_ifs at hpush with hnew
  · cases hpush
    exact hframe.mono Set.subset_union_left
  · have hlt := (Array.getElem?_eq_some_iff.mp hpush).1
    have hgS : g ∈ S := hg.resolve_right fun hc => absurd hlt (Nat.not_lt.mpr hc.1)
    exact (h g hgS found hpush).mono Set.subset_union_left

/-! ## Effects on a store -/

/-- The frames of a store live on: none disappears, gets another parent or loses a binding. -/
structure Grows (st st' : Store) : Prop where
  size_le : st.frames.size ≤ st'.frames.size
  parent_eq : ∀ f < st.frames.size, st'.parent f = st.parent f
  binds_of_binds : ∀ f name, st.binds f name = true → st'.binds f name = true

/-- What evaluation does to a store when all it holds lies in the set: other frames stay as they are, and
each new frame has a parent, which lies in the set or was made before it. -/
structure Effect (S : Set FrameId) (st st' : Store) : Prop extends Grows st st' where
  untouched : ∀ f < st.frames.size, f ∉ S → st'.frames[f]? = st.frames[f]?
  parent_created : ∀ f : Nat, f ∈ st.created st' →
    ∃ p : Nat, st'.parent f = some p ∧ (p ∈ S ∨ st.frames.size ≤ p ∧ p < f)

theorem Grows.of_frames_eq (h : st'.frames = st.frames) : st.Grows st' := by
  refine ⟨by rw [h], fun f _ => ?_, fun f name hb => ?_⟩
  · rw [parent, parent, h]
  · rwa [binds, h]

theorem Grows.trans {st₁ : Store} (h₁ : st.Grows st₁) (h₂ : st₁.Grows st') : st.Grows st' := by
  refine ⟨h₁.size_le.trans h₂.size_le, fun f hf => ?_, fun f name hb => ?_⟩
  · rw [h₂.parent_eq f (hf.trans_le h₁.size_le), h₁.parent_eq f hf]
  · exact h₂.binds_of_binds f name (h₁.binds_of_binds f name hb)

theorem Grows.bind (st : Store) (f : FrameId) (name : Symbol) (v : Value) :
    st.Grows (st.bind f name v) := by
  refine ⟨(Array.size_modify).ge, fun g _ => ?_, fun g s hb => ?_⟩
  · show ((st.frames.modify f _)[g]?).bind Frame.parent = _
    rw [Array.getElem?_modify]
    split_ifs
    · rw [Option.bind_map]
      rfl
    · rfl
  · show ((st.frames.modify f _)[g]?).any _ = true
    rw [Array.getElem?_modify]
    split_ifs
    · unfold binds at hb
      cases hframe : st.frames[g]? with
      | none =>
        rw [hframe] at hb
        cases hb
      | some frame =>
        rw [hframe] at hb
        have hs : (frame.bindings.get? s).isSome = true := hb
        show (Bindings.get? (frame.bindings.insert name v) s).isSome = true
        rw [Bindings.get?_insert]
        split_ifs
        · rfl
        · exact hs
    · exact hb

theorem getElem?_addFrame_of_lt {f : FrameId} (hf : f < st.frames.size) (frame : Frame) :
    (st.addFrame frame).2.frames[f]? = st.frames[f]? := by
  show (st.frames.push frame)[f]? = _
  rw [Array.getElem?_push, if_neg hf.ne]

theorem parent_addFrame (st : Store) (frame : Frame) (f : FrameId) :
    (st.addFrame frame).2.parent f = if f = st.frames.size then frame.parent else st.parent f := by
  show ((st.frames.push frame)[f]?).bind Frame.parent = _
  rw [Array.getElem?_push]
  split_ifs <;> rfl

theorem Grows.addFrame (st : Store) (frame : Frame) : st.Grows (st.addFrame frame).2 := by
  refine ⟨?_, fun f hf => ?_, fun f name hb => ?_⟩
  · show _ ≤ (st.frames.push frame).size
    rw [Array.size_push]
    exact Nat.le_succ _
  · rw [parent_addFrame, if_neg hf.ne]
  · have hf : f < st.frames.size := by
      by_contra hf
      rw [binds, Array.getElem?_eq_none (Nat.not_lt.mp hf)] at hb
      cases hb
    rwa [binds, getElem?_addFrame_of_lt hf]

theorem created_eq_empty (h : st'.frames.size = st.frames.size) : st.created st' = ∅ := by
  ext f
  simp only [mem_created, Set.mem_empty_iff_false, iff_false]
  omega

theorem created_union_created {st₁ : Store} (h₁ : st.frames.size ≤ st₁.frames.size)
    (h₂ : st₁.frames.size ≤ st'.frames.size) :
    st.created st₁ ∪ st₁.created st' = st.created st' := by
  ext f
  simp only [Set.mem_union, mem_created]
  omega

theorem Effect.of_frames_eq (h : st'.frames = st.frames) : st.Effect S st' := by
  refine ⟨.of_frames_eq h, fun f _ _ => by rw [h], fun f hf => ?_⟩
  rw [created_eq_empty (by rw [h])] at hf
  cases hf

theorem Effect.bind {f : FrameId} (hf : f ∈ S) (name : Symbol) (v : Value) :
    st.Effect S (st.bind f name v) := by
  refine ⟨.bind st f name v, fun g _ hg => ?_, fun g hg => ?_⟩
  · have hne : f ≠ g := by
      rintro rfl
      exact hg hf
    show (st.frames.modify f _)[g]? = _
    rw [Array.getElem?_modify, if_neg hne]
  · rw [created_eq_empty Array.size_modify] at hg
    cases hg

theorem Effect.addFrame {frame : Frame} {p : FrameId} (hp : p ∈ S) (hframe : frame.parent = some p) :
    st.Effect S (st.addFrame frame).2 := by
  refine ⟨.addFrame st frame, fun f hf _ => getElem?_addFrame_of_lt hf frame, ?_⟩
  rintro f ⟨hge, hlt⟩
  have hsize : (st.addFrame frame).2.frames.size = st.frames.size + 1 := Array.size_push _
  obtain rfl : f = st.frames.size := by omega
  refine ⟨p, ?_, .inl hp⟩
  rw [parent_addFrame, if_pos rfl, hframe]

theorem Effect.trans {st₁ : Store} (h₁ : st.Effect S st₁)
    (h₂ : st₁.Effect (S ∪ st.created st₁) st') : st.Effect S st' := by
  refine ⟨h₁.toGrows.trans h₂.toGrows, fun f hf hS => ?_, ?_⟩
  · rw [h₂.untouched f (hf.trans_le h₁.size_le), h₁.untouched f hf hS]
    rintro (h | h)
    · exact hS h
    · exact absurd hf (Nat.not_lt.mpr h.1)
  · rintro f ⟨hge, hlt⟩
    by_cases hf : f < st₁.frames.size
    · rw [h₂.parent_eq f hf]
      exact h₁.parent_created f ⟨hge, hf⟩
    · obtain ⟨p, hp, (hpS | hpS) | hpS⟩ := h₂.parent_created f ⟨Nat.not_lt.mp hf, hlt⟩
      · exact ⟨p, hp, .inl hpS⟩
      · exact ⟨p, hp, .inr ⟨hpS.1, hpS.2.trans_le (Nat.not_lt.mp hf)⟩⟩
      · exact ⟨p, hp, .inr ⟨h₁.size_le.trans hpS.1, hpS.2⟩⟩

/-- Evaluation went from one store to another, and what it holds there, according to `P`, lies in the set
or among the frames that it created. -/
structure Evolves (S : Set FrameId) (st st' : Store) (P : Set FrameId → Prop) : Prop where
  effect : st.Effect S st'
  holds : P (S ∪ st.created st')

theorem Evolves.of_size_eq {P : Set FrameId → Prop} (heffect : st.Effect S st')
    (hsize : st'.frames.size = st.frames.size) (h : P S) : st.Evolves S st' P := by
  refine ⟨heffect, ?_⟩
  rw [created_eq_empty hsize, Set.union_empty]
  exact h

/-- What happens in the set and the frames created before, happens in the set. -/
theorem Evolves.after {st₁ : Store} {P : Set FrameId → Prop} (heffect : st.Effect S st₁)
    (h : st₁.Evolves (S ∪ st.created st₁) st' P) : st.Evolves S st' P := by
  refine ⟨heffect.trans h.effect, ?_⟩
  rw [← created_union_created heffect.size_le h.effect.size_le, ← Set.union_assoc]
  exact h.holds

end Store

/-! ## The machine within a closed set -/

/-- All that a waiting evaluation holds lies in the set. -/
def Pending.Within (S : Set FrameId) : Pending → Prop
  | .branch consequent alternative frame =>
    consequent.Within S ∧ (∀ exp, alternative = some exp → exp.Within S) ∧ frame ∈ S
  | .define _ frame => frame ∈ S
  | .assign _ frame => frame ∈ S
  | .sequence next rest frame => (∀ exp ∈ next :: rest, exp.Within S) ∧ frame ∈ S
  | .operator args frame => args.Within S ∧ frame ∈ S
  | .operand procedure done rest frame =>
    procedure.Within S ∧ (∀ v ∈ done, v.Within S) ∧ rest.Within S ∧ frame ∈ S

/-- All that the machine works on lies in the set. -/
def Control.Within (S : Set FrameId) : Control → Prop
  | .eval exp frame => exp.Within S ∧ frame ∈ S
  | .give v => v.Within S

/-- All that the waiting evaluations hold lies in the set. -/
def Stack.Within (S : Set FrameId) (k : Stack) : Prop := ∀ p ∈ k.pending, p.Within S

/-- **The invariant.** All that the machine holds lies in a set that is closed in its store. -/
structure State.Within (S : Set FrameId) (s : State) : Prop where
  control : s.control.Within S
  stack : s.stack.Within S
  store : s.store.Closed S

/-- The value of an outcome, if there is one, lies in the set. -/
def Outcome.Within (S : Set FrameId) : Outcome → Prop
  | .value v => v.Within S
  | .failed _ | .quit | .unfinished => True

theorem Pending.Within.mono {S T : Set FrameId} (hST : S ⊆ T) {p : Pending} (h : p.Within S) :
    p.Within T := by
  cases p with
  | branch consequent alternative frame =>
    exact ⟨h.1.mono hST, fun exp hexp => (h.2.1 exp hexp).mono hST, hST h.2.2⟩
  | define name frame => exact hST h
  | assign name frame => exact hST h
  | sequence next rest frame => exact ⟨fun exp hexp => (h.1 exp hexp).mono hST, hST h.2⟩
  | operator args frame => exact ⟨h.1.mono hST, hST h.2⟩
  | operand procedure done rest frame =>
    exact ⟨h.1.mono hST, fun v hv => (h.2.1 v hv).mono hST, h.2.2.1.mono hST, hST h.2.2.2⟩

theorem Stack.Within.mono {S T : Set FrameId} (hST : S ⊆ T) {k : Stack} (h : k.Within S) :
    k.Within T :=
  fun p hp => (h p hp).mono hST

namespace Next

/-- The store after a step. -/
def store : Next → Store
  | .running s => s.store
  | .done _ st => st

/-- The machine, or what it came to, lies within a set that is closed in the store. -/
def Within (S : Set FrameId) : Next → Prop
  | .running s => s.Within S
  | .done out st => out.Within S ∧ st.Closed S

/-- From a store in which the set is closed, the machine came here without leaving the set, but for the
frames that it created. -/
def Confined (S : Set FrameId) (st : Store) (next : Next) : Prop :=
  st.Evolves S next.store fun T => next.Within T

variable {S : Set FrameId} {st : Store} {next : Next}

theorem Confined.of_frames_eq (heq : next.store.frames = st.frames) (h : next.Within S) :
    next.Confined S st :=
  Store.Evolves.of_size_eq (.of_frames_eq heq) (by rw [heq]) h

theorem Confined.after_frames_eq {st₁ : Store} (heq : st₁.frames = st.frames)
    (h : next.Confined S st₁) : next.Confined S st := by
  refine Store.Evolves.after (.of_frames_eq heq) ?_
  rw [Store.created_eq_empty (by rw [heq]), Set.union_empty]
  exact h

theorem confined_failed (hst : st.Closed S) (e : Error) : (done (.failed e) st).Confined S st :=
  .of_frames_eq rfl ⟨trivial, hst⟩

end Next

/-! ## Steps -/

namespace Stack

variable {S : Set FrameId} {k : Stack} {st : Store} {frame : FrameId}

section

variable (hk : k.Within S) (hst : st.Closed S)
include hk hst

theorem proceed_within (control : Control) (hc : control.Within S) :
    (k.proceed st control).Within S := ⟨hc, hk, hst⟩

theorem proceed_confined (control : Control) (hc : control.Within S) :
    (k.proceed st control).Confined S st :=
  .of_frames_eq rfl (proceed_within hk hst control hc)

theorem enter_within {exp : Value} {waiting : Pending} (hexp : exp.Within S) (hframe : frame ∈ S)
    (hw : waiting.Within S) : (k.enter st exp frame waiting).Within S := by
  unfold enter
  split_ifs
  · exact ⟨trivial, hst⟩
  · exact ⟨⟨hexp, hframe⟩, List.forall_mem_cons.mpr ⟨hw, hk⟩, hst⟩

theorem body_within {exps : List Value} (hexps : ∀ exp ∈ exps, exp.Within S) (hframe : frame ∈ S) :
    (k.body st frame exps).Within S := by
  match exps with
  | [] => exact proceed_within hk hst (.give .nil) Value.within_nil
  | [last] => exact proceed_within hk hst (.eval last frame) ⟨hexps last (by simp), hframe⟩
  | exp :: next :: rest =>
    rw [List.forall_mem_cons] at hexps
    exact enter_within hk hst hexps.1 hframe ⟨hexps.2, hframe⟩

end

theorem store_enter (k : Stack) (st : Store) (exp : Value) (frame : FrameId) (waiting : Pending) :
    (k.enter st exp frame waiting).store = st := by
  unfold enter
  split_ifs <;> rfl

theorem store_body (k : Stack) (st : Store) (frame : FrameId) (exps : List Value) :
    (k.body st frame exps).store = st := by
  match exps with
  | [] => rfl
  | [last] => rfl
  | exp :: next :: rest => exact store_enter k st exp frame _

section

variable (hk : k.Within S) (hst : st.Closed S)
include hk hst

theorem enter_confined {exp : Value} {waiting : Pending} (hexp : exp.Within S) (hframe : frame ∈ S)
    (hw : waiting.Within S) : (k.enter st exp frame waiting).Confined S st :=
  .of_frames_eq (by rw [store_enter]) (enter_within hk hst hexp hframe hw)

theorem body_confined {exps : List Value} (hexps : ∀ exp ∈ exps, exp.Within S) (hframe : frame ∈ S) :
    (k.body st frame exps).Confined S st :=
  .of_frames_eq (by rw [store_body]) (body_within hk hst hexps hframe)

/-- A call creates a frame inside that of the closure, and goes on in it. -/
theorem call_confined {procedure : Value} {args : List Value} (hp : procedure.Within S)
    (hargs : ∀ arg ∈ args, arg.Within S) : (k.call st procedure args).Confined S st := by
  match procedure with
  | .nil => exact Next.confined_failed hst _
  | .pair .. => exact Next.confined_failed hst _
  | .atom (.literal _) => exact Next.confined_failed hst _
  | .atom (.primitive p) =>
    simp only [call]
    cases happly : p.apply args st with
    | error e => exact Next.confined_failed hst e
    | ok result =>
      obtain ⟨hv, heq⟩ := Primitive.apply_within happly hargs
      exact .after_frames_eq heq (proceed_confined hk (hst.of_frames_eq heq) (.give result.1) hv)
  | .atom (.closure label params body outer) =>
    rw [Value.within_closure] at hp
    simp only [call]
    cases hinner : Frame.ofArguments outer params args with
    | error e => exact Next.confined_failed hst e
    | ok inner =>
      obtain ⟨hwithin, hparent⟩ := Frame.ofArguments_within hinner hp.1 hargs
      refine Store.Evolves.after (.addFrame hp.1 hparent) (body_confined ?_ (hst.addFrame hwithin) ?_ ?_)
      · exact hk.mono Set.subset_union_left
      · exact fun exp hexp => (hp.2 exp hexp).mono Set.subset_union_left
      · refine .inr ⟨Nat.le_refl _, ?_⟩
        show st.frames.size < (st.frames.push inner).size
        rw [Array.size_push]
        exact Nat.lt_succ_self _

theorem operands_confined {procedure rest : Value} {done : List Value} (hp : procedure.Within S)
    (hdone : ∀ v ∈ done, v.Within S) (hrest : rest.Within S) (hframe : frame ∈ S) :
    (k.operands st procedure done rest frame).Confined S st := by
  match rest with
  | .nil => exact call_confined hk hst hp fun v hv => hdone v (List.mem_reverse.mp hv)
  | .atom a => exact Next.confined_failed hst _
  | .pair label head tail =>
    rw [Value.within_pair] at hrest
    exact enter_confined hk hst hrest.1 hframe ⟨hp, hdone, hrest.2, hframe⟩

/-- To bind a name in a frame of the set changes no other frame. -/
theorem bind_confined {f : FrameId} (hf : f ∈ S) (name : Symbol) {v : Value} (hv : v.Within S)
    (control : Control) (hc : control.Within S) :
    (k.proceed (st.bind f name v) control).Confined S st :=
  Store.Evolves.of_size_eq (.bind hf name v) Array.size_modify (proceed_within hk (hst.bind f name hv) control hc)

theorem form_confined {f : Form} (hf : f.Within S) (hframe : frame ∈ S) :
    (k.form st frame f).2.Confined S st := by
  cases f with
  | quote v => exact proceed_confined hk hst (.give v) (hf v (by simp [Form.parts]))
  | define name value =>
    exact enter_confined hk hst (hf value (by simp [Form.parts])) hframe hframe
  | defineProcedure name params body =>
    have heq : (st.closure params body frame).2.frames = st.frames := rfl
    refine .after_frames_eq heq (bind_confined hk (hst.of_frames_eq heq) hframe name ?_
      (.give (.symbol okSymbol)) ?_)
    · exact Value.within_closure.mpr ⟨hframe, hf⟩
    · exact Value.within_literal _
  | assign name value =>
    exact enter_confined hk hst (hf value (by simp [Form.parts])) hframe hframe
  | conditional test consequent alternative =>
    refine enter_confined hk hst (hf test (by simp [Form.parts])) hframe ⟨?_, ?_, hframe⟩
    · exact hf consequent (by simp [Form.parts])
    · rintro exp rfl
      exact hf exp (by simp [Form.parts])
  | sequence body => exact body_confined hk hst hf hframe
  | lambda params body =>
    have heq : (st.closure params body frame).2.frames = st.frames := rfl
    refine .after_frames_eq heq (proceed_confined hk (hst.of_frames_eq heq) (.give _) ?_)
    exact Value.within_closure.mpr ⟨hframe, hf⟩
  | bind names values body =>
    obtain ⟨hexp, heq⟩ := Form.applied_within st names
      (fun v hv => hf v (List.mem_append_left body hv))
      (fun v hv => hf v (List.mem_append_right values hv))
    exact .after_frames_eq heq
      (proceed_confined hk (hst.of_frames_eq heq) (.eval _ frame) ⟨hexp, hframe⟩)
  | quit => exact .of_frames_eq rfl ⟨trivial, hst⟩
  | vars => exact proceed_confined hk hst (.give .nil) Value.within_nil

theorem eval_confined {exp : Value} (hexp : exp.Within S) (hframe : frame ∈ S) :
    (k.eval st exp frame).2.Confined S st := by
  unfold eval
  split
  · next name =>
    dsimp only
    cases hv : st.lookup frame name with
    | error e => exact Next.confined_failed hst e
    | ok v => exact proceed_confined hk hst (.give v) (hst.lookup hframe hv)
  · next label head args =>
    rw [Value.within_pair] at hexp
    cases Keyword.ofHead? head with
    | none => exact enter_confined hk hst hexp.1 hframe ⟨hexp.2, hframe⟩
    | some keyword =>
      dsimp only
      cases hf : Form.parse keyword args with
      | error e => exact Next.confined_failed hst e
      | ok f => exact form_confined hk hst (Form.parse_within hf hexp.2) hframe
  · exact proceed_confined hk hst (.give exp) hexp

theorem resume_confined {v : Value} (hv : v.Within S) {waiting : Pending} (hw : waiting.Within S) :
    (k.resume st v waiting).2.Confined S st := by
  cases waiting with
  | branch consequent alternative frame =>
    obtain ⟨hthen, helse, hframe⟩ := hw
    unfold resume
    dsimp only
    split_ifs
    · exact proceed_confined hk hst (.eval consequent frame) ⟨hthen, hframe⟩
    · cases alternative with
      | none => exact proceed_confined hk hst (.give .nil) Value.within_nil
      | some exp => exact proceed_confined hk hst (.eval exp frame) ⟨helse exp rfl, hframe⟩
  | define name frame =>
    exact bind_confined hk hst hw name hv (.give (.symbol okSymbol)) (Value.within_literal _)
  | assign name frame => exact bind_confined hk hst (hst.owner hw name) name hv (.give v) hv
  | sequence next rest frame => exact body_confined hk hst hw.1 hw.2
  | operator args frame =>
    exact operands_confined hk hst hv (fun w hw => by cases hw) hw.1 hw.2
  | operand procedure done rest frame =>
    obtain ⟨hp, hdone, hrest, hframe⟩ := hw
    exact operands_confined hk hst hp (List.forall_mem_cons.mpr ⟨hv, hdone⟩) hrest hframe

end

end Stack

namespace State

variable {S : Set FrameId} {s : State}

theorem start_within {exp : Value} {frame : FrameId} {st : Store} (hexp : exp.Within S)
    (hframe : frame ∈ S) (hst : st.Closed S) (depth : Nat) : (start exp frame depth st).Within S := by
  refine ⟨⟨hexp, hframe⟩, ?_, hst⟩
  intro p hp
  cases hp

theorem step_confined (h : s.Within S) : s.step.2.Confined S s.store := by
  obtain ⟨control, ⟨pending, depth⟩, st⟩ := s
  obtain ⟨hcontrol, hstack, hst⟩ := h
  cases control with
  | eval exp frame => exact Stack.eval_confined hstack hst hcontrol.1 hcontrol.2
  | give v =>
    cases pending with
    | nil => exact .of_frames_eq rfl ⟨hcontrol, hst⟩
    | cons waiting pending =>
      have hpending := List.forall_mem_cons.mp hstack
      exact Stack.resume_confined (k := ⟨pending, depth - 1⟩) hpending.2 hst hcontrol hpending.1

/-- A run within a closed set stays there, but for the frames that it creates. -/
theorem run_confined {σ : Type} (observe : σ → EvalEvent → σ) (fuel : Nat) (seen : σ)
    (h : s.Within S) :
    (Next.done (s.run observe fuel seen).2.1 (s.run observe fuel seen).2.2).Confined S s.store := by
  induction fuel generalizing seen s S with
  | zero => exact .of_frames_eq rfl ⟨trivial, h.store⟩
  | succ fuel ih =>
    have hstep := step_confined h
    rw [run]
    generalize s.step = result at hstep
    obtain ⟨events, s' | ⟨out, st⟩⟩ := result
    · exact Store.Evolves.after hstep.effect (ih _ hstep.holds)
    · exact hstep

end State

theorem Session.eval_within {S : Set FrameId} (fuel : Nat) (s : Session) {exp : Value} {frame : FrameId}
    (hexp : exp.Within S) (hframe : frame ∈ S) (hst : s.store.Closed S) :
    (Next.done (s.eval fuel exp frame).1 (s.eval fuel exp frame).2.store).Confined S s.store :=
  State.run_confined Journal.noteEvaluation fuel s.journal (State.start_within hexp hframe hst 0)

/-! ## The frames in reach -/

namespace Store

/-- A frame leads to its parent and to the frames of the closures in the values bound in it. -/
inductive Link (st : Store) (f g : FrameId) : Prop where
  | parent (h : st.parent f = some g)
  | binding {name : Symbol} {v : Value} (h : (name, v) ∈ st.bindings f) (hv : v.Captures g)

/-- One frame can be reached from another. -/
def Reaches (st : Store) : FrameId → FrameId → Prop := Relation.ReflTransGen st.Link

/-- The frames that can be reached from a frame, or from the closures in an expression. -/
def reach (st : Store) (exp : Value) (frame : FrameId) : Set FrameId :=
  {g | ∃ f, (f = frame ∨ exp.Captures f) ∧ st.Reaches f g}

variable {S : Set FrameId} {st : Store} {exp : Value} {frame f g : FrameId}

theorem frame_mem_reach (st : Store) (exp : Value) (frame : FrameId) : frame ∈ st.reach exp frame :=
  ⟨frame, .inl rfl, .refl⟩

theorem within_reach (st : Store) (exp : Value) (frame : FrameId) : exp.Within (st.reach exp frame) :=
  fun f hf => ⟨f, .inr hf, .refl⟩

theorem reach_of_link (hf : f ∈ st.reach exp frame) (h : st.Link f g) : g ∈ st.reach exp frame := by
  obtain ⟨r, hr, hreaches⟩ := hf
  exact ⟨r, hr, hreaches.tail h⟩

/-- The frames in reach lead to no others. -/
theorem closed_reach (st : Store) (exp : Value) (frame : FrameId) : st.Closed (st.reach exp frame) := by
  intro f hf found hfound
  constructor
  · intro p hp
    refine reach_of_link hf (.parent ?_)
    rw [parent, hfound]
    exact hp
  · rintro ⟨name, v⟩ he g hg
    have hb : (name, v) ∈ st.bindings f := by
      rw [bindings, hfound]
      exact he
    exact reach_of_link hf (.binding hb hg)

theorem Closed.link (h : st.Closed S) (hf : f ∈ S) (hlink : st.Link f g) : g ∈ S := by
  cases hlink with
  | parent hp =>
    obtain ⟨found, hfound, hp⟩ := Option.bind_eq_some_iff.mp hp
    exact (h f hf found hfound).parent g hp
  | binding hb hv =>
    unfold bindings at hb
    cases hfound : st.frames[f]? with
    | none =>
      rw [hfound] at hb
      cases hb
    | some found =>
      rw [hfound] at hb
      exact (h f hf found hfound).bindings _ hb g hv

/-- Nothing outside of a closed set can be reached from it. -/
theorem Closed.reaches (h : st.Closed S) (hf : f ∈ S) (hreaches : st.Reaches f g) : g ∈ S := by
  induction hreaches with
  | refl => exact hf
  | tail _ hlink ih => exact h.link ih hlink

end Store

/-- **Encapsulation.** Let evaluation begin in any store, however it ends. Every frame that existed and
could not be reached from the frame of the evaluation, or from a closure in the expression, is as it was.
Afterwards every frame that can be reached from those in reach before, or from the value, was in reach
before or was created by the evaluation. -/
theorem Session.eval_stays_in_reach (fuel : Nat) (s : Session) (exp : Value) (frame : FrameId) :
    (∀ g < s.store.frames.size, g ∉ s.store.reach exp frame →
      (s.eval fuel exp frame).2.store.frames[g]? = s.store.frames[g]?) ∧
    (∀ f ∈ s.store.reach exp frame, ∀ g, (s.eval fuel exp frame).2.store.Reaches f g →
      g ∈ s.store.reach exp frame ∪ s.store.created (s.eval fuel exp frame).2.store) ∧
    (∀ v, (s.eval fuel exp frame).1 = .value v → ∀ f, v.Captures f →
      ∀ g, (s.eval fuel exp frame).2.store.Reaches f g →
      g ∈ s.store.reach exp frame ∪ s.store.created (s.eval fuel exp frame).2.store) := by
  obtain ⟨heffect, hvalue, hclosed⟩ := s.eval_within fuel (s.store.within_reach exp frame)
    (s.store.frame_mem_reach exp frame) (s.store.closed_reach exp frame)
  refine ⟨heffect.untouched, fun f hf g hg => ?_, fun v hv f hf g hg => ?_⟩
  · exact hclosed.reaches (.inl hf) hg
  · rw [hv] at hvalue
    exact hclosed.reaches (hvalue f hf) hg

end SmallScheme
