import Mathlib.Tactic.SplitIfs
import SmallScheme.Proofs.Captures

/-!
# Each cell has one content

A pair or a closure is a cell with a label of its own. Whatever a program builds, no two of its cells with
different contents have the same label.

1. `Contents` says what each label in use stands for, and `v.Agrees C` that all cells in `v` are as `C` says.
   So two values that agree with the same contents hold equal cells under equal labels (`Agrees.unique`).
2. Making a value uses labels that stand for nothing so far, so the contents only grow
   (`Store.cons_agrees`, `Store.closure_agrees`, `Store.embed_agrees`, `Form.applied_agrees`).
3. The invariant: all that the machine holds agrees with the contents, and so does the store
   (`State.Agrees`). A step keeps it (`State.step_agrees`).
-/

namespace SmallScheme

/-! ## Cells -/

namespace Value

/-- The second value occurs in the first one, at any depth. -/
inductive Part : Value → Value → Prop where
  | refl {v} : Part v v
  | head {label head tail v} (h : Part head v) : Part (.pair label head tail) v
  | tail {label head tail v} (h : Part tail v) : Part (.pair label head tail) v
  | body {label params body frame exp v} (hexp : exp ∈ body) (h : Part exp v) :
      Part (.atom (.closure label params body frame)) v

theorem Part.trans {v w x : Value} (hvw : v.Part w) (hwx : w.Part x) : v.Part x := by
  induction hvw with
  | refl => exact hwx
  | head _ ih => exact .head (ih hwx)
  | tail _ ih => exact .tail (ih hwx)
  | body hexp _ ih => exact .body hexp (ih hwx)

/-- The label of a cell. -/
def label? : Value → Option Label
  | .pair label _ _ => some label
  | .atom (.closure label _ _ _) => some label
  | .atom (.literal _) | .atom (.primitive _) | .nil => none

end Value

/-- The pair or closure that each label stands for. -/
abbrev Contents := Label → Option Value

namespace Contents

/-- Nothing of the contents is lost. -/
def Extends (C C' : Contents) : Prop := ∀ label v, C label = some v → C' label = some v

/-- No label from this one on stands for anything. -/
def FreshFrom (C : Contents) (next : Label) : Prop := ∀ label, next ≤ label → C label = none

/-- The contents with one more cell. -/
def add (C : Contents) (label : Label) (v : Value) : Contents :=
  fun other => if other = label then some v else C other

/-- Cells are added, so that something holds. -/
def Grows (C : Contents) (P : Contents → Prop) : Prop := ∃ C', C.Extends C' ∧ P C'

variable {C C' C'' : Contents} {next : Label} {v : Value}

theorem Extends.refl (C : Contents) : C.Extends C := fun _ _ h => h

theorem Extends.trans (h : C.Extends C') (h' : C'.Extends C'') : C.Extends C'' :=
  fun label v hv => h' label v (h label v hv)

@[simp] theorem add_self (C : Contents) (label : Label) (v : Value) : C.add label v label = some v :=
  if_pos rfl

theorem FreshFrom.extends_add (h : C.FreshFrom next) (v : Value) : C.Extends (C.add next v) := by
  intro label w hw
  have hne : label ≠ next := by
    rintro rfl
    rw [h label (Nat.le_refl label)] at hw
    cases hw
  rw [add, if_neg hne]
  exact hw

theorem FreshFrom.add (h : C.FreshFrom next) (v : Value) : (C.add next v).FreshFrom (next + 1) := by
  intro label hlabel
  rw [Contents.add, if_neg (Nat.ne_of_gt hlabel)]
  exact h label (Nat.le_of_succ_le hlabel)

theorem Grows.of_self {P : Contents → Prop} (h : P C) : C.Grows P := ⟨C, .refl C, h⟩

end Contents

namespace Value

/-- All cells of the value are as the contents say. -/
def Agrees (C : Contents) (v : Value) : Prop :=
  ∀ cell label, v.Part cell → cell.label? = some label → C label = some cell

variable {C C' : Contents} {v w : Value}

theorem Agrees.mono (hC : C.Extends C') (h : v.Agrees C) : v.Agrees C' :=
  fun cell label hcell hlabel => hC label cell (h cell label hcell hlabel)

theorem Agrees.part (h : v.Agrees C) (hw : v.Part w) : w.Agrees C :=
  fun cell label hcell hlabel => h cell label (hw.trans hcell) hlabel

/-- In values that agree with the contents, cells with the same label are equal. -/
theorem Agrees.unique (hv : v.Agrees C) (hw : w.Agrees C) {label : Label} (hl : v.label? = some label)
    (hl' : w.label? = some label) : v = w :=
  Option.some.inj ((hv v label .refl hl).symm.trans (hw w label .refl hl'))

@[simp] theorem agrees_nil : Agrees C .nil := by
  rintro cell label ⟨⟩ ⟨⟩

@[simp] theorem agrees_literal (l : Literal) : Agrees C (.atom (.literal l)) := by
  rintro cell label ⟨⟩ ⟨⟩

@[simp] theorem agrees_primitive (p : Primitive) : Agrees C (.atom (.primitive p)) := by
  rintro cell label ⟨⟩ ⟨⟩

theorem agrees_pair {label : Label} {head tail : Value} :
    Agrees C (.pair label head tail) ↔
      C label = some (.pair label head tail) ∧ head.Agrees C ∧ tail.Agrees C := by
  constructor
  · intro h
    exact ⟨h _ label .refl rfl, h.part (.head .refl), h.part (.tail .refl)⟩
  · rintro ⟨hself, hhead, htail⟩ cell other hcell hlabel
    cases hcell with
    | refl =>
      cases hlabel
      exact hself
    | head hcell => exact hhead cell other hcell hlabel
    | tail hcell => exact htail cell other hcell hlabel

theorem agrees_closure {label : Label} {params : List Symbol} {body : List Value} {frame : FrameId} :
    Agrees C (.atom (.closure label params body frame)) ↔
      C label = some (.atom (.closure label params body frame)) ∧ ∀ exp ∈ body, exp.Agrees C := by
  constructor
  · intro h
    exact ⟨h _ label .refl rfl, fun exp hexp => h.part (.body hexp .refl)⟩
  · rintro ⟨hself, hbody⟩ cell other hcell hlabel
    cases hcell with
    | refl =>
      cases hlabel
      exact hself
    | body hexp hcell => exact hbody _ hexp cell other hcell hlabel

theorem agrees_hereditary : Hereditary (Agrees C) := fun _ _ _ h => (agrees_pair.mp h).2

end Value

/-! ## Making values -/

/-- All values bound in the frames agree with the contents, and the labels not yet in use stand for
nothing. -/
structure Store.Agrees (C : Contents) (st : Store) : Prop where
  fresh : C.FreshFrom st.nextLabel
  bound : ∀ frame ∈ st.frames, ∀ entry ∈ frame.bindings, entry.2.Agrees C

/-- The contents grow, so that the value and the store agree with them. -/
def Contents.Admits (C : Contents) (made : Value × Store) : Prop :=
  C.Grows fun C' => made.1.Agrees C' ∧ made.2.Agrees C'

namespace Store

variable {C : Contents} {st : Store}

theorem Agrees.add (h : st.Agrees C) (v : Value) :
    { st with nextLabel := st.nextLabel + 1 }.Agrees (C.add st.nextLabel v) :=
  ⟨h.fresh.add v, fun frame hf entry he => (h.bound frame hf entry he).mono (h.fresh.extends_add v)⟩

theorem cons_agrees (hst : st.Agrees C) {head tail : Value} (hhead : head.Agrees C)
    (htail : tail.Agrees C) : C.Admits (st.cons head tail) := by
  have hext := hst.fresh.extends_add (.pair st.nextLabel head tail)
  refine ⟨_, hext, Value.agrees_pair.mpr ⟨?_, hhead.mono hext, htail.mono hext⟩, hst.add _⟩
  exact Contents.add_self C _ _

theorem closure_agrees (hst : st.Agrees C) (params : List Symbol) {body : List Value}
    (hbody : ∀ exp ∈ body, exp.Agrees C) (frame : FrameId) : C.Admits (st.closure params body frame) := by
  have hext := hst.fresh.extends_add (.atom (.closure st.nextLabel params body frame))
  refine ⟨_, hext, Value.agrees_closure.mpr ⟨?_, fun exp hexp => (hbody exp hexp).mono hext⟩, hst.add _⟩
  exact Contents.add_self C _ _

theorem consReversed_agrees (hst : st.Agrees C) {items : List Value} {tail : Value}
    (hitems : ∀ v ∈ items, v.Agrees C) (htail : tail.Agrees C) :
    C.Admits (st.consReversed items tail) := by
  unfold consReversed
  induction items generalizing tail st C with
  | nil => exact .of_self ⟨htail, hst⟩
  | cons item items ih =>
    rw [List.forall_mem_cons] at hitems
    obtain ⟨C₁, h₁, hpair, hst₁⟩ := cons_agrees hst hitems.1 htail
    obtain ⟨C₂, h₂, hrest⟩ := ih hst₁ (fun v hv => (hitems.2 v hv).mono h₁) hpair
    exact ⟨C₂, h₁.trans h₂, hrest⟩

theorem list_agrees (hst : st.Agrees C) {items : List Value} (hitems : ∀ v ∈ items, v.Agrees C) :
    C.Admits (st.list items) :=
  consReversed_agrees hst (fun v hv => hitems v (List.mem_reverse.mp hv)) Value.agrees_nil

end Store

/-- The pairs of a datum are new cells. -/
theorem Datum.labelled_agrees {C : Contents} (d : Datum) {next : Label} (hC : C.FreshFrom next) :
    C.Grows fun C' => (labelled next d).1.Agrees C' ∧ C'.FreshFrom (labelled next d).2 := by
  induction d generalizing C next with
  | atom a => exact .of_self ⟨Value.agrees_literal a, hC⟩
  | nil => exact .of_self ⟨Value.agrees_nil, hC⟩
  | pair label head tail ihHead ihTail =>
    -- The pair has a smaller label than its parts, so its cell is added before theirs.
    have hext := hC.extends_add (labelled next (.pair label head tail)).1
    obtain ⟨C₁, h₁, hhead, hC₁⟩ := ihHead (hC.add (labelled next (.pair label head tail)).1)
    obtain ⟨C₂, h₂, htail, hC₂⟩ := ihTail hC₁
    refine ⟨C₂, hext.trans (h₁.trans h₂), Value.agrees_pair.mpr ⟨?_, hhead.mono h₂, htail⟩, hC₂⟩
    exact h₁.trans h₂ _ _ (Contents.add_self C next _)

theorem Store.embed_agrees {C : Contents} {st : Store} (hst : st.Agrees C) (d : Datum) :
    C.Admits (st.embed d) := by
  obtain ⟨C', hext, hv, hfresh⟩ := d.labelled_agrees hst.fresh
  rw [← Datum.embed_eq] at hv hfresh
  exact ⟨C', hext, hv, hfresh, fun frame hf entry he => (hst.bound frame hf entry he).mono hext⟩

/-- The application that local bindings stand for is made of new cells and of what it is given. -/
theorem Form.applied_agrees {C : Contents} {st : Store} (hst : st.Agrees C) (names : List Symbol)
    {values body : List Value} (hvalues : ∀ v ∈ values, v.Agrees C) (hbody : ∀ v ∈ body, v.Agrees C) :
    C.Admits (applied st names values body) := by
  have hnames : ∀ v ∈ names.map Value.symbol, v.Agrees C := by simp
  obtain ⟨C₁, h₁, hparams, hst₁⟩ := Store.list_agrees hst hnames
  obtain ⟨C₂, h₂, hexps, hst₂⟩ := Store.list_agrees hst₁ fun v hv => (hbody v hv).mono h₁
  obtain ⟨C₃, h₃, hrest, hst₃⟩ := Store.cons_agrees hst₂ (hparams.mono h₂) hexps
  obtain ⟨C₄, h₄, hprocedure, hst₄⟩ :=
    Store.cons_agrees hst₃ (Value.agrees_literal (.symbol Keyword.lambdaSymbol)) hrest
  have hbefore : C.Extends C₄ := h₁.trans (h₂.trans (h₃.trans h₄))
  obtain ⟨C₅, h₅, hoperands, hst₅⟩ := Store.list_agrees hst₄ fun v hv => (hvalues v hv).mono hbefore
  obtain ⟨C₆, h₆, hmade⟩ := Store.cons_agrees hst₅ (hprocedure.mono h₅) hoperands
  exact ⟨C₆, hbefore.trans (h₅.trans h₆), hmade⟩

theorem Primitive.apply_agrees {C : Contents} {p : Primitive} {args : List Value} {st : Store}
    {made : Value × Store} (h : p.apply args st = .ok made) (hst : st.Agrees C)
    (hargs : ∀ arg ∈ args, arg.Agrees C) : C.Admits made := by
  obtain ⟨v, st'⟩ := made
  rcases apply_cases h with ⟨⟨l, rfl⟩, rfl⟩ | ⟨⟨label, head, tail, hmem, hv⟩, rfl⟩ |
    ⟨left, hleft, right, hright, hcons⟩
  · exact .of_self ⟨Value.agrees_literal l, hst⟩
  · obtain ⟨-, hhead, htail⟩ := Value.agrees_pair.mp (hargs _ hmem)
    rcases hv with rfl | rfl
    · exact .of_self ⟨hhead, hst⟩
    · exact .of_self ⟨htail, hst⟩
  · rw [← hcons]
    exact Store.cons_agrees hst (hargs left hleft) (hargs right hright)

/-! ## The store -/

namespace Store

variable {C : Contents} {st : Store}

theorem mem_of_get? {f : FrameId} {name : Symbol} {v : Value} (h : st.get? f name = some v) :
    ∃ frame ∈ st.frames, (name, v) ∈ frame.bindings := by
  fun_induction Store.get? st f name with
  | case1 => cases h
  | case2 f frame hframe w hw =>
    cases h
    exact ⟨frame, Array.mem_of_getElem? hframe, Bindings.mem_of_get? hw⟩
  | case3 f frame hframe _ p hparent _ ih => exact ih h
  | case4 => cases h
  | case5 => cases h

theorem Agrees.lookup (hst : st.Agrees C) {f : FrameId} {name : Symbol} {v : Value}
    (h : st.lookup f name = .ok v) : v.Agrees C := by
  unfold Store.lookup at h
  split at h
  · next hget =>
    cases h
    obtain ⟨frame, hframe, hv⟩ := mem_of_get? hget
    exact hst.bound frame hframe _ hv
  · cases h

theorem Agrees.bind (hst : st.Agrees C) (f : FrameId) (name : Symbol) {v : Value} (hv : v.Agrees C) :
    (st.bind f name v).Agrees C := by
  refine ⟨hst.fresh, fun frame hframe entry he => ?_⟩
  obtain ⟨g, hg⟩ := Array.mem_iff_getElem?.mp hframe
  rcases frames_bind hg with hg | ⟨old, hold, rfl⟩
  · exact hst.bound frame (Array.mem_of_getElem? hg) entry he
  · rcases Bindings.mem_insert he with rfl | he
    · exact hv
    · exact hst.bound old (Array.mem_of_getElem? hold) entry he

theorem Agrees.addFrame (hst : st.Agrees C) {frame : Frame}
    (hframe : ∀ entry ∈ frame.bindings, entry.2.Agrees C) : (st.addFrame frame).2.Agrees C := by
  refine ⟨hst.fresh, fun found hfound => ?_⟩
  rcases Array.mem_push.mp hfound with hfound | rfl
  · exact hst.bound found hfound
  · exact hframe

end Store

/-! ## The machine -/

/-- The values that a waiting evaluation holds. -/
def Pending.values : Pending → List Value
  | .branch consequent alternative _ => consequent :: alternative.toList
  | .define _ _ => []
  | .assign _ _ => []
  | .sequence next rest _ => next :: rest
  | .operator args _ => [args]
  | .operand procedure done rest _ => procedure :: rest :: done

/-- The value that the machine works on. -/
def Control.value : Control → Value
  | .eval exp _ => exp
  | .give v => v

/-- All values that the waiting evaluations hold agree with the contents. -/
def Stack.Agrees (C : Contents) (k : Stack) : Prop :=
  ∀ waiting ∈ k.pending, ∀ v ∈ waiting.values, v.Agrees C

/-- **The invariant.** All that the machine holds agrees with the contents. -/
structure State.Agrees (C : Contents) (s : State) : Prop where
  control : s.control.value.Agrees C
  stack : s.stack.Agrees C
  store : s.store.Agrees C

/-- The machine, or what it came to, agrees with the contents. -/
def Next.Agrees (C : Contents) : Next → Prop
  | .running s => s.Agrees C
  | .done out st => (∀ v, out = .value v → v.Agrees C) ∧ st.Agrees C

namespace Stack

variable {C C' : Contents} {k : Stack} {st : Store} {frame : FrameId}

theorem Agrees.mono (hC : C.Extends C') (h : k.Agrees C) : k.Agrees C' :=
  fun waiting hw v hv => (h waiting hw v hv).mono hC

/-- The machine goes on with a value that was just made. -/
theorem proceed_admitted {made : Value × Store} {control : Control} (hk : k.Agrees C)
    (hmade : C.Admits made) (hc : control.value = made.1) :
    C.Grows fun C' => (k.proceed made.2 control).Agrees C' := by
  obtain ⟨C', hext, hv, hst⟩ := hmade
  exact ⟨C', hext, hc ▸ hv, hk.mono hext, hst⟩

section

variable (hk : k.Agrees C) (hst : st.Agrees C)
include hst

theorem failed_agrees (e : Error) : (Next.done (.failed e) st).Agrees C := by
  refine ⟨?_, hst⟩
  rintro v ⟨⟩

include hk

theorem proceed_agrees (control : Control) (hc : control.value.Agrees C) :
    (k.proceed st control).Agrees C := ⟨hc, hk, hst⟩

theorem enter_agrees {exp : Value} {waiting : Pending} (hexp : exp.Agrees C)
    (hw : ∀ v ∈ waiting.values, v.Agrees C) : (k.enter st exp frame waiting).Agrees C := by
  unfold enter
  split_ifs
  · exact failed_agrees hst _
  · exact ⟨hexp, List.forall_mem_cons.mpr ⟨hw, hk⟩, hst⟩

theorem body_agrees {exps : List Value} (hexps : ∀ exp ∈ exps, exp.Agrees C) :
    (k.body st frame exps).Agrees C := by
  match exps with
  | [] => exact proceed_agrees hk hst (.give .nil) Value.agrees_nil
  | [last] => exact proceed_agrees hk hst (.eval last frame) (hexps last (by simp))
  | exp :: next :: rest =>
    rw [List.forall_mem_cons] at hexps
    exact enter_agrees hk hst hexps.1 hexps.2

theorem call_agrees {procedure : Value} {args : List Value} (hp : procedure.Agrees C)
    (hargs : ∀ arg ∈ args, arg.Agrees C) :
    C.Grows fun C' => (k.call st procedure args).Agrees C' := by
  match procedure with
  | .nil => exact .of_self (failed_agrees hst _)
  | .pair .. => exact .of_self (failed_agrees hst _)
  | .atom (.literal _) => exact .of_self (failed_agrees hst _)
  | .atom (.primitive p) =>
    simp only [call]
    cases happly : p.apply args st with
    | error e => exact .of_self (failed_agrees hst e)
    | ok made => exact proceed_admitted hk (Primitive.apply_agrees happly hst hargs) rfl
  | .atom (.closure label params body outer) =>
    simp only [call]
    cases hinner : Frame.ofArguments outer params args with
    | error e => exact .of_self (failed_agrees hst e)
    | ok inner =>
      have hbindings := (Frame.ofArguments_eq_ok hinner).2
      have hst' := hst.addFrame fun entry he => hargs entry.2 (hbindings entry he)
      exact .of_self (body_agrees hk hst' (Value.agrees_closure.mp hp).2)

theorem operands_agrees {procedure rest : Value} {done : List Value} (hp : procedure.Agrees C)
    (hdone : ∀ v ∈ done, v.Agrees C) (hrest : rest.Agrees C) :
    C.Grows fun C' => (k.operands st procedure done rest frame).Agrees C' := by
  match rest with
  | .nil => exact call_agrees hk hst hp fun v hv => hdone v (List.mem_reverse.mp hv)
  | .atom a => exact .of_self (failed_agrees hst _)
  | .pair label head tail =>
    obtain ⟨-, hhead, htail⟩ := Value.agrees_pair.mp hrest
    refine .of_self (enter_agrees hk hst hhead ?_)
    exact List.forall_mem_cons.mpr ⟨hp, List.forall_mem_cons.mpr ⟨htail, hdone⟩⟩

theorem define_agrees (name : Symbol) {v : Value} (hv : v.Agrees C) :
    (k.define st name v frame).2.Agrees C :=
  proceed_agrees hk (hst.bind frame name hv) (.give (.symbol okSymbol)) (Value.agrees_literal _)

theorem form_agrees {f : Form} (hf : ∀ v ∈ f.parts, v.Agrees C) :
    C.Grows fun C' => (k.form st frame f).2.Agrees C' := by
  cases f with
  | quote v => exact .of_self (proceed_agrees hk hst (.give v) (hf v (by simp [Form.parts])))
  | define name value =>
    exact .of_self (enter_agrees hk hst (hf value (by simp [Form.parts])) (by simp [Pending.values]))
  | defineProcedure name params body =>
    obtain ⟨C', hext, hv, hst'⟩ := Store.closure_agrees hst params hf frame
    exact ⟨C', hext, define_agrees (hk.mono hext) hst' name hv⟩
  | assign name value =>
    exact .of_self (enter_agrees hk hst (hf value (by simp [Form.parts])) (by simp [Pending.values]))
  | conditional test consequent alternative =>
    have hparts := List.forall_mem_cons.mp hf
    exact .of_self (enter_agrees hk hst hparts.1 hparts.2)
  | sequence body => exact .of_self (body_agrees hk hst hf)
  | lambda params body => exact proceed_admitted hk (Store.closure_agrees hst params hf frame) rfl
  | bind names values body =>
    refine proceed_admitted hk (Form.applied_agrees hst names ?_ ?_) rfl
    · exact fun v hv => hf v (List.mem_append_left body hv)
    · exact fun v hv => hf v (List.mem_append_right values hv)
  | quit =>
    refine .of_self ⟨?_, hst⟩
    rintro v ⟨⟩
  | vars => exact .of_self (proceed_agrees hk hst (.give .nil) Value.agrees_nil)

theorem eval_agrees {exp : Value} (hexp : exp.Agrees C) :
    C.Grows fun C' => (k.eval st exp frame).2.Agrees C' := by
  unfold eval
  split
  · next name =>
    dsimp only
    cases hv : st.lookup frame name with
    | error e => exact .of_self (failed_agrees hst e)
    | ok v => exact .of_self (proceed_agrees hk hst (.give v) (hst.lookup hv))
  · next label head args =>
    obtain ⟨-, hhead, hargs⟩ := Value.agrees_pair.mp hexp
    cases Keyword.ofHead? head with
    | none => exact .of_self (enter_agrees hk hst hhead (List.forall_mem_singleton.mpr hargs))
    | some keyword =>
      dsimp only
      cases hf : Form.parse keyword args with
      | error e => exact .of_self (failed_agrees hst e)
      | ok f => exact form_agrees hk hst (Form.parse_parts Value.agrees_hereditary hf hargs)
  · exact .of_self (proceed_agrees hk hst (.give exp) hexp)

theorem resume_agrees {v : Value} (hv : v.Agrees C) {waiting : Pending}
    (hw : ∀ v ∈ waiting.values, v.Agrees C) :
    C.Grows fun C' => (k.resume st v waiting).2.Agrees C' := by
  cases waiting with
  | branch consequent alternative frame =>
    obtain ⟨hthen, helse⟩ := List.forall_mem_cons.mp hw
    unfold resume
    dsimp only
    split_ifs
    · exact .of_self (proceed_agrees hk hst (.eval consequent frame) hthen)
    · cases alternative with
      | none => exact .of_self (proceed_agrees hk hst (.give .nil) Value.agrees_nil)
      | some exp =>
        exact .of_self (proceed_agrees hk hst (.eval exp frame) (helse exp (by simp)))
  | define name frame => exact .of_self (define_agrees hk hst name hv)
  | assign name frame => exact .of_self (proceed_agrees hk (hst.bind _ name hv) (.give v) hv)
  | sequence next rest frame => exact .of_self (body_agrees hk hst hw)
  | operator args frame =>
    exact operands_agrees hk hst hv (fun w hw => by cases hw) (List.forall_mem_singleton.mp hw)
  | operand procedure done rest frame =>
    obtain ⟨hp, hw⟩ := List.forall_mem_cons.mp hw
    obtain ⟨hrest, hdone⟩ := List.forall_mem_cons.mp hw
    exact operands_agrees hk hst hp (List.forall_mem_cons.mpr ⟨hv, hdone⟩) hrest

end

end Stack

/-- A step adds new cells at most. -/
theorem State.step_agrees {C : Contents} {s : State} (h : s.Agrees C) :
    C.Grows fun C' => s.step.2.Agrees C' := by
  obtain ⟨control, ⟨pending, depth⟩, st⟩ := s
  obtain ⟨hcontrol, hstack, hst⟩ := h
  cases control with
  | eval exp frame => exact Stack.eval_agrees hstack hst hcontrol
  | give v =>
    cases pending with
    | nil =>
      refine .of_self ⟨?_, hst⟩
      rintro _ ⟨⟩
      exact hcontrol
    | cons waiting pending =>
      have hpending := List.forall_mem_cons.mp hstack
      exact Stack.resume_agrees (k := ⟨pending, depth - 1⟩) hpending.2 hst hcontrol hpending.1

end SmallScheme
