import Mathlib.Logic.Function.Iterate
import SmallScheme.Proofs.BigStep

/-!
# The machine refines recursive evaluation

`run_refines_recursion`: a run of the machine that begins inside `d` waiting evaluations agrees with
the relation `Evaluates`, and the limit is met exactly by the derivations that are too high.

1. A run is an iteration of `Next.step`, whatever is observed on the way (`run_snd`).
2. Every derivation is followed by the machine under any stack of waiting evaluations
   (`Evaluates.followed`): up to the limit it comes to the outcome of the derivation, and beyond it the
   run fails. The only place where the limit counts is a part that something waits for (`Followed.as_part`).
3. Conversely every run that ends within the limit comes from a derivation (`explained`), by induction
   on the number of steps.
-/

namespace SmallScheme

/-- The outcome of a run that meets the limit. -/
def tooDeep : Outcome := .failed ⟨.recursionTooDeep maxDepth, none⟩

/-! ## Runs as iterations -/

namespace Next

/-- One more step, if the machine is still running. -/
def step : Next → Next
  | .running s => s.step.2
  | .done out st => .done out st

/-- What a run answers that is stopped at this point. -/
def answer : Next → Outcome × Store
  | .running s => (.unfinished, s.store)
  | .done out st => (out, st)

theorem iterate_done (n : Nat) (out : Outcome) (st : Store) :
    step^[n] (.done out st) = .done out st :=
  Function.iterate_fixed rfl n

/-- The machine comes from one point to the other. -/
def Leads (a b : Next) : Prop := ∃ n, step^[n] a = b

theorem Leads.refl (a : Next) : Leads a a := ⟨0, rfl⟩

theorem Leads.trans {a b c : Next} (hab : Leads a b) (hbc : Leads b c) : Leads a c := by
  obtain ⟨m, rfl⟩ := hab
  obtain ⟨n, rfl⟩ := hbc
  exact ⟨n + m, Function.iterate_add_apply step n m a⟩

theorem Leads.of_step {a b : Next} (h : a.step = b) : Leads a b := ⟨1, h⟩

/-- After enough steps a run stays at its end. -/
theorem Leads.settles {a : Next} {out : Outcome} {st : Store} (h : Leads a (.done out st)) :
    ∃ n, ∀ m, n ≤ m → step^[m] a = .done out st := by
  obtain ⟨n, hn⟩ := h
  refine ⟨n, fun m hm => ?_⟩
  rw [show m = (m - n) + n by omega, Function.iterate_add_apply, hn, iterate_done]

end Next

/-- What a run answers does not depend on what is observed. -/
theorem State.run_snd {σ : Type} (observe : σ → EvalEvent → σ) (fuel : Nat) (seen : σ) (s : State) :
    (s.run observe fuel seen).2 = (Next.step^[fuel] (.running s)).answer := by
  induction fuel generalizing seen s with
  | zero => rfl
  | succ fuel ih =>
    rw [Function.iterate_succ_apply, State.run, Next.step]
    rcases s.step with ⟨events, s' | ⟨out, st⟩⟩
    · exact ih _ _
    · rw [Next.iterate_done]
      rfl

/-! ## Tasks on the machine -/

namespace Stack

/-- One more waiting evaluation. -/
def push (k : Stack) (waiting : Pending) : Stack := ⟨waiting :: k.pending, k.depth + 1⟩

/-- The machine with an outcome for the evaluations that wait. -/
def finish (k : Stack) (st : Store) : Outcome → Next
  | .value v => k.proceed st (.give v)
  | out => .done out st

theorem finish_abrupt (k : Stack) (st : Store) {out : Outcome} (ha : out.Abrupt) :
    k.finish st out = .done out st := by
  cases out with
  | value v => exact absurd rfl (ha v)
  | _ => rfl

/-- Handing over a value takes the waiting evaluation off the stack. -/
theorem step_give (k : Stack) (st : Store) (v : Value) (waiting : Pending) :
    ((k.push waiting).proceed st (.give v)).step = (k.resume st v waiting).2 := rfl

theorem enter_of_lt {k : Stack} (hk : k.depth + 1 < maxDepth) (st : Store) (exp : Value)
    (frame : FrameId) (waiting : Pending) :
    k.enter st exp frame waiting = (k.push waiting).proceed st (.eval exp frame) :=
  if_neg (Nat.not_le.mpr hk)

theorem enter_of_le {k : Stack} (hk : maxDepth ≤ k.depth + 1) (st : Store) (exp : Value)
    (frame : FrameId) (waiting : Pending) : k.enter st exp frame waiting = .done tooDeep st :=
  if_pos hk

end Stack

/-- The machine that is about to do a task. -/
def Task.start (k : Stack) (st : Store) : Task → Next
  | .expression exp frame => k.proceed st (.eval exp frame)
  | .form f frame => (k.form st frame f).2
  | .body exps frame => k.body st frame exps
  | .operands procedure done rest frame => k.operands st procedure done.reverse rest frame
  | .call procedure args => k.call st procedure args

section Step

variable {k : Stack} {st : Store} {frame : FrameId}

theorem step_symbol (name : Symbol) :
    (Task.start k st (.expression (.symbol name) frame)).step =
      match st.lookup frame name with
      | .ok v => k.proceed st (.give v)
      | .error e => .done (.failed e) st := rfl

theorem step_constant {exp : Value} (h : exp.isConstant = true) :
    (Task.start k st (.expression exp frame)).step = k.proceed st (.give exp) := by
  match exp with
  | .nil => rfl
  | .atom (.primitive _) => rfl
  | .atom (.closure ..) => rfl
  | .atom (.literal (.number _)) => rfl
  | .atom (.literal (.string _)) => rfl
  | .atom (.literal (.boolean _)) => rfl

theorem step_special {label : Label} {head args : Value} {keyword : Keyword}
    (hk : Keyword.ofHead? head = some keyword) :
    (Task.start k st (.expression (.pair label head args) frame)).step =
      match Form.parse keyword args with
      | .ok f => Task.start k st (.form f frame)
      | .error e => .done (.failed e) st := by
  show (k.eval st (.pair label head args) frame).2 = _
  unfold Stack.eval
  simp only [hk]
  cases Form.parse keyword args <;> rfl

theorem step_application {label : Label} {head args : Value} (hk : Keyword.ofHead? head = none) :
    (Task.start k st (.expression (.pair label head args) frame)).step =
      k.enter st head frame (.operator args frame) := by
  show (k.eval st (.pair label head args) frame).2 = _
  unfold Stack.eval
  simp only [hk]

theorem call_notProcedure {v : Value} {args : List Value} (h : v.isProcedure = false) :
    k.call st v args = .done (.failed ⟨.notAProcedure v.text, none⟩) st := by
  match v with
  | .nil => rfl
  | .pair .. => rfl
  | .atom (.literal _) => rfl

end Step

/-! ## The machine follows a derivation -/

/-- Under every stack of waiting evaluations the machine does the task with this outcome, if the
height leaves it below the limit, and fails otherwise. -/
def Followed (task : Task) (st : Store) (h : Nat) (out : Outcome) (st' : Store) : Prop :=
  ∀ k : Stack, k.depth < maxDepth →
    (k.depth + h < maxDepth → (task.start k st).Leads (k.finish st' out)) ∧
    (maxDepth ≤ k.depth + h → ∃ st'', (task.start k st).Leads (.done tooDeep st''))

namespace Followed

variable {task next : Task} {st st₁ st₂ : Store} {h h' : Nat} {out : Outcome} {v : Value}

/-- A task that ends without further evaluation. -/
theorem of_finish (hs : ∀ k, (task.start k st).Leads (k.finish st₁ out)) :
    Followed task st 0 out st₁ :=
  fun k hk => ⟨fun _ => hs k, fun hle => absurd hle (by omega)⟩

/-- A task that another one takes the place of. -/
theorem of_tail (hs : ∀ k, (task.start k st).Leads (next.start k st₁))
    (hnext : Followed next st₁ h out st₂) : Followed task st h out st₂ := by
  intro k hk
  obtain ⟨low, high⟩ := hnext k hk
  refine ⟨fun hlt => (hs k).trans (low hlt), fun hle => ?_⟩
  obtain ⟨st', hst'⟩ := high hle
  exact ⟨st', (hs k).trans hst'⟩

variable {part : Value} {frame : FrameId} {waiting : Pending}

/-- A part that something waits for is one level deeper. -/
theorem as_part (hp : Followed (.expression part frame) st h out st₁) (waiting : Pending)
    {k : Stack} (hk : k.depth < maxDepth) :
    (k.depth + (h + 1) < maxDepth →
      (k.enter st part frame waiting).Leads ((k.push waiting).finish st₁ out)) ∧
    (maxDepth ≤ k.depth + (h + 1) →
      ∃ st', (k.enter st part frame waiting).Leads (.done tooDeep st')) := by
  by_cases hlt : k.depth + 1 < maxDepth
  · rw [Stack.enter_of_lt hlt]
    obtain ⟨low, high⟩ := hp (k.push waiting) hlt
    have hd : (k.push waiting).depth + h = k.depth + (h + 1) := by
      show k.depth + 1 + h = _
      omega
    rw [hd] at low high
    exact ⟨low, high⟩
  · rw [Stack.enter_of_le (Nat.not_lt.mp hlt)]
    exact ⟨fun hlt' => absurd hlt' (by omega), fun _ => ⟨st, .refl _⟩⟩

/-- A task that ends together with its part. -/
theorem of_part_stops (hs : ∀ k, (task.start k st).Leads (k.enter st part frame waiting))
    (hp : Followed (.expression part frame) st h out st₁) (ha : out.Abrupt) :
    Followed task st (h + 1) out st₁ := by
  intro k hk
  obtain ⟨low, high⟩ := hp.as_part waiting hk
  refine ⟨fun hlt => ?_, fun hle => ?_⟩
  · have := (hs k).trans (low hlt)
    rwa [Stack.finish_abrupt _ _ ha] at this ⊢
  · obtain ⟨st', hst'⟩ := high hle
    exact ⟨st', (hs k).trans hst'⟩

/-- A task that goes on after its part. -/
theorem of_part (hs : ∀ k, (task.start k st).Leads (k.enter st part frame waiting))
    (hp : Followed (.expression part frame) st h (.value v) st₁)
    (hr : ∀ k : Stack, (k.resume st₁ v waiting).2 = next.start k st₁)
    (hnext : Followed next st₁ h' out st₂) : Followed task st (max (h + 1) h') out st₂ := by
  intro k hk
  obtain ⟨low, high⟩ := hp.as_part waiting hk
  obtain ⟨low', high'⟩ := hnext k hk
  have reach (hlt : k.depth + (h + 1) < maxDepth) : (task.start k st).Leads (next.start k st₁) := by
    rw [← hr k, ← Stack.step_give]
    exact ((hs k).trans (low hlt)).trans (.of_step rfl)
  refine ⟨fun hlt => (reach (by omega)).trans (low' (by omega)), fun hle => ?_⟩
  by_cases hpart : k.depth + (h + 1) < maxDepth
  · obtain ⟨st', hst'⟩ := high' (by omega)
    exact ⟨st', (reach hpart).trans hst'⟩
  · obtain ⟨st', hst'⟩ := high (by omega)
    exact ⟨st', (hs k).trans hst'⟩

/-- A task that ends with what its part is used for. -/
theorem of_part_finish (hs : ∀ k, (task.start k st).Leads (k.enter st part frame waiting))
    (hp : Followed (.expression part frame) st h (.value v) st₁)
    (hr : ∀ k : Stack, (k.resume st₁ v waiting).2 = k.finish st₂ out) :
    Followed task st (h + 1) out st₂ := by
  intro k hk
  obtain ⟨low, high⟩ := hp.as_part waiting hk
  refine ⟨fun hlt => ?_, fun hle => ?_⟩
  · rw [← hr k, ← Stack.step_give]
    exact ((hs k).trans (low hlt)).trans (.of_step rfl)
  · obtain ⟨st', hst'⟩ := high hle
    exact ⟨st', (hs k).trans hst'⟩

end Followed

theorem Evaluates.followed {task : Task} {st st' : Store} {h : Nat} {out : Outcome}
    (heval : Evaluates task st h out st') : Followed task st h out st' := by
  induction heval with
  | bound h => exact .of_finish fun k => .of_step (by rw [step_symbol, h]; rfl)
  | unbound h => exact .of_finish fun k => .of_step (by rw [step_symbol, h]; rfl)
  | constant h => exact .of_finish fun k => .of_step (step_constant h)
  | malformed hk hf => exact .of_finish fun k => .of_step (by rw [step_special hk, hf]; rfl)
  | special hk hf _ ih => exact .of_tail (fun k => .of_step (by rw [step_special hk, hf])) ih
  | application hk _ _ ihhead ihargs =>
    exact .of_part (fun k => .of_step (step_application hk)) ihhead (fun k => rfl) ihargs
  | application_stops hk _ ha ih =>
    exact .of_part_stops (fun k => .of_step (step_application hk)) ih ha
  | quote => exact .of_finish fun k => .refl _
  | define _ ih => exact .of_part_finish (fun k => .refl _) ih fun k => rfl
  | define_stops _ ha ih => exact .of_part_stops (fun k => .refl _) ih ha
  | defineProcedure hc => exact .of_finish fun k => by simp only [Task.start, Stack.form, hc]; exact .refl _
  | assign _ ih => exact .of_part_finish (fun k => .refl _) ih fun k => rfl
  | assign_stops _ ha ih => exact .of_part_stops (fun k => .refl _) ih ha
  | consequent _ hv _ ihtest ihthen =>
    exact .of_part (fun k => .refl _) ihtest (fun k => by simp only [Stack.resume, hv]; rfl) ihthen
  | alternative _ hv _ ihtest ihelse =>
    exact .of_part (fun k => .refl _) ihtest (fun k => by simp only [Stack.resume, hv]; rfl) ihelse
  | no_alternative _ hv ih =>
    exact .of_part_finish (fun k => .refl _) ih fun k => by simp only [Stack.resume, hv]; rfl
  | conditional_stops _ ha ih => exact .of_part_stops (fun k => .refl _) ih ha
  | sequence _ ih => exact .of_tail (fun k => .refl _) ih
  | lambda hc => exact .of_finish fun k => by simp only [Task.start, Stack.form, hc]; exact .refl _
  | bind ha _ ih =>
    exact .of_tail (fun k => by simp only [Task.start, Stack.form, ha]; exact .refl _) ih
  | quit => exact .of_finish fun k => .refl _
  | vars => exact .of_finish fun k => .refl _
  | empty => exact .of_finish fun k => .refl _
  | last _ ih => exact .of_tail (fun k => .refl _) ih
  | next _ _ ihexp ihrest => exact .of_part (fun k => .refl _) ihexp (fun k => rfl) ihrest
  | next_stops _ ha ih => exact .of_part_stops (fun k => .refl _) ih ha
  | operand _ _ ihhead ihtail =>
    refine .of_part (fun k => .refl _) ihhead (fun k => ?_) ihtail
    simp only [Stack.resume, Task.start, List.reverse_append, List.reverse_singleton,
      List.singleton_append]
  | operand_stops _ ha ih => exact .of_part_stops (fun k => .refl _) ih ha
  | improper => exact .of_finish fun k => .refl _
  | complete _ ih =>
    refine .of_tail (fun k => ?_) ih
    simp only [Task.start, Stack.operands, List.reverse_reverse]
    exact .refl _
  | primitive h => exact .of_finish fun k => by simp only [Task.start, Stack.call, h]; exact .refl _
  | primitive_fails h =>
    exact .of_finish fun k => by simp only [Task.start, Stack.call, h]; exact .refl _
  | closure ha _ ih =>
    exact .of_tail (fun k => by simp only [Task.start, Stack.call, ha]; exact .refl _) ih
  | closure_fails ha =>
    exact .of_finish fun k => by simp only [Task.start, Stack.call, ha]; exact .refl _
  | notProcedure h =>
    exact .of_finish fun k => by simp only [Task.start, call_notProcedure h]; exact .refl _

/-! ## Runs come from derivations -/

/-- Every end that the machine reaches in `n` steps from a task, within the limit, is the end of a
derivation of the task handed to the evaluations that wait. -/
def Explained (n : Nat) (task : Task) : Prop :=
  ∀ (k : Stack) (st : Store) (out : Outcome) (st' : Store), k.depth < maxDepth → out ≠ tooDeep →
    Next.step^[n] (task.start k st) = .done out st' →
    ∃ h r st₁, Evaluates task st h r st₁ ∧ k.depth + h < maxDepth ∧
      ∃ m ≤ n, Next.step^[m] (k.finish st₁ r) = .done out st'

/-- A machine at its end has come to this end. -/
theorem eq_of_iterate_done {n : Nat} {out out' : Outcome} {st st' : Store}
    (h : Next.step^[n] (.done out st) = .done out' st') : out = out' ∧ st = st' := by
  rw [Next.iterate_done] at h
  injection h with ho hs
  exact ⟨ho, hs⟩

/-- A running machine that comes to an end takes a step first. -/
theorem exists_step {n : Nat} {s : State} {out : Outcome} {st : Store}
    (h : Next.step^[n] (.running s) = .done out st) :
    ∃ m < n, Next.step^[m] (Next.running s).step = .done out st := by
  cases n with
  | zero => cases h
  | succ n => exact ⟨n, by omega, h⟩

section Explained

variable {n : Nat} {k : Stack} {st st' : Store} {out : Outcome} {frame : FrameId}

/-- What a task that waits for a part makes of an end: the part has a value and the task is resumed
earlier, or the part ended everything. -/
theorem explain_part (ih : ∀ exp frame, Explained n (.expression exp frame)) {exp : Value}
    {waiting : Pending} (hout : out ≠ tooDeep)
    (hrun : Next.step^[n] (k.enter st exp frame waiting) = .done out st') :
    ∃ h r st₁, Evaluates (.expression exp frame) st h r st₁ ∧ k.depth + (h + 1) < maxDepth ∧
      ((∃ v, r = .value v ∧ ∃ m < n,
          Next.step^[m] (k.resume st₁ v waiting).2 = .done out st') ∨
        r.Abrupt ∧ r = out ∧ st₁ = st') := by
  by_cases hlt : k.depth + 1 < maxDepth
  · rw [Stack.enter_of_lt hlt] at hrun
    obtain ⟨h, r, st₁, heval, hh, m, hm, hend⟩ := ih exp frame (k.push waiting) st out st' hlt hout hrun
    refine ⟨h, r, st₁, heval, ?_, ?_⟩
    · have : k.depth + 1 + h < maxDepth := hh
      omega
    · rcases r.value_or_abrupt with ⟨v, rfl⟩ | ha
      · obtain ⟨m', hm', hend'⟩ := exists_step hend
        exact .inl ⟨v, rfl, m', by omega, hend'⟩
      · rw [Stack.finish_abrupt _ _ ha] at hend
        exact .inr ⟨ha, eq_of_iterate_done hend⟩
  · rw [Stack.enter_of_le (Nat.not_lt.mp hlt)] at hrun
    exact absurd (eq_of_iterate_done hrun).1.symm hout

theorem explained_body (n : Nat) (ih : ∀ m ≤ n, ∀ exp frame, Explained m (.expression exp frame))
    (exps : List Value) (frame : FrameId) : Explained n (.body exps frame) := by
  intro k st out st' hk hout hrun
  match exps with
  | [] => exact ⟨0, .value .nil, st, .empty, hk, n, Nat.le_refl n, hrun⟩
  | [exp] =>
    obtain ⟨h, r, st₁, heval, hrest⟩ := ih n (Nat.le_refl n) exp frame k st out st' hk hout hrun
    exact ⟨h, r, st₁, .last heval, hrest⟩
  | exp :: exp' :: rest =>
    obtain ⟨h, r, st₁, heval, hh, ⟨v, rfl, m, hm, hend⟩ | ⟨ha, rfl, rfl⟩⟩ :=
      explain_part (ih n (Nat.le_refl n)) hout hrun
    · obtain ⟨h', r, st₂, heval', hh', m', hm', hend'⟩ :=
        explained_body m (fun i hi => ih i (by omega)) (exp' :: rest) frame k st₁ out st' hk hout hend
      exact ⟨_, r, st₂, .next heval heval', by omega, m', by omega, hend'⟩
    · exact ⟨_, r, st₁, .next_stops heval ha, hh, n, Nat.le_refl n, by
        rw [Stack.finish_abrupt _ _ ha, Next.iterate_done]⟩

theorem explained_call (ih : ∀ m ≤ n, ∀ exp frame, Explained m (.expression exp frame))
    (procedure : Value) (args : List Value) : Explained n (.call procedure args) := by
  intro k st out st' hk hout hrun
  cases hp : procedure.isProcedure with
  | false =>
    rw [Task.start, call_notProcedure hp] at hrun
    exact ⟨0, _, st, .notProcedure hp, hk, n, Nat.le_refl n, hrun⟩
  | true =>
    match procedure with
    | .atom (.primitive p) =>
      simp only [Task.start, Stack.call] at hrun
      cases happ : p.apply args st with
      | ok result =>
        rw [happ] at hrun
        exact ⟨0, .value result.1, result.2, .primitive happ, hk, n, Nat.le_refl n, hrun⟩
      | error e =>
        rw [happ] at hrun
        exact ⟨0, .failed e, st, .primitive_fails happ, hk, n, Nat.le_refl n, hrun⟩
    | .atom (.closure label params body frame) =>
      simp only [Task.start, Stack.call] at hrun
      cases hargs : Frame.ofArguments frame params args with
      | ok inner =>
        rw [hargs] at hrun
        obtain ⟨h, r, st₁, heval, hrest⟩ := explained_body n ih body _ k _ out st' hk hout hrun
        exact ⟨h, r, st₁, .closure hargs heval, hrest⟩
      | error e =>
        rw [hargs] at hrun
        exact ⟨0, .failed e, st, .closure_fails hargs, hk, n, Nat.le_refl n, hrun⟩

theorem explained_operands (n : Nat) (ih : ∀ m ≤ n, ∀ exp frame, Explained m (.expression exp frame))
    (procedure : Value) (done : List Value) (rest : Value) (frame : FrameId) :
    Explained n (.operands procedure done rest frame) := by
  intro k st out st' hk hout hrun
  match rest with
  | .atom a => exact ⟨0, _, st, .improper, hk, n, Nat.le_refl n, hrun⟩
  | .nil =>
    simp only [Task.start, Stack.operands, List.reverse_reverse] at hrun
    obtain ⟨h, r, st₁, heval, hrest⟩ := explained_call ih procedure done k st out st' hk hout hrun
    exact ⟨h, r, st₁, .complete heval, hrest⟩
  | .pair label head tail =>
    obtain ⟨h, r, st₁, heval, hh, ⟨v, rfl, m, hm, hend⟩ | ⟨ha, rfl, rfl⟩⟩ :=
      explain_part (ih n (Nat.le_refl n)) hout hrun
    · have hend : Next.step^[m] (Task.start k st₁ (.operands procedure (done ++ [v]) tail frame)) =
          .done out st' := by
        simpa only [Task.start, Stack.resume, List.reverse_append, List.reverse_singleton,
          List.singleton_append] using hend
      obtain ⟨h', r, st₂, heval', hh', m', hm', hend'⟩ :=
        explained_operands m (fun i hi => ih i (by omega)) procedure (done ++ [v]) tail frame
          k st₁ out st' hk hout hend
      exact ⟨_, r, st₂, .operand heval heval', by omega, m', by omega, hend'⟩
    · exact ⟨_, r, st₁, .operand_stops heval ha, hh, n, Nat.le_refl n, by
        rw [Stack.finish_abrupt _ _ ha, Next.iterate_done]⟩

/-- What a form that waits for a part makes of an end, for the two forms that then store a value. -/
theorem explain_stored (ih : ∀ exp frame, Explained n (.expression exp frame)) {f : Form}
    {exp : Value} {waiting : Pending} {store : Store → Value → Store} {give : Value → Value}
    (hstart : (k.form st frame f).2 = k.enter st exp frame waiting)
    (hresume : ∀ st v, (k.resume st v waiting).2 = k.proceed (store st v) (.give (give v)))
    (hvalue : ∀ {h v st₁}, Evaluates (.expression exp frame) st h (.value v) st₁ →
      Evaluates (.form f frame) st (h + 1) (.value (give v)) (store st₁ v))
    (hstops : ∀ {h r st₁}, Evaluates (.expression exp frame) st h r st₁ → r.Abrupt →
      Evaluates (.form f frame) st (h + 1) r st₁)
    (hout : out ≠ tooDeep) (hrun : Next.step^[n] (k.form st frame f).2 = .done out st') :
    ∃ h r st₁, Evaluates (.form f frame) st h r st₁ ∧ k.depth + h < maxDepth ∧
      ∃ m ≤ n, Next.step^[m] (k.finish st₁ r) = .done out st' := by
  rw [hstart] at hrun
  obtain ⟨h, r, st₁, heval, hh, ⟨v, rfl, m, hm, hend⟩ | ⟨ha, rfl, rfl⟩⟩ := explain_part ih hout hrun
  · rw [hresume] at hend
    exact ⟨_, _, _, hvalue heval, hh, m, by omega, hend⟩
  · exact ⟨_, r, st₁, hstops heval ha, hh, n, Nat.le_refl n, by
      rw [Stack.finish_abrupt _ _ ha, Next.iterate_done]⟩

theorem explained_form (ih : ∀ m ≤ n, ∀ exp frame, Explained m (.expression exp frame))
    (f : Form) (frame : FrameId) : Explained n (.form f frame) := by
  intro k st out st' hk hout hrun
  cases f with
  | quote v => exact ⟨0, .value v, st, .quote, hk, n, Nat.le_refl n, hrun⟩
  | lambda params body => exact ⟨0, _, _, .lambda rfl, hk, n, Nat.le_refl n, hrun⟩
  | quit => exact ⟨0, .quit, st, .quit, hk, n, Nat.le_refl n, hrun⟩
  | vars => exact ⟨0, .value .nil, st, .vars, hk, n, Nat.le_refl n, hrun⟩
  | defineProcedure name params body =>
    exact ⟨0, _, _, .defineProcedure rfl, hk, n, Nat.le_refl n, hrun⟩
  | define name value =>
    exact explain_stored (ih n (Nat.le_refl n)) rfl (fun _ _ => rfl) .define .define_stops hout hrun
  | assign name value =>
    exact explain_stored (ih n (Nat.le_refl n)) rfl (fun _ _ => rfl) .assign .assign_stops hout hrun
  | sequence body =>
    obtain ⟨h, r, st₁, heval, hrest⟩ := explained_body n ih body frame k st out st' hk hout hrun
    exact ⟨h, r, st₁, .sequence heval, hrest⟩
  | bind names values body =>
    obtain ⟨h, r, st₁, heval, hrest⟩ :=
      ih n (Nat.le_refl n) (Form.applied st names values body).1 frame k
        (Form.applied st names values body).2 out st' hk hout hrun
    exact ⟨h, r, st₁, .bind rfl heval, hrest⟩
  | conditional test consequent alternative =>
    obtain ⟨h, r, st₁, heval, hh, ⟨v, rfl, m, hm, hend⟩ | ⟨ha, rfl, rfl⟩⟩ :=
      explain_part (ih n (Nat.le_refl n)) hout hrun
    · simp only [Stack.resume] at hend
      cases hv : v.isTruthy with
      | true =>
        rw [hv] at hend
        obtain ⟨h', r, st₂, heval', hh', m', hm', hend'⟩ :=
          ih m (by omega) consequent frame k st₁ out st' hk hout hend
        exact ⟨_, r, st₂, .consequent heval hv heval', by omega, m', by omega, hend'⟩
      | false =>
        rw [hv] at hend
        cases alternative with
        | some exp =>
          obtain ⟨h', r, st₂, heval', hh', m', hm', hend'⟩ :=
            ih m (by omega) exp frame k st₁ out st' hk hout hend
          exact ⟨_, r, st₂, .alternative heval hv heval', by omega, m', by omega, hend'⟩
        | none =>
          exact ⟨_, .value .nil, st₁, .no_alternative heval hv, hh, m, by omega, hend⟩
    · exact ⟨_, r, st₁, .conditional_stops heval ha, hh, n, Nat.le_refl n, by
        rw [Stack.finish_abrupt _ _ ha, Next.iterate_done]⟩

theorem explained_expression (n : Nat) (exp : Value) (frame : FrameId) :
    Explained n (.expression exp frame) := by
  induction n using Nat.strongRecOn generalizing exp frame with
  | ind n ih =>
  intro k st out st' hk hout hrun
  obtain ⟨m, hm, hrun⟩ : ∃ m < n,
      Next.step^[m] (Task.start k st (.expression exp frame)).step = .done out st' := exists_step hrun
  have ihm : ∀ i ≤ m, ∀ exp frame, Explained i (.expression exp frame) :=
    fun i hi exp frame => ih i (by omega) exp frame
  cases hc : exp.isConstant with
  | true =>
    rw [step_constant hc] at hrun
    exact ⟨0, .value exp, st, .constant hc, hk, m, by omega, hrun⟩
  | false =>
    match exp with
    | .symbol name =>
      rw [step_symbol] at hrun
      cases hl : st.lookup frame name with
      | ok v =>
        rw [hl] at hrun
        exact ⟨0, .value v, st, .bound hl, hk, m, by omega, hrun⟩
      | error e =>
        rw [hl] at hrun
        exact ⟨0, .failed e, st, .unbound hl, hk, m, by omega, hrun⟩
    | .pair label head args =>
      cases hkey : Keyword.ofHead? head with
      | some keyword =>
        rw [step_special hkey] at hrun
        cases hf : Form.parse keyword args with
        | ok f =>
          rw [hf] at hrun
          obtain ⟨h, r, st₁, heval, hh, i, hi, hend⟩ :=
            explained_form ihm f frame k st out st' hk hout hrun
          exact ⟨h, r, st₁, .special hkey hf heval, hh, i, by omega, hend⟩
        | error e =>
          rw [hf] at hrun
          exact ⟨0, .failed e, st, .malformed hkey hf, hk, m, by omega, hrun⟩
      | none =>
        rw [step_application hkey] at hrun
        obtain ⟨h, r, st₁, heval, hh, ⟨v, rfl, i, hi, hend⟩ | ⟨ha, rfl, rfl⟩⟩ :=
          explain_part (ihm m (Nat.le_refl m)) hout hrun
        · obtain ⟨h', r, st₂, heval', hh', j, hj, hend'⟩ :=
            explained_operands i (fun j hj => ihm j (by omega)) v [] args frame
              k st₁ out st' hk hout hend
          exact ⟨_, r, st₂, .application hkey heval heval', by omega, j, by omega, hend'⟩
        · exact ⟨_, r, st₁, .application_stops hkey heval ha, hh, n, Nat.le_refl n, by
            rw [Stack.finish_abrupt _ _ ha, Next.iterate_done]⟩

end Explained

/-! ## The limit -/

/-- With nothing waiting an outcome is the end. -/
theorem finish_nil_leads (d : Nat) (st : Store) (out : Outcome) :
    (Stack.finish ⟨[], d⟩ st out).Leads (.done out st) := by
  rcases out.value_or_abrupt with ⟨v, rfl⟩ | ha
  · exact .of_step rfl
  · rw [Stack.finish_abrupt _ _ ha]
    exact .refl _

theorem eq_of_finish_nil {n d : Nat} {st st' : Store} {out out' : Outcome}
    (h : Next.step^[n] (Stack.finish ⟨[], d⟩ st out) = .done out' st') : out = out' ∧ st = st' := by
  obtain ⟨m, hm⟩ := finish_nil_leads d st out
  have hend : Next.step^[m + n] (Stack.finish ⟨[], d⟩ st out) = .done out' st' := by
    rw [Function.iterate_add_apply, h, Next.iterate_done]
  rw [Nat.add_comm, Function.iterate_add_apply, hm] at hend
  exact eq_of_iterate_done hend

/-- **Refinement.** Let evaluation begin inside `d` waiting evaluations. A run that comes to its end
without meeting the limit has the outcome and the store of recursive evaluation. Conversely what
recursive evaluation derives with height `h` is what the run comes to, whatever number of steps it
takes, if `d + h` is below the limit; otherwise the run meets it. -/
theorem run_refines_recursion {σ : Type} (observe : σ → EvalEvent → σ) (seen : σ) (exp : Value)
    (frame : FrameId) (st : Store) (d : Nat) (hd : d < maxDepth) :
    (∀ fuel out st', ((State.start exp frame d st).run observe fuel seen).2 = (out, st') →
      out ≠ .unfinished → out ≠ tooDeep →
      ∃ h, Evaluates (.expression exp frame) st h out st' ∧ d + h < maxDepth) ∧
    (∀ h out st', Evaluates (.expression exp frame) st h out st' →
      (d + h < maxDepth → ∃ n, ∀ fuel, n ≤ fuel →
        ((State.start exp frame d st).run observe fuel seen).2 = (out, st')) ∧
      (maxDepth ≤ d + h → ∃ n st'', ∀ fuel, n ≤ fuel →
        ((State.start exp frame d st).run observe fuel seen).2 = (tooDeep, st''))) := by
  have hstart : Next.running (State.start exp frame d st) =
      Task.start ⟨[], d⟩ st (.expression exp frame) := rfl
  simp only [State.run_snd, hstart]
  refine ⟨fun fuel out st' hrun hfin hout => ?_, fun h out st' heval => ?_⟩
  · cases hnext : Next.step^[fuel] (Task.start ⟨[], d⟩ st (.expression exp frame)) with
    | running s =>
      rw [hnext] at hrun
      exact absurd (congrArg Prod.fst hrun).symm hfin
    | done out' st'' =>
      rw [hnext] at hrun
      obtain ⟨rfl, rfl⟩ : out' = out ∧ st'' = st' := by simpa [Next.answer] using hrun
      obtain ⟨h, r, st₁, heval, hh, m, -, hend⟩ :=
        explained_expression fuel exp frame ⟨[], d⟩ st out' st'' hd hout hnext
      obtain ⟨rfl, rfl⟩ := eq_of_finish_nil hend
      exact ⟨h, heval, hh⟩
  · obtain ⟨low, high⟩ := heval.followed ⟨[], d⟩ hd
    refine ⟨fun hlt => ?_, fun hle => ?_⟩
    · obtain ⟨n, hn⟩ := ((low hlt).trans (finish_nil_leads d st' out)).settles
      exact ⟨n, fun fuel hfuel => by rw [hn fuel hfuel]; rfl⟩
    · obtain ⟨st'', hlead⟩ := high hle
      obtain ⟨n, hn⟩ := hlead.settles
      exact ⟨n, st'', fun fuel hfuel => by rw [hn fuel hfuel]; rfl⟩

/-- `((lambda (x) (if #f x "no")) #t)` -/
def calledConditional : Value :=
  .pair 0
    (.pair 1 (Value.symbol ⟨"LAMBDA"⟩) (.pair 2 (.pair 3 (Value.symbol ⟨"X"⟩) .nil)
      (.pair 4 (.pair 5 (Value.symbol ⟨"IF"⟩) (.pair 6 (Value.boolean false) (.pair 7 (Value.symbol ⟨"X"⟩)
        (.pair 8 (.atom (.literal (.string "no"))) .nil)))) .nil)))
    (.pair 9 (Value.boolean true) .nil)

/-- A run of ten steps through a call and a branch in tail position, and its derivation. -/
theorem calledConditional_evaluates :
    ∃ h st', Evaluates (.expression calledConditional Store.globalFrame) .initial h
      (.value (.atom (.literal (.string "no")))) st' ∧ 0 + h < maxDepth := by
  have hrun := (run_refines_recursion (fun _ _ => ()) () calledConditional Store.globalFrame .initial
    0 (by decide)).1 10 (.value (.atom (.literal (.string "no"))))
  obtain ⟨h, heval, hlt⟩ := hrun _ rfl (by simp) (by simp [tooDeep])
  exact ⟨h, _, heval, hlt⟩

end SmallScheme
