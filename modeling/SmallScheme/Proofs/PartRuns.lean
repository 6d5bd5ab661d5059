import SmallScheme.Proofs.Trampoline

/-!
# Evaluation part by part

The machine evaluates the parts of an expression on one stack. Here a part is evaluated on its own:
`EndsAt d exp frame st out st'` says how the evaluation of one expression ends that begins inside `d`
waiting evaluations, the limit included.

1. What waits below the stack of a run makes no difference to it until the run hands over its value
   (`Alongside`). A step keeps this (`Alongside.step`), and so does a run, in both directions
   (`Alongside.leads_finish`, `Alongside.exists_end`).
2. So whatever waits for a part goes on with the value of a run of its own (`enter_leads_iff`).
3. It follows how the expressions of a body are evaluated one after the other (`body_leads_iff`).
-/

namespace SmallScheme

/-- Evaluation of an expression, begun inside `d` waiting evaluations, comes to its end with an outcome and
a store. At the limit it fails at once. -/
def EndsAt (d : Nat) (exp : Value) (frame : FrameId) (st : Store) (out : Outcome) (st' : Store) : Prop :=
  if d < maxDepth then
    out ≠ .unfinished ∧
      ∃ fuel, ((State.start exp frame d st).run (fun _ _ => ()) fuel ()).2 = (out, st')
  else out = tooDeep ∧ st' = st

theorem Outcome.abrupt_failed (e : Error) : (Outcome.failed e).Abrupt := by
  rintro v ⟨⟩

/-! ## What waits below -/

/-- More waiting evaluations below those of a stack, which its depth counts already. -/
def Stack.above (k base : Stack) : Stack := ⟨k.pending ++ base.pending, k.depth⟩

/-- Two machines that differ only in what waits below: nothing for the first one, the evaluations of `base`
for the second. -/
inductive Alongside (base : Stack) : Next → Next → Prop where
  | running {control k st} (hk : k.depth = base.depth + k.pending.length) :
      Alongside base (.running ⟨control, k, st⟩) (.running ⟨control, k.above base, st⟩)
  | done {out st} (ha : out.Abrupt) : Alongside base (.done out st) (.done out st)

namespace Alongside

section Step

variable {k base : Stack} {st : Store} {frame : FrameId}

theorem failed (e : Error) (st : Store) :
    Alongside base (.done (.failed e) st) (.done (.failed e) st) :=
  .done (Outcome.abrupt_failed e)

variable (hk : k.depth = base.depth + k.pending.length)

include hk

theorem proceed (control : Control) :
    Alongside base (k.proceed st control) ((k.above base).proceed st control) :=
  .running hk

theorem enter (exp : Value) (waiting : Pending) :
    Alongside base (k.enter st exp frame waiting) ((k.above base).enter st exp frame waiting) := by
  by_cases hlt : k.depth + 1 < maxDepth
  · rw [Stack.enter_of_lt hlt, Stack.enter_of_lt (k := k.above base) hlt]
    refine .running ?_
    show k.depth + 1 = base.depth + (k.pending.length + 1)
    omega
  · have hle : maxDepth ≤ k.depth + 1 := Nat.not_lt.mp hlt
    rw [Stack.enter_of_le hle, Stack.enter_of_le (k := k.above base) hle]
    exact .failed _ st

theorem body (exps : List Value) :
    Alongside base (k.body st frame exps) ((k.above base).body st frame exps) := by
  match exps with
  | [] => exact proceed hk _
  | [_] => exact proceed hk _
  | _ :: _ :: _ => exact enter hk _ _

theorem call (procedure : Value) (args : List Value) :
    Alongside base (k.call st procedure args) ((k.above base).call st procedure args) := by
  unfold Stack.call
  split
  · split
    · exact proceed hk _
    · exact .failed _ _
  · split
    · exact body hk _
    · exact .failed _ _
  · exact .failed _ _

theorem operands (procedure : Value) (done : List Value) (rest : Value) :
    Alongside base (k.operands st procedure done rest frame)
      ((k.above base).operands st procedure done rest frame) := by
  cases rest with
  | pair label head tail => exact enter hk _ _
  | nil => exact call hk _ _
  | atom a => exact .failed _ _

theorem form (f : Form) :
    Alongside base (k.form st frame f).2 ((k.above base).form st frame f).2 := by
  cases f with
  | quote v => exact proceed hk _
  | define name value => exact enter hk _ _
  | defineProcedure name params body => exact proceed hk _
  | assign name value => exact enter hk _ _
  | conditional test consequent alternative => exact enter hk _ _
  | sequence exps => exact body hk exps
  | lambda params body => exact proceed hk _
  | bind names values body => exact proceed hk _
  | quit => exact .done fun _ h => nomatch h
  | vars => exact proceed hk _

theorem eval (exp : Value) :
    Alongside base (k.eval st exp frame).2 ((k.above base).eval st exp frame).2 := by
  unfold Stack.eval
  split
  · split
    · exact proceed hk _
    · exact .failed _ _
  · split
    · split
      · exact form hk _
      · exact .failed _ _
    · exact enter hk _ _
  · exact proceed hk _

theorem resume (v : Value) (waiting : Pending) :
    Alongside base (k.resume st v waiting).2 ((k.above base).resume st v waiting).2 := by
  cases waiting with
  | branch consequent alternative frame =>
    simp only [Stack.resume]
    split
    · exact proceed hk _
    · cases alternative <;> exact proceed hk _
  | define name frame => exact proceed hk _
  | assign name frame => exact proceed hk _
  | sequence next rest frame => exact body hk _
  | operator args frame => exact operands hk _ _ _
  | operand procedure done rest frame => exact operands hk _ _ _

end Step

variable {base : Stack} {a b : Next} {r out : Outcome} {st st' : Store}

/-- Both machines take the same step, unless the first one is at its end and the second one hands over the
value. -/
theorem step (h : Alongside base a b) :
    Alongside base a.step b.step ∨
      ∃ v st, a.step = .done (.value v) st ∧ b = base.finish st (.value v) := by
  cases h with
  | done ha => exact .inl (.done ha)
  | @running control k st hk =>
    cases control with
    | eval exp frame => exact .inl (eval hk exp)
    | give v =>
      obtain ⟨pending, depth⟩ := k
      cases pending with
      | nil =>
        have hdepth : depth = base.depth := hk
        subst hdepth
        exact .inr ⟨v, st, rfl, rfl⟩
      | cons waiting pending =>
        have hrest : depth - 1 = base.depth + pending.length := by
          have hdepth : depth = base.depth + (pending.length + 1) := hk
          omega
        exact .inl (resume (k := ⟨pending, depth - 1⟩) hrest v waiting)

/-- The end of the first machine is handed over by the second one. -/
theorem leads_finish (h : Alongside base a b) (hend : a.Leads (.done r st)) :
    b.Leads (base.finish st r) := by
  obtain ⟨n, hn⟩ := hend
  induction n generalizing a b with
  | zero =>
    cases hn
    cases h with
    | done ha =>
      rw [Stack.finish_abrupt _ _ ha]
      exact .refl _
  | succ n ih =>
    rw [Function.iterate_succ_apply] at hn
    rcases h.step with hstep | ⟨v, st₁, hstep, rfl⟩
    · exact (Next.Leads.of_step rfl).trans (ih hstep hn)
    · rw [hstep] at hn
      obtain ⟨rfl, rfl⟩ := eq_of_iterate_done hn
      exact .refl _

/-- The second machine ends after the first one has. -/
theorem exists_end (h : Alongside base a b) (hend : b.Leads (.done out st')) :
    ∃ r st, a.Leads (.done r st) ∧ (base.finish st r).Leads (.done out st') := by
  obtain ⟨n, hn⟩ := hend
  induction n generalizing a b with
  | zero =>
    cases hn
    cases h with
    | done ha =>
      refine ⟨_, _, .refl _, ?_⟩
      rw [Stack.finish_abrupt _ _ ha]
      exact .refl _
  | succ n ih =>
    rcases h.step with hstep | ⟨v, st, hstep, rfl⟩
    · rw [Function.iterate_succ_apply] at hn
      obtain ⟨r, st, hr, hrest⟩ := ih hstep hn
      exact ⟨r, st, (Next.Leads.of_step rfl).trans hr, hrest⟩
    · exact ⟨_, st, .of_step hstep, n + 1, hn⟩

end Alongside

/-! ## Parts -/

theorem Evaluates.ne_unfinished {task : Task} {st st' : Store} {h : Nat} {out : Outcome}
    (heval : Evaluates task st h out st') : out ≠ .unfinished := by
  induction heval <;> simp_all

section Parts

variable {d : Nat} {exp : Value} {frame : FrameId} {st st' : Store} {out : Outcome}

/-- A run of the machine that comes to an end says how. -/
theorem ne_unfinished_of_leads (hd : d < maxDepth)
    (h : (Stack.proceed ⟨[], d⟩ st (.eval exp frame)).Leads (.done out st')) : out ≠ .unfinished := by
  rintro rfl
  obtain ⟨n, hn⟩ := h
  obtain ⟨h, r, st₁, heval, -, m, -, hend⟩ :=
    explained_expression n exp frame ⟨[], d⟩ st .unfinished st' hd (by simp [tooDeep]) hn
  obtain ⟨rfl, -⟩ := eq_of_finish_nil hend
  exact heval.ne_unfinished rfl

theorem endsAt_iff_leads (hd : d < maxDepth) :
    EndsAt d exp frame st out st' ↔
      (Stack.proceed ⟨[], d⟩ st (.eval exp frame)).Leads (.done out st') := by
  have hstart : Next.running (State.start exp frame d st) =
      Stack.proceed ⟨[], d⟩ st (.eval exp frame) := rfl
  unfold EndsAt
  rw [if_pos hd]
  simp only [State.run_snd, hstart]
  constructor
  · rintro ⟨hout, fuel, hrun⟩
    refine ⟨fuel, ?_⟩
    cases hnext : Next.step^[fuel] (Stack.proceed ⟨[], d⟩ st (.eval exp frame)) with
    | running s =>
      rw [hnext] at hrun
      exact absurd (congrArg Prod.fst hrun).symm hout
    | done out' st'' =>
      rw [hnext] at hrun
      cases hrun
      rfl
  · intro h
    refine ⟨ne_unfinished_of_leads hd h, ?_⟩
    obtain ⟨fuel, hfuel⟩ := h
    exact ⟨fuel, by rw [hfuel]; rfl⟩

theorem endsAt_of_le (hd : maxDepth ≤ d) : EndsAt d exp frame st out st' ↔ out = tooDeep ∧ st' = st := by
  unfold EndsAt
  rw [if_neg (Nat.not_lt.mpr hd)]

/-- A machine on which nothing waits ends with the value it is given. -/
theorem give_leads_iff {v : Value} :
    (Stack.proceed ⟨[], d⟩ st (.give v)).Leads (.done out st') ↔ out = .value v ∧ st' = st := by
  constructor
  · rintro ⟨n, hn⟩
    have hfinish : Next.step^[n] (Stack.finish ⟨[], d⟩ st (.value v)) = .done out st' := hn
    obtain ⟨rfl, rfl⟩ := eq_of_finish_nil hfinish
    exact ⟨rfl, rfl⟩
  · rintro ⟨rfl, rfl⟩
    exact .of_step rfl

theorem done_leads_iff {r : Outcome} :
    (Next.done r st).Leads (.done out st') ↔ out = r ∧ st' = st := by
  constructor
  · rintro ⟨n, hn⟩
    obtain ⟨rfl, rfl⟩ := eq_of_iterate_done hn
    exact ⟨rfl, rfl⟩
  · rintro ⟨rfl, rfl⟩
    exact .refl _

/-- Where a machine ends does not depend on when it is looked at. -/
theorem leads_iff_of_leads {a b : Next} (h : a.Leads b) :
    a.Leads (.done out st') ↔ b.Leads (.done out st') := by
  refine ⟨?_, h.trans⟩
  obtain ⟨n, rfl⟩ := h
  rintro ⟨m, hm⟩
  refine ⟨m, ?_⟩
  rw [← Function.iterate_add_apply, Nat.add_comm, Function.iterate_add_apply, hm, Next.iterate_done]

/-- A constant is its own value. -/
theorem constant_endsAt (hd : d < maxDepth) (exp : Value) (h : exp.isConstant = true) (frame : FrameId)
    (st : Store) : EndsAt d exp frame st (.value exp) st :=
  (endsAt_iff_leads hd).mpr
    ((Next.Leads.of_step (step_constant h)).trans (give_leads_iff.mpr ⟨rfl, rfl⟩))

/-- A symbol has the value that the search for it finds. -/
theorem symbol_endsAt (hd : d < maxDepth) {name : Symbol} {v : Value} (h : st.lookup frame name = .ok v) :
    EndsAt d (Value.symbol name) frame st (.value v) st := by
  refine (endsAt_iff_leads hd).mpr (.trans (.of_step (step_symbol name)) ?_)
  rw [h]
  exact give_leads_iff.mpr ⟨rfl, rfl⟩

/-- **Parts.** What waits for a part ends with it, or goes on with its value. -/
theorem enter_leads_iff {k : Stack} {waiting : Pending} :
    (k.enter st exp frame waiting).Leads (.done out st') ↔
      (out.Abrupt ∧ EndsAt (k.depth + 1) exp frame st out st') ∨
      ∃ v st₁, EndsAt (k.depth + 1) exp frame st (.value v) st₁ ∧
        (k.resume st₁ v waiting).2.Leads (.done out st') := by
  by_cases hlt : k.depth + 1 < maxDepth
  · have halong : Alongside (k.push waiting) (Stack.proceed ⟨[], k.depth + 1⟩ st (.eval exp frame))
        ((k.push waiting).proceed st (.eval exp frame)) := .running (k := ⟨[], k.depth + 1⟩) rfl
    have hgive : ∀ st₁ v, ((k.push waiting).finish st₁ (.value v)).Leads (.done out st') ↔
        (k.resume st₁ v waiting).2.Leads (.done out st') := fun st₁ v =>
      leads_iff_of_leads (.of_step (Stack.step_give k st₁ v waiting))
    rw [Stack.enter_of_lt hlt]
    simp only [endsAt_iff_leads hlt]
    constructor
    · intro hend
      obtain ⟨r, st₁, hr, hrest⟩ := halong.exists_end hend
      rcases r.value_or_abrupt with ⟨v, rfl⟩ | ha
      · exact .inr ⟨v, st₁, hr, (hgive st₁ v).mp hrest⟩
      · rw [Stack.finish_abrupt _ _ ha, done_leads_iff] at hrest
        obtain ⟨rfl, rfl⟩ := hrest
        exact .inl ⟨ha, hr⟩
    · rintro (⟨ha, hend⟩ | ⟨v, st₁, hv, hrest⟩)
      · have hfinish := halong.leads_finish hend
        rwa [Stack.finish_abrupt _ _ ha] at hfinish
      · exact (halong.leads_finish hv).trans ((hgive st₁ v).mpr hrest)
  · have hle : maxDepth ≤ k.depth + 1 := Nat.not_lt.mp hlt
    rw [Stack.enter_of_le hle, done_leads_iff]
    constructor
    · rintro ⟨rfl, rfl⟩
      exact .inl ⟨Outcome.abrupt_failed _, (endsAt_of_le hle).mpr ⟨rfl, rfl⟩⟩
    · rintro (⟨-, hend⟩ | ⟨v, st₁, hv, -⟩)
      · exact (endsAt_of_le hle).mp hend
      · cases ((endsAt_of_le hle).mp hv).1

end Parts

/-! ## Expressions in order -/

/-- Expressions are evaluated from left to right, each inside `d` waiting evaluations, and have values. -/
inductive ValuesEnd (d : Nat) (frame : FrameId) : List Value → Store → List Value → Store → Prop where
  | nil {st} : ValuesEnd d frame [] st [] st
  | cons {exp exps st v st₁ vs st₂} (hexp : EndsAt d exp frame st (.value v) st₁)
      (hexps : ValuesEnd d frame exps st₁ vs st₂) : ValuesEnd d frame (exp :: exps) st (v :: vs) st₂

/-- Expressions are evaluated from left to right, each inside `d` waiting evaluations, up to the first one
that ends without a value. -/
inductive ValuesStop (d : Nat) (frame : FrameId) : List Value → Store → Outcome → Store → Prop where
  | here {exp exps st out st₁} (hexp : EndsAt d exp frame st out st₁) (ha : out.Abrupt) :
      ValuesStop d frame (exp :: exps) st out st₁
  | later {exp exps st v st₁ out st₂} (hexp : EndsAt d exp frame st (.value v) st₁)
      (hexps : ValuesStop d frame exps st₁ out st₂) : ValuesStop d frame (exp :: exps) st out st₂

/-- A body is evaluated inside `d` waiting evaluations: the last expression takes the place of the whole, the
whole waits for those before it, and an empty body gives the empty list. -/
inductive BodyEnds (d : Nat) (frame : FrameId) : List Value → Store → Outcome → Store → Prop where
  | empty {st} : BodyEnds d frame [] st (.value .nil) st
  | last {exp st out st'} (hexp : EndsAt d exp frame st out st') : BodyEnds d frame [exp] st out st'
  | next {exp exp' rest st v st₁ out st₂} (hexp : EndsAt (d + 1) exp frame st (.value v) st₁)
      (hrest : BodyEnds d frame (exp' :: rest) st₁ out st₂) :
      BodyEnds d frame (exp :: exp' :: rest) st out st₂
  | stops {exp exp' rest st out st₁} (hexp : EndsAt (d + 1) exp frame st out st₁) (ha : out.Abrupt) :
      BodyEnds d frame (exp :: exp' :: rest) st out st₁

theorem ValuesEnd.length_eq {d : Nat} {frame : FrameId} {exps vs : List Value} {st st' : Store}
    (h : ValuesEnd d frame exps st vs st') : vs.length = exps.length := by
  induction h with
  | nil => rfl
  | cons _ _ ih => rw [List.length_cons, List.length_cons, ih]

theorem body_leads_iff {d : Nat} (hd : d < maxDepth) {frame : FrameId} {exps : List Value} {st st' : Store}
    {out : Outcome} :
    (Stack.body ⟨[], d⟩ st frame exps).Leads (.done out st') ↔ BodyEnds d frame exps st out st' := by
  match exps with
  | [] =>
    refine give_leads_iff.trans ⟨?_, fun h => ?_⟩
    · rintro ⟨rfl, rfl⟩
      exact .empty
    · cases h
      exact ⟨rfl, rfl⟩
  | [exp] =>
    refine (endsAt_iff_leads hd).symm.trans ⟨.last, fun h => ?_⟩
    cases h with
    | last hexp => exact hexp
  | exp :: exp' :: rest =>
    have hrest {st₁ : Store} : (Stack.body ⟨[], d⟩ st₁ frame (exp' :: rest)).Leads (.done out st') ↔
        BodyEnds d frame (exp' :: rest) st₁ out st' := body_leads_iff hd
    refine enter_leads_iff.trans ⟨?_, fun h => ?_⟩
    · rintro (⟨ha, hexp⟩ | ⟨v, st₁, hexp, h⟩)
      · exact .stops hexp ha
      · exact .next hexp (hrest.mp h)
    · cases h with
      | next hexp h => exact .inr ⟨_, _, hexp, hrest.mpr h⟩
      | stops hexp ha => exact .inl ⟨ha, hexp⟩

end SmallScheme
