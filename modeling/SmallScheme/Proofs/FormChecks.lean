import Mathlib.Data.List.Forall2
import SmallScheme.Proofs.Captures
import SmallScheme.Proofs.PartRuns

/-!
# Special forms are checked before they act

`special_form_checked_first`: a special form whose parts do not fit fails and leaves the store as it is,
and one whose parts fit fails only where one of its parts does.

1. `Form.Shaped` says which arguments fit which keyword, and what they mean. The check accepts exactly these
   (`parse_eq_ok_iff`), and all its failures name the keyword (`malformed_of_parse`).
2. A form whose parts fit is evaluated part by part. `Form.FailsInPart` lists how a part can fail.
-/

namespace SmallScheme

/-! ## Shapes -/

/-- A proper list of these elements. -/
inductive Value.Listed : Value → List Value → Prop where
  | nil : Listed .nil []
  | pair {label head tail items} (htail : Listed tail items) :
      Listed (.pair label head tail) (head :: items)

/-- The symbol that begins a special form. -/
def Keyword.symbol : Keyword → Symbol
  | quote => ⟨"QUOTE"⟩
  | define => ⟨"DEFINE"⟩
  | assign => ⟨"SET!"⟩
  | conditional => ⟨"IF"⟩
  | sequence => ⟨"BEGIN"⟩
  | lambda => ⟨"LAMBDA"⟩
  | bind => ⟨"LET"⟩
  | quit => ⟨"QUIT"⟩
  | vars => ⟨":VARS"⟩

theorem Keyword.ofHead?_symbol (keyword : Keyword) :
    Keyword.ofHead? (.symbol keyword.symbol) = some keyword := by
  cases keyword <;> rfl

/-- The arguments fit the keyword, and this is the form that they make. -/
inductive Form.Shaped : Keyword → Value → Form → Prop where
  | quote {args v} (hargs : Value.Listed args [v]) : Shaped .quote args (.quote v)
  | define {args name value} (hargs : Value.Listed args [Value.symbol name, value]) :
      Shaped .define args (.define name value)
  | defineProcedure {label label' name names params exps body}
      (hparams : Value.Listed params (names.map Value.symbol)) (hbody : Value.Listed body exps) :
      Shaped .define (.pair label (.pair label' (Value.symbol name) params) body)
        (.defineProcedure name names exps)
  | assign {args name value} (hargs : Value.Listed args [Value.symbol name, value]) :
      Shaped .assign args (.assign name value)
  | conditional {args test consequent} (hargs : Value.Listed args [test, consequent]) :
      Shaped .conditional args (.conditional test consequent none)
  | alternative {args test consequent alternative}
      (hargs : Value.Listed args [test, consequent, alternative]) :
      Shaped .conditional args (.conditional test consequent (some alternative))
  | sequence {args exps} (hargs : Value.Listed args exps) : Shaped .sequence args (.sequence exps)
  | lambda {label names params exps body} (hparams : Value.Listed params (names.map Value.symbol))
      (hbody : Value.Listed body exps) :
      Shaped .lambda (.pair label params body) (.lambda names exps)
  | bind {args bindings exps items pairs} (hargs : Value.Listed args (bindings :: exps))
      (hbindings : Value.Listed bindings items)
      (hitems : List.Forall₂ (fun item pair => Value.Listed item [Value.symbol pair.1, pair.2]) items pairs) :
      Shaped .bind args (.bind (pairs.map Prod.fst) (pairs.map Prod.snd) exps)
  | quit {args} : Shaped .quit args .quit
  | vars {args} : Shaped .vars args .vars

/-! ## Checking shapes -/

theorem Value.listed_iff_spine {v : Value} {items : List Value} :
    v.Listed items ↔ v.spine = (items, .nil) := by
  induction v generalizing items with
  | atom a => exact iff_of_false (fun h => nomatch h) (by simp)
  | nil =>
    rw [Sexp.spine_nil, Prod.mk.injEq]
    constructor
    · rintro ⟨⟩
      exact ⟨rfl, rfl⟩
    · rintro ⟨rfl, -⟩
      exact .nil
  | pair label head tail _ ih =>
    rw [Sexp.spine_pair]
    constructor
    · intro h
      cases h with
      | pair htail => rw [ih.mp htail]
    · intro h
      obtain ⟨rfl, hlast⟩ := Prod.mk.inj h
      exact .pair (ih.mpr (Prod.ext rfl hlast))

theorem Value.toList?_eq_some_iff {v : Value} {items : List Value} :
    v.toList? = some items ↔ v.Listed items := by
  rw [listed_iff_spine, Sexp.toList?]
  rcases v.spine with ⟨found, last⟩
  cases last <;> simp

theorem bind_eq_ok_iff {ε α β : Type} {x : Except ε α} {f : α → Except ε β} {b : β} :
    x >>= f = .ok b ↔ ∃ a, x = .ok a ∧ f a = .ok b := by
  refine ⟨exists_of_bind_eq_ok, ?_⟩
  rintro ⟨a, rfl, h⟩
  exact h

theorem exists_of_bind_eq_error {ε α β : Type} {x : Except ε α} {f : α → Except ε β} {e : ε}
    (h : x >>= f = .error e) : x = .error e ∨ ∃ a, x = .ok a ∧ f a = .error e := by
  cases x with
  | error e' =>
    cases h
    exact .inl rfl
  | ok a => exact .inr ⟨a, rfl, h⟩

theorem mapM_eq_ok_iff {ε α β : Type} {f : α → Except ε β} {items : List α} {results : List β} :
    items.mapM f = .ok results ↔ List.Forall₂ (fun a b => f a = .ok b) items results := by
  induction items generalizing results with
  | nil =>
    rw [List.mapM_nil, List.forall₂_nil_left_iff]
    constructor
    · rintro ⟨⟩
      rfl
    · rintro rfl
      rfl
  | cons a items ih =>
    rw [List.mapM_cons, bind_eq_ok_iff, List.forall₂_cons_left_iff]
    constructor
    · rintro ⟨b, hb, h⟩
      obtain ⟨bs, hbs, h⟩ := bind_eq_ok_iff.mp h
      cases h
      exact ⟨b, bs, hb, ih.mp hbs, rfl⟩
    · rintro ⟨b, bs, hb, hbs, rfl⟩
      exact ⟨b, hb, bind_eq_ok_iff.mpr ⟨bs, ih.mpr hbs, rfl⟩⟩

theorem exists_of_mapM_eq_error {ε α β : Type} {f : α → Except ε β} {items : List α} {e : ε}
    (h : items.mapM f = .error e) : ∃ a ∈ items, f a = .error e := by
  induction items with
  | nil => cases h
  | cons a items ih =>
    rw [List.mapM_cons] at h
    rcases exists_of_bind_eq_error h with h | ⟨b, -, h⟩
    · exact ⟨a, List.mem_cons_self, h⟩
    · rcases exists_of_bind_eq_error h with h | ⟨bs, -, h⟩
      · obtain ⟨a', ha', h⟩ := ih h
        exact ⟨a', List.mem_cons_of_mem a ha', h⟩
      · cases h

namespace Form

variable {keyword : Keyword} {args part v : Value} {f : Form}

theorem proper_eq_ok_iff {items : List Value} :
    proper keyword part = .ok items ↔ part.Listed items := by
  rw [← Value.toList?_eq_some_iff, proper]
  cases part.toList? <;> simp [malformed]

theorem parameter_eq_ok_iff {name : Symbol} : parameter keyword v = .ok name ↔ v = .symbol name := by
  unfold parameter
  split
  · simp [Value.symbol]
  · next hv =>
    refine iff_of_false (fun h => nomatch h) ?_
    rintro rfl
    exact hv name rfl

theorem parameters_eq_ok_iff {names : List Symbol} :
    parameters keyword part = .ok names ↔ part.Listed (names.map Value.symbol) := by
  have hnames {items : List Value} {names : List Symbol} :
      items.mapM (parameter keyword) = .ok names ↔ items = names.map Value.symbol := by
    simp only [mapM_eq_ok_iff, parameter_eq_ok_iff]
    rw [← List.forall₂_map_right_iff, List.forall₂_eq_eq_eq]
  rw [Value.listed_iff_spine, parameters]
  rcases part.spine with ⟨items, last⟩
  simp only [bind_eq_ok_iff, hnames, Prod.mk.injEq]
  constructor
  · rintro ⟨found, hitems, h⟩
    cases last with
    | nil =>
      cases h
      exact ⟨hitems, rfl⟩
    | atom a => cases h
    | pair label head tail => cases h
  · rintro ⟨hitems, rfl⟩
    exact ⟨names, hitems, rfl⟩

theorem binding_eq_ok_iff {name : Symbol} {value : Value} :
    binding v = .ok (name, value) ↔ v.Listed [Value.symbol name, value] := by
  constructor
  · intro h
    unfold binding at h
    split at h
    · obtain ⟨items, hitems, h⟩ := exists_of_bind_eq_ok h
      rw [proper_eq_ok_iff] at hitems
      split at h
      · cases h
        exact hitems
      · cases h
    · cases h
    · cases h
  · intro h
    cases h with
    | pair htail => exact bind_eq_ok_iff.mpr ⟨_, proper_eq_ok_iff.mpr (.pair htail), rfl⟩

/-! ## The check accepts what fits -/

theorem parse_eq_of_shaped (h : Shaped keyword args f) : parse keyword args = .ok f := by
  cases h with
  | quote hargs => exact bind_eq_ok_iff.mpr ⟨_, proper_eq_ok_iff.mpr hargs, rfl⟩
  | define hargs =>
    cases hargs with
    | pair hvalue => exact bind_eq_ok_iff.mpr ⟨_, proper_eq_ok_iff.mpr hvalue, rfl⟩
  | defineProcedure hparams hbody =>
    refine bind_eq_ok_iff.mpr ⟨_, parameters_eq_ok_iff.mpr hparams, ?_⟩
    exact bind_eq_ok_iff.mpr ⟨_, proper_eq_ok_iff.mpr hbody, rfl⟩
  | assign hargs => exact bind_eq_ok_iff.mpr ⟨_, proper_eq_ok_iff.mpr hargs, rfl⟩
  | conditional hargs => exact bind_eq_ok_iff.mpr ⟨_, proper_eq_ok_iff.mpr hargs, rfl⟩
  | alternative hargs => exact bind_eq_ok_iff.mpr ⟨_, proper_eq_ok_iff.mpr hargs, rfl⟩
  | sequence hargs =>
    rw [parse, proper_eq_ok_iff.mpr hargs]
    rfl
  | lambda hparams hbody =>
    refine bind_eq_ok_iff.mpr ⟨_, parameters_eq_ok_iff.mpr hparams, ?_⟩
    exact bind_eq_ok_iff.mpr ⟨_, proper_eq_ok_iff.mpr hbody, rfl⟩
  | bind hargs hbindings hitems =>
    refine bind_eq_ok_iff.mpr ⟨_, proper_eq_ok_iff.mpr hargs, ?_⟩
    refine bind_eq_ok_iff.mpr ⟨_, proper_eq_ok_iff.mpr hbindings, ?_⟩
    refine bind_eq_ok_iff.mpr ⟨_, mapM_eq_ok_iff.mpr ?_, rfl⟩
    exact hitems.imp fun item pair h => binding_eq_ok_iff.mpr h
  | quit => rfl
  | vars => rfl

theorem shaped_of_parseDefine (h : parseDefine args = .ok f) : Shaped .define args f := by
  unfold parseDefine at h
  split at h
  · obtain ⟨items, hitems, h⟩ := exists_of_bind_eq_ok h
    rw [proper_eq_ok_iff] at hitems
    split at h
    · cases h
      exact .define (.pair hitems)
    · cases h
  · obtain ⟨names, hnames, h⟩ := exists_of_bind_eq_ok h
    obtain ⟨exps, hexps, h⟩ := exists_of_bind_eq_ok h
    cases h
    exact .defineProcedure (parameters_eq_ok_iff.mp hnames) (proper_eq_ok_iff.mp hexps)
  · cases h
  · cases h
  · cases h

theorem shaped_of_parseLambda (h : parseLambda args = .ok f) : Shaped .lambda args f := by
  unfold parseLambda at h
  split at h
  · obtain ⟨names, hnames, h⟩ := exists_of_bind_eq_ok h
    obtain ⟨exps, hexps, h⟩ := exists_of_bind_eq_ok h
    cases h
    exact .lambda (parameters_eq_ok_iff.mp hnames) (proper_eq_ok_iff.mp hexps)
  · cases h

theorem shaped_of_parseBind (h : parseBind args = .ok f) : Shaped .bind args f := by
  obtain ⟨parts, hparts, h⟩ := exists_of_bind_eq_ok h
  rw [proper_eq_ok_iff] at hparts
  split at h
  · cases h
  · obtain ⟨items, hitems, h⟩ := exists_of_bind_eq_ok h
    obtain ⟨pairs, hpairs, h⟩ := exists_of_bind_eq_ok h
    cases h
    refine .bind hparts (proper_eq_ok_iff.mp hitems) ?_
    exact (mapM_eq_ok_iff.mp hpairs).imp fun item pair h => binding_eq_ok_iff.mp h

/-- The check accepts exactly the arguments that fit. -/
theorem parse_eq_ok_iff : parse keyword args = .ok f ↔ Shaped keyword args f := by
  refine ⟨fun h => ?_, parse_eq_of_shaped⟩
  cases keyword with
  | quote =>
    obtain ⟨items, hitems, h⟩ := exists_of_bind_eq_ok h
    rw [proper_eq_ok_iff] at hitems
    split at h
    · cases h
      exact .quote hitems
    · cases h
  | define => exact shaped_of_parseDefine h
  | assign =>
    obtain ⟨items, hitems, h⟩ := exists_of_bind_eq_ok h
    rw [proper_eq_ok_iff] at hitems
    split at h
    · cases h
      exact .assign hitems
    · cases h
    · cases h
  | conditional =>
    obtain ⟨items, hitems, h⟩ := exists_of_bind_eq_ok h
    rw [proper_eq_ok_iff] at hitems
    split at h
    · cases h
      exact .conditional hitems
    · cases h
      exact .alternative hitems
    · cases h
  | sequence =>
    obtain ⟨items, hitems, rfl⟩ := exists_of_map_eq_ok h
    exact .sequence (proper_eq_ok_iff.mp hitems)
  | lambda => exact shaped_of_parseLambda h
  | bind => exact shaped_of_parseBind h
  | quit =>
    cases h
    exact .quit
  | vars =>
    cases h
    exact .vars

/-! ## Its failures name the keyword -/

/-- The failure says that the parts of a form do not fit, and names the form. -/
def Malformed (keyword : Keyword) (e : Error) : Prop :=
  ∃ detail, e = ⟨.malformedForm keyword.text detail, none⟩

variable {e : Error}

theorem malformed_of_eq {α : Type} {detail : String}
    (h : (malformed keyword detail : Except Error α) = .error e) : Malformed keyword e := by
  cases h
  exact ⟨detail, rfl⟩

theorem malformed_of_proper (h : proper keyword part = .error e) : Malformed keyword e := by
  unfold proper at h
  split at h
  · cases h
  · exact malformed_of_eq h

theorem malformed_of_proper_bind {α : Type} {next : List Value → Except Error α}
    (h : proper keyword part >>= next = .error e)
    (hnext : ∀ items, next items = .error e → Malformed keyword e) : Malformed keyword e := by
  rcases exists_of_bind_eq_error h with h | ⟨items, -, h⟩
  · exact malformed_of_proper h
  · exact hnext items h

theorem malformed_of_parameters (h : parameters keyword part = .error e) : Malformed keyword e := by
  rcases exists_of_bind_eq_error h with h | ⟨names, -, h⟩
  · obtain ⟨v, -, h⟩ := exists_of_mapM_eq_error h
    unfold parameter at h
    split at h
    · cases h
    · exact malformed_of_eq h
  · split at h
    · cases h
    · exact malformed_of_eq h

theorem malformed_of_binding (h : binding v = .error e) : Malformed .bind e := by
  unfold binding at h
  split at h
  · refine malformed_of_proper_bind h fun items h => ?_
    split at h
    · cases h
    · exact malformed_of_eq h
  · exact malformed_of_eq h
  · exact malformed_of_eq h

/-- Parameters and a body that do not fit. -/
theorem malformed_of_procedure {params body : Value} {make : List Symbol → List Value → Form}
    (h : (do return make (← parameters keyword params) (← proper keyword body)) = Except.error e) :
    Malformed keyword e := by
  rcases exists_of_bind_eq_error h with h | ⟨names, -, h⟩
  · exact malformed_of_parameters h
  · exact malformed_of_proper_bind h fun exps h => nomatch h

theorem malformed_of_parseDefine (h : parseDefine args = .error e) : Malformed .define e := by
  unfold parseDefine at h
  split at h
  · refine malformed_of_proper_bind h fun items h => ?_
    split at h
    · cases h
    · exact malformed_of_eq h
  · exact malformed_of_procedure h
  · exact malformed_of_eq h
  · exact malformed_of_eq h
  · exact malformed_of_eq h

theorem malformed_of_parseBind (h : parseBind args = .error e) : Malformed .bind e := by
  refine malformed_of_proper_bind h fun parts h => ?_
  split at h
  · exact malformed_of_eq h
  · refine malformed_of_proper_bind h fun items h => ?_
    rcases exists_of_bind_eq_error h with h | ⟨pairs, -, h⟩
    · obtain ⟨v, -, h⟩ := exists_of_mapM_eq_error h
      exact malformed_of_binding h
    · cases h

/-- What the check refuses it reports as malformed, under the name of the form. -/
theorem malformed_of_parse (h : parse keyword args = .error e) : Malformed keyword e := by
  cases keyword with
  | quote =>
    refine malformed_of_proper_bind h fun items h => ?_
    split at h
    · cases h
    · exact malformed_of_eq h
  | define => exact malformed_of_parseDefine h
  | assign =>
    refine malformed_of_proper_bind h fun items h => ?_
    split at h
    · cases h
    · exact malformed_of_eq h
    · exact malformed_of_eq h
  | conditional =>
    refine malformed_of_proper_bind h fun items h => ?_
    split at h
    · cases h
    · cases h
    · exact malformed_of_eq h
  | sequence =>
    cases hproper : proper .sequence args with
    | error e' =>
      rw [parse, hproper] at h
      cases h
      exact malformed_of_proper hproper
    | ok items =>
      rw [parse, hproper] at h
      cases h
  | lambda =>
    cases args with
    | pair label params body => exact malformed_of_procedure h
    | nil => exact malformed_of_eq h
    | atom a => exact malformed_of_eq h
  | bind => exact malformed_of_parseBind h
  | quit => cases h
  | vars => cases h

/-! ## Forms whose parts fit -/

/-- A part of a form fails, after the parts before it have been evaluated. The parts of which the form needs
the value are evaluated inside one more waiting evaluation. -/
inductive FailsInPart (d : Nat) (frame : FrameId) (e : Error) (st' : Store) : Form → Store → Prop where
  | define {name value st} (hvalue : EndsAt (d + 1) value frame st (.failed e) st') :
      FailsInPart d frame e st' (.define name value) st
  | assign {name value st} (hvalue : EndsAt (d + 1) value frame st (.failed e) st') :
      FailsInPart d frame e st' (.assign name value) st
  | test {test consequent alternative st} (htest : EndsAt (d + 1) test frame st (.failed e) st') :
      FailsInPart d frame e st' (.conditional test consequent alternative) st
  | consequent {test consequent alternative st v st₁}
      (htest : EndsAt (d + 1) test frame st (.value v) st₁) (hv : v.isTruthy = true)
      (hthen : EndsAt d consequent frame st₁ (.failed e) st') :
      FailsInPart d frame e st' (.conditional test consequent alternative) st
  | alternative {test consequent alternative st v st₁}
      (htest : EndsAt (d + 1) test frame st (.value v) st₁) (hv : v.isTruthy = false)
      (helse : EndsAt d alternative frame st₁ (.failed e) st') :
      FailsInPart d frame e st' (.conditional test consequent (some alternative)) st
  | earlier {exp exp' rest st} (hexp : EndsAt (d + 1) exp frame st (.failed e) st') :
      FailsInPart d frame e st' (.sequence (exp :: exp' :: rest)) st
  | later {exp exp' rest st v st₁} (hexp : EndsAt (d + 1) exp frame st (.value v) st₁)
      (hrest : FailsInPart d frame e st' (.sequence (exp' :: rest)) st₁) :
      FailsInPart d frame e st' (.sequence (exp :: exp' :: rest)) st
  | last {exp st} (hexp : EndsAt d exp frame st (.failed e) st') :
      FailsInPart d frame e st' (.sequence [exp]) st

section Parts

variable {d : Nat} {frame : FrameId} {st st' : Store} {out : Outcome}

theorem failsInPart_sequence_iff {exps : List Value} :
    FailsInPart d frame e st' (.sequence exps) st ↔ BodyEnds d frame exps st (.failed e) st' := by
  constructor
  · intro h
    generalize hf : Form.sequence exps = f at h
    induction h generalizing exps with
    | earlier hexp =>
      cases hf
      exact .stops hexp (Outcome.abrupt_failed e)
    | later hexp _ ih =>
      cases hf
      exact .next hexp (ih rfl)
    | last hexp =>
      cases hf
      exact .last hexp
    | _ => cases hf
  · intro h
    generalize hout : Outcome.failed e = out at h
    induction h with
    | empty => cases hout
    | last hexp =>
      subst hout
      exact .last hexp
    | next hexp _ ih => exact .later hexp (ih hout)
    | stops hexp _ =>
      subst hout
      exact .earlier hexp

/-- What is done with the value of a part does not fail. -/
theorem enter_leads_failed_iff {exp : Value} {waiting : Pending} {store : Store → Value → Store}
    {give : Value → Value}
    (hresume : ∀ st v, (Stack.resume ⟨[], d⟩ st v waiting).2 =
      Stack.proceed ⟨[], d⟩ (store st v) (.give (give v))) :
    (Stack.enter ⟨[], d⟩ st exp frame waiting).Leads (.done (.failed e) st') ↔
      EndsAt (d + 1) exp frame st (.failed e) st' := by
  rw [enter_leads_iff]
  constructor
  · rintro (⟨-, hexp⟩ | ⟨v, st₁, -, h⟩)
    · exact hexp
    · rw [hresume, give_leads_iff] at h
      cases h.1
  · intro hexp
    exact .inl ⟨Outcome.abrupt_failed e, hexp⟩

theorem form_leads_failed_iff (hd : d < maxDepth) (f : Form)
    (hf : ∀ names values body, f ≠ .bind names values body) :
    (Stack.form ⟨[], d⟩ st frame f).2.Leads (.done (.failed e) st') ↔ FailsInPart d frame e st' f st := by
  have hgive {st₁ : Store} {v : Value} :
      ¬(Stack.proceed ⟨[], d⟩ st₁ (.give v)).Leads (.done (.failed e) st') := by
    rw [give_leads_iff]
    rintro ⟨⟨⟩, -⟩
  cases f with
  | quote v => exact iff_of_false hgive nofun
  | lambda params body => exact iff_of_false hgive nofun
  | defineProcedure name params body => exact iff_of_false hgive nofun
  | vars => exact iff_of_false hgive nofun
  | quit =>
    refine iff_of_false (fun h => ?_) nofun
    cases (done_leads_iff.mp h).1
  | bind names values body => exact absurd rfl (hf names values body)
  | define name value =>
    refine (enter_leads_failed_iff fun _ _ => rfl).trans ⟨.define, fun h => ?_⟩
    cases h with
    | define hvalue => exact hvalue
  | assign name value =>
    refine (enter_leads_failed_iff fun _ _ => rfl).trans ⟨.assign, fun h => ?_⟩
    cases h with
    | assign hvalue => exact hvalue
  | sequence exps => exact (body_leads_iff hd).trans failsInPart_sequence_iff.symm
  | conditional test consequent alternative =>
    refine enter_leads_iff.trans ⟨?_, fun h => ?_⟩
    · rintro (⟨-, htest⟩ | ⟨v, st₁, htest, h⟩)
      · exact .test htest
      · simp only [Stack.resume] at h
        cases hv : v.isTruthy with
        | true =>
          rw [hv, if_pos rfl, ← endsAt_iff_leads hd] at h
          exact .consequent htest hv h
        | false =>
          rw [hv, if_neg Bool.false_ne_true] at h
          cases alternative with
          | none => exact absurd h hgive
          | some exp => exact .alternative htest hv ((endsAt_iff_leads hd).mpr h)
    · cases h with
      | test htest => exact .inl ⟨Outcome.abrupt_failed e, htest⟩
      | consequent htest hv hthen =>
        refine .inr ⟨_, _, htest, ?_⟩
        simp only [Stack.resume, hv, if_true]
        exact (endsAt_iff_leads hd).mp hthen
      | alternative htest hv helse =>
        refine .inr ⟨_, _, htest, ?_⟩
        simp only [Stack.resume, hv, Bool.false_eq_true, if_false]
        exact (endsAt_iff_leads hd).mp helse

/-- A special form is checked, and then evaluated or refused. -/
theorem special_endsAt_iff (hd : d < maxDepth) (keyword : Keyword) {label : Label} :
    EndsAt d (.pair label (Value.symbol keyword.symbol) args) frame st out st' ↔
      Next.Leads (match parse keyword args with
        | .ok f => (Stack.form ⟨[], d⟩ st frame f).2
        | .error e => .done (.failed e) st) (.done out st') := by
  rw [endsAt_iff_leads hd]
  exact leads_iff_of_leads (.of_step (step_special keyword.ofHead?_symbol))

end Parts

end Form

/-- **Special forms are checked first.** Let an expression begin with a keyword, whatever its symbol is bound
to. If the other parts do not fit it, evaluation fails, the failure names the form, and the store is as it
was. If they fit, a quotation, a procedure and the definition of a procedure have a value; and any form but
local bindings fails exactly if one of its parts fails, in the way that this part does. -/
theorem special_form_checked_first (keyword : Keyword) (label : Label) (args : Value) (frame : FrameId)
    (st : Store) {d : Nat} (hd : d < maxDepth) :
    let exp : Value := .pair label (Value.symbol keyword.symbol) args
    ((∀ f, ¬Form.Shaped keyword args f) → ∃ detail,
      EndsAt d exp frame st (.failed ⟨.malformedForm keyword.text detail, none⟩) st) ∧
    (∀ v, Form.Shaped keyword args (.quote v) → EndsAt d exp frame st (.value v) st) ∧
    (∀ params body, Form.Shaped keyword args (.lambda params body) →
      EndsAt d exp frame st (.value (.atom (.closure st.nextLabel params body frame)))
        { st with nextLabel := st.nextLabel + 1 }) ∧
    (∀ name params body, Form.Shaped keyword args (.defineProcedure name params body) →
      EndsAt d exp frame st (.value (.symbol okSymbol))
        ({ st with nextLabel := st.nextLabel + 1 }.bind frame name
          (.atom (.closure st.nextLabel params body frame)))) ∧
    (keyword ≠ .bind → ∀ f, Form.Shaped keyword args f → ∀ e st',
      EndsAt d exp frame st (.failed e) st' ↔ Form.FailsInPart d frame e st' f st) := by
  intro exp
  have hfits {f : Form} (hf : Form.Shaped keyword args f) {out : Outcome} {st' : Store} :
      EndsAt d exp frame st out st' ↔ (Stack.form ⟨[], d⟩ st frame f).2.Leads (.done out st') := by
    rw [Form.special_endsAt_iff hd keyword, Form.parse_eq_of_shaped hf]
  refine ⟨fun hunfit => ?_, fun v hf => ?_, fun params body hf => ?_, fun name params body hf => ?_,
    fun hkeyword f hf e st' => ?_⟩
  · cases hparse : Form.parse keyword args with
    | ok f => exact absurd (Form.parse_eq_ok_iff.mp hparse) (hunfit f)
    | error e =>
      obtain ⟨detail, rfl⟩ := Form.malformed_of_parse hparse
      refine ⟨detail, ?_⟩
      rw [Form.special_endsAt_iff hd keyword, hparse]
      exact .refl _
  · exact (hfits hf).mpr (give_leads_iff.mpr ⟨rfl, rfl⟩)
  · exact (hfits hf).mpr (give_leads_iff.mpr ⟨rfl, rfl⟩)
  · exact (hfits hf).mpr (give_leads_iff.mpr ⟨rfl, rfl⟩)
  · refine (hfits hf).trans (Form.form_leads_failed_iff hd f ?_)
    rintro names values body rfl
    cases hf
    exact hkeyword rfl

/-- `(if)` is refused, and `(begin x)` fails exactly if `x` does. -/
theorem emptyConditional_refused :
    (∃ detail, EndsAt 0 (.pair 0 (Value.symbol ⟨"IF"⟩) .nil) Store.globalFrame .initial
      (.failed ⟨.malformedForm "if" detail, none⟩) .initial) ∧
    ∀ e st', EndsAt 0 (.pair 0 (Value.symbol ⟨"BEGIN"⟩) (.pair 1 (Value.symbol ⟨"X"⟩) .nil))
        Store.globalFrame .initial (.failed e) st' ↔
      Form.FailsInPart 0 Store.globalFrame e st' (.sequence [Value.symbol ⟨"X"⟩]) .initial := by
  have hd : 0 < maxDepth := by decide
  refine ⟨(special_form_checked_first .conditional 0 .nil Store.globalFrame .initial hd).1 ?_, ?_⟩
  · rintro f hf
    cases hf with
    | conditional hargs => cases hargs
    | alternative hargs => cases hargs
  · exact (special_form_checked_first .sequence 0 _ Store.globalFrame .initial hd).2.2.2.2 (by decide) _
      (.sequence (.pair .nil))

end SmallScheme
