import Mathlib.Data.Set.Basic
import SmallScheme.Machine

/-!
# The frames that values hold

A value holds the frames in which its closures were made. `Value.Captures v f` finds a closure of the
frame `f` anywhere in `v`: in a part of a pair or in the body of another closure. `v.Within S` says that
all frames held by `v` lie in the set `S`.

Nothing that evaluation does with values makes up a frame:

1. What the parts of a pair inherit from it, the parts of a special form inherit from the expression
   (`Form.parse_parts`). So they hold what the expression holds (`Form.parse_within`).
2. Primitive procedures return a literal, a part of an argument or a new pair (`Primitive.apply_cases`), so
   they hand on what their arguments hold (`Primitive.apply_within`), and so does the application that
   local bindings stand for (`Form.applied_within`).
3. Data hold no frames (`Store.embed_within`).
-/

namespace SmallScheme

namespace Value

/-- A closure that was made in the frame occurs in the value, at any depth. -/
inductive Captures : Value → FrameId → Prop where
  | here {label params body frame} : Captures (.atom (.closure label params body frame)) frame
  | body {label params body frame exp f} (hexp : exp ∈ body) (h : Captures exp f) :
      Captures (.atom (.closure label params body frame)) f
  | head {label head tail f} (h : Captures head f) : Captures (.pair label head tail) f
  | tail {label head tail f} (h : Captures tail f) : Captures (.pair label head tail) f

/-- All frames that the value holds lie in the set. -/
def Within (S : Set FrameId) (v : Value) : Prop := ∀ f, v.Captures f → f ∈ S

/-- Both parts of a pair have the property if the pair has it. -/
def Hereditary (P : Value → Prop) : Prop :=
  ∀ label head tail, P (.pair label head tail) → P head ∧ P tail

section

variable {P : Value → Prop} (hP : Hereditary P)
include hP

theorem Hereditary.spine {v : Value} (h : P v) : ∀ item ∈ v.spine.1, P item := by
  induction v with
  | atom a => simp
  | nil => simp
  | pair label head tail _ ih =>
    rw [Sexp.spine_pair, List.forall_mem_cons]
    exact ⟨(hP label head tail h).1, ih (hP label head tail h).2⟩

theorem Hereditary.toList? {v : Value} {items : List Value} (hv : v.toList? = some items) (h : P v) :
    ∀ item ∈ items, P item := by
  unfold Sexp.toList? at hv
  split at hv
  · next hspine =>
    cases hv
    have hitems := hP.spine h
    rwa [hspine] at hitems
  · cases hv

end

section

variable {S T : Set FrameId}

theorem Within.mono (hST : S ⊆ T) {v : Value} (h : v.Within S) : v.Within T :=
  fun f hf => hST (h f hf)

@[simp] theorem within_nil : Within S .nil := by
  intro f hf
  cases hf

@[simp] theorem within_literal (l : Literal) : Within S (.atom (.literal l)) := by
  intro f hf
  cases hf

@[simp] theorem within_primitive (p : Primitive) : Within S (.atom (.primitive p)) := by
  intro f hf
  cases hf

@[simp] theorem within_closure {label : Label} {params : List Symbol} {body : List Value}
    {frame : FrameId} :
    Within S (.atom (.closure label params body frame)) ↔ frame ∈ S ∧ ∀ exp ∈ body, Within S exp := by
  constructor
  · intro h
    exact ⟨h frame .here, fun exp hexp f hf => h f (.body hexp hf)⟩
  · rintro ⟨hframe, hbody⟩ f hf
    cases hf with
    | here => exact hframe
    | body hexp hf => exact hbody _ hexp f hf

@[simp] theorem within_pair {label : Label} {head tail : Value} :
    Within S (.pair label head tail) ↔ Within S head ∧ Within S tail := by
  constructor
  · intro h
    exact ⟨fun f hf => h f (.head hf), fun f hf => h f (.tail hf)⟩
  · rintro ⟨hhead, htail⟩ f hf
    cases hf with
    | head hf => exact hhead f hf
    | tail hf => exact htail f hf

theorem within_hereditary : Hereditary (Within S) := fun _ _ _ h => within_pair.mp h

end

end Value

/-! ## Taking expressions apart -/

theorem exists_of_bind_eq_ok {ε α β : Type} {x : Except ε α} {f : α → Except ε β} {b : β}
    (h : x >>= f = .ok b) : ∃ a, x = .ok a ∧ f a = .ok b := by
  cases x with
  | error e => cases h
  | ok a => exact ⟨a, rfl, h⟩

theorem exists_of_map_eq_ok {ε α β : Type} {x : Except ε α} {f : α → β} {b : β}
    (h : x.map f = .ok b) : ∃ a, x = .ok a ∧ f a = b := by
  cases x with
  | error e => cases h
  | ok a =>
    cases h
    exact ⟨a, rfl, rfl⟩

namespace Form

/-- The expressions that a form is made of. -/
def parts : Form → List Value
  | quote v => [v]
  | define _ value => [value]
  | defineProcedure _ _ body => body
  | assign _ value => [value]
  | conditional test consequent alternative => test :: consequent :: alternative.toList
  | sequence body => body
  | lambda _ body => body
  | bind _ values body => values ++ body
  | quit => []
  | vars => []

section

variable {P : Value → Prop} (hP : Value.Hereditary P)
variable {f : Form} {keyword : Keyword} {args part : Value} {items : List Value}
include hP

theorem proper_parts (h : proper keyword part = .ok items) (hp : P part) : ∀ v ∈ items, P v := by
  unfold proper at h
  split at h
  · next hitems =>
    cases h
    exact hP.toList? hitems hp
  · cases h

theorem parseQuote_parts (h : parseQuote args = .ok f) (ha : P args) : ∀ v ∈ f.parts, P v := by
  obtain ⟨items, hitems, h⟩ := exists_of_bind_eq_ok h
  have hparts := proper_parts hP hitems ha
  split at h
  · cases h
    exact hparts
  · cases h

theorem parseDefine_parts (h : parseDefine args = .ok f) (ha : P args) : ∀ v ∈ f.parts, P v := by
  unfold parseDefine at h
  split at h
  · obtain ⟨items, hitems, h⟩ := exists_of_bind_eq_ok h
    have hparts := proper_parts hP hitems (hP _ _ _ ha).2
    split at h
    · cases h
      exact hparts
    · cases h
  · obtain ⟨params, -, h⟩ := exists_of_bind_eq_ok h
    obtain ⟨items, hitems, h⟩ := exists_of_bind_eq_ok h
    cases h
    exact proper_parts hP hitems (hP _ _ _ ha).2
  · cases h
  · cases h
  · cases h

theorem parseAssign_parts (h : parseAssign args = .ok f) (ha : P args) : ∀ v ∈ f.parts, P v := by
  obtain ⟨items, hitems, h⟩ := exists_of_bind_eq_ok h
  have hparts := proper_parts hP hitems ha
  split at h
  · cases h
    exact (List.forall_mem_cons.mp hparts).2
  · cases h
  · cases h

theorem parseConditional_parts (h : parseConditional args = .ok f) (ha : P args) :
    ∀ v ∈ f.parts, P v := by
  obtain ⟨items, hitems, h⟩ := exists_of_bind_eq_ok h
  have hparts := proper_parts hP hitems ha
  split at h
  · cases h
    exact hparts
  · cases h
    exact hparts
  · cases h

theorem parseLambda_parts (h : parseLambda args = .ok f) (ha : P args) : ∀ v ∈ f.parts, P v := by
  unfold parseLambda at h
  split at h
  · obtain ⟨params, -, h⟩ := exists_of_bind_eq_ok h
    obtain ⟨items, hitems, h⟩ := exists_of_bind_eq_ok h
    cases h
    exact proper_parts hP hitems (hP _ _ _ ha).2
  · cases h

theorem binding_part {v : Value} {pair : Symbol × Value} (h : binding v = .ok pair) (hv : P v) :
    P pair.2 := by
  unfold binding at h
  split at h
  · obtain ⟨items, hitems, h⟩ := exists_of_bind_eq_ok h
    have hparts := proper_parts hP hitems hv
    split at h
    · cases h
      exact hparts _ (by simp)
    · cases h
  · cases h
  · cases h

theorem bindings_parts {pairs : List (Symbol × Value)} (h : items.mapM binding = .ok pairs)
    (hi : ∀ v ∈ items, P v) : ∀ v ∈ pairs.map Prod.snd, P v := by
  induction items generalizing pairs with
  | nil =>
    cases h
    simp
  | cons item items ih =>
    rw [List.forall_mem_cons] at hi
    rw [List.mapM_cons] at h
    obtain ⟨pair, hpair, h⟩ := exists_of_bind_eq_ok h
    obtain ⟨rest, hrest, h⟩ := exists_of_bind_eq_ok h
    cases h
    rw [List.map_cons, List.forall_mem_cons]
    exact ⟨binding_part hP hpair hi.1, ih hrest hi.2⟩

theorem parseBind_parts (h : parseBind args = .ok f) (ha : P args) : ∀ v ∈ f.parts, P v := by
  obtain ⟨items, hitems, h⟩ := exists_of_bind_eq_ok h
  have hparts := proper_parts hP hitems ha
  split at h
  · cases h
  · rw [List.forall_mem_cons] at hparts
    obtain ⟨listed, hlisted, h⟩ := exists_of_bind_eq_ok h
    obtain ⟨pairs, hpairs, h⟩ := exists_of_bind_eq_ok h
    cases h
    rintro v hv
    rcases List.mem_append.mp hv with hv | hv
    · exact bindings_parts hP hpairs (proper_parts hP hlisted hparts.1) v hv
    · exact hparts.2 v hv

/-- What the parts of pairs inherit, the parts of a special form inherit from the expression. -/
theorem parse_parts (h : parse keyword args = .ok f) (ha : P args) : ∀ v ∈ f.parts, P v := by
  cases keyword with
  | quote => exact parseQuote_parts hP h ha
  | define => exact parseDefine_parts hP h ha
  | assign => exact parseAssign_parts hP h ha
  | conditional => exact parseConditional_parts hP h ha
  | sequence =>
    obtain ⟨items, hitems, rfl⟩ := exists_of_map_eq_ok h
    exact proper_parts hP hitems ha
  | lambda => exact parseLambda_parts hP h ha
  | bind => exact parseBind_parts hP h ha
  | quit =>
    cases h
    simp [parts]
  | vars =>
    cases h
    simp [parts]

end

/-- All frames that the parts of the form hold lie in the set. -/
def Within (S : Set FrameId) (f : Form) : Prop := ∀ v ∈ f.parts, v.Within S

/-- The parts of a special form hold only what the expression holds. -/
theorem parse_within {S : Set FrameId} {f : Form} {keyword : Keyword} {args : Value}
    (h : parse keyword args = .ok f) (ha : args.Within S) : f.Within S :=
  parse_parts Value.within_hereditary h ha

end Form

/-! ## Putting values together -/

namespace Store

variable {S : Set FrameId}

/-- A program starts with values that are no cells. -/
theorem initialBindings_cases {entry : Symbol × Value} (h : entry ∈ initialBindings) :
    entry.2 = .nil ∨ (∃ l, entry.2 = .atom (.literal l)) ∨ ∃ p, entry.2 = .atom (.primitive p) := by
  rcases List.mem_append.mp h with h | h
  · obtain ⟨p, -, rfl⟩ := List.mem_map.mp h
    exact .inr (.inr ⟨p, rfl⟩)
  · rw [List.mem_cons, List.mem_singleton] at h
    rcases h with rfl | rfl
    · exact .inr (.inl ⟨_, rfl⟩)
    · exact .inl rfl

theorem consReversed_within (st : Store) {items : List Value} {tail : Value}
    (hi : ∀ v ∈ items, v.Within S) (ht : tail.Within S) :
    (st.consReversed items tail).1.Within S ∧ (st.consReversed items tail).2.frames = st.frames := by
  unfold consReversed
  induction items generalizing tail st with
  | nil => exact ⟨ht, rfl⟩
  | cons item items ih =>
    rw [List.forall_mem_cons] at hi
    exact ih (st.cons item tail).2 hi.2 (Value.within_pair.mpr ⟨hi.1, ht⟩)

theorem list_within (st : Store) {items : List Value} (hi : ∀ v ∈ items, v.Within S) :
    (st.list items).1.Within S ∧ (st.list items).2.frames = st.frames :=
  st.consReversed_within (fun v hv => hi v (List.mem_reverse.mp hv)) Value.within_nil

theorem embed_within (st : Store) (d : Datum) :
    (st.embed d).1.Within S ∧ (st.embed d).2.frames = st.frames := by
  refine ⟨?_, rfl⟩
  show (d.embed st.nextLabel).1.Within S
  rw [Datum.embed_eq]
  generalize st.nextLabel = next
  induction d generalizing next with
  | atom a => exact Value.within_literal a
  | nil => exact Value.within_nil
  | pair label head tail ihHead ihTail => exact Value.within_pair.mpr ⟨ihHead _, ihTail _⟩

end Store

/-- The application that local bindings stand for holds what the bindings and the body hold. -/
theorem Form.applied_within {S : Set FrameId} (st : Store) (names : List Symbol)
    {values body : List Value} (hv : ∀ v ∈ values, v.Within S) (hb : ∀ v ∈ body, v.Within S) :
    (applied st names values body).1.Within S ∧
      (applied st names values body).2.frames = st.frames := by
  have hnames : ∀ v ∈ names.map Value.symbol, v.Within S := by simp
  obtain ⟨hparams, hst₁⟩ := st.list_within hnames
  obtain ⟨hbody, hst₂⟩ := (st.list (names.map .symbol)).2.list_within hb
  unfold applied
  dsimp only
  generalize hst : (((st.list (names.map Value.symbol)).2.list body).2.cons _ _).2.cons _ _ = made
  obtain ⟨hoperands, hst₃⟩ := made.2.list_within hv
  have hmade : made.1.Within S ∧ made.2.frames = st.frames := by
    rw [← hst]
    exact ⟨by simp [Store.cons, hparams, hbody], hst₂.trans hst₁⟩
  exact ⟨Value.within_pair.mpr ⟨hmade.1, hoperands⟩, hst₃.trans hmade.2⟩

namespace Primitive

variable {S : Set FrameId} {args : List Value} {v : Value} {st st' : Store}

/-- Sums and products are atoms that can be written down. -/
theorem fold_literal {op : Float → Float → Float} {start : Float} (h : fold op start args = .ok v) :
    ∃ l, v = .atom (.literal l) := by
  obtain ⟨xs, -, h⟩ := exists_of_bind_eq_ok h
  cases h
  exact ⟨_, rfl⟩

theorem reduce_literal {f : Float → Float} {op : Float → Float → Float}
    (h : reduce f op args = .ok v) : ∃ l, v = .atom (.literal l) := by
  obtain ⟨xs, -, h⟩ := exists_of_bind_eq_ok h
  split at h
  · cases h
  · cases h
    exact ⟨_, rfl⟩
  · cases h
    exact ⟨_, rfl⟩

theorem chainFrom_literal {rel : Float → Float → Bool} {x : Float}
    (h : chainFrom rel x args = .ok v) : ∃ l, v = .atom (.literal l) := by
  induction args generalizing x with
  | nil =>
    cases h
    exact ⟨_, rfl⟩
  | cons arg args ih =>
    obtain ⟨y, -, h⟩ := exists_of_bind_eq_ok h
    split at h
    · exact ih h
    · cases h
      exact ⟨_, rfl⟩

theorem chain_literal {rel : Float → Float → Bool} (h : chain rel args = .ok v) :
    ∃ l, v = .atom (.literal l) := by
  cases args with
  | nil => cases h
  | cons arg args =>
    obtain ⟨x, -, h⟩ := exists_of_bind_eq_ok h
    exact chainFrom_literal h

/-- A function of one argument is applied to it. -/
theorem exists_of_unary {f : Value → Except Error Value} (h : unary f args = .ok v) :
    ∃ arg ∈ args, f arg = .ok v := by
  unfold unary at h
  split at h
  · exact ⟨_, List.mem_singleton_self _, h⟩
  · cases h

/-- A function of two arguments is applied to them. -/
theorem exists_of_binary {α : Type} {f : Value → Value → α} {a : α} (h : binary f args = .ok a) :
    ∃ left ∈ args, ∃ right ∈ args, f left right = a := by
  unfold binary at h
  split at h
  · cases h
    exact ⟨_, by simp, _, by simp, rfl⟩
  · cases h

/-- The parts of a pair are those of an argument. -/
theorem exists_of_asPair {f : Value × Value → Value}
    (h : unary (fun w => w.asPair.map f) args = .ok v) :
    ∃ label head tail, .pair label head tail ∈ args ∧ v = f (head, tail) := by
  obtain ⟨arg, harg, hv⟩ := exists_of_unary h
  obtain ⟨parts, hparts, rfl⟩ := exists_of_map_eq_ok hv
  cases arg with
  | atom a => cases hparts
  | nil => cases hparts
  | pair label head tail =>
    cases hparts
    exact ⟨label, head, tail, harg, rfl⟩

/-- What a primitive procedure can return: an atom that can be written down, a part of an argument that is
a pair, or else a new pair of arguments. Only the last changes the store. -/
theorem apply_cases {p : Primitive} (h : p.apply args st = .ok (v, st')) :
    ((∃ l, v = .atom (.literal l)) ∧ st' = st) ∨
    ((∃ label head tail, .pair label head tail ∈ args ∧ (v = head ∨ v = tail)) ∧ st' = st) ∨
    ∃ left ∈ args, ∃ right ∈ args, st.cons left right = (v, st') := by
  have hkeeping {result : Except Error Value} (h : keeping st result = .ok (v, st')) :
      result = .ok v ∧ st' = st := by
    obtain ⟨w, hw, heq⟩ := exists_of_map_eq_ok h
    cases heq
    exact ⟨hw, rfl⟩
  cases p with
  | add | multiply =>
    obtain ⟨h, hst⟩ := hkeeping h
    exact .inl ⟨fold_literal h, hst⟩
  | subtract | divide =>
    obtain ⟨h, hst⟩ := hkeeping h
    exact .inl ⟨reduce_literal h, hst⟩
  | less | lessEqual | greater | greaterEqual | numberEqual =>
    obtain ⟨h, hst⟩ := hkeeping h
    exact .inl ⟨chain_literal h, hst⟩
  | isNumber | isPair | isNull =>
    obtain ⟨h, hst⟩ := hkeeping h
    obtain ⟨arg, -, harg⟩ := exists_of_unary h
    cases harg
    exact .inl ⟨⟨_, rfl⟩, hst⟩
  | isEqual =>
    obtain ⟨h, hst⟩ := hkeeping h
    obtain ⟨left, -, right, -, rfl⟩ := exists_of_binary h
    exact .inl ⟨⟨_, rfl⟩, hst⟩
  | cons =>
    obtain ⟨left, hleft, right, hright, hpair⟩ := exists_of_binary h
    exact .inr (.inr ⟨left, hleft, right, hright, hpair⟩)
  | car =>
    obtain ⟨h, hst⟩ := hkeeping h
    obtain ⟨label, head, tail, hmem, hv⟩ := exists_of_asPair h
    exact .inr (.inl ⟨⟨label, head, tail, hmem, .inl hv⟩, hst⟩)
  | cdr =>
    obtain ⟨h, hst⟩ := hkeeping h
    obtain ⟨label, head, tail, hmem, hv⟩ := exists_of_asPair h
    exact .inr (.inl ⟨⟨label, head, tail, hmem, .inr hv⟩, hst⟩)

/-- Primitive procedures hand on what their arguments hold, and leave the frames as they are. -/
theorem apply_within {p : Primitive} (h : p.apply args st = .ok (v, st'))
    (hargs : ∀ arg ∈ args, arg.Within S) : v.Within S ∧ st'.frames = st.frames := by
  rcases apply_cases h with ⟨⟨l, rfl⟩, rfl⟩ | ⟨⟨label, head, tail, hmem, hv⟩, rfl⟩ |
    ⟨left, hleft, right, hright, hcons⟩
  · exact ⟨Value.within_literal l, rfl⟩
  · obtain ⟨hhead, htail⟩ := Value.within_pair.mp (hargs _ hmem)
    rcases hv with rfl | rfl
    · exact ⟨hhead, rfl⟩
    · exact ⟨htail, rfl⟩
  · cases hcons
    exact ⟨Value.within_pair.mpr ⟨hargs left hleft, hargs right hright⟩, rfl⟩

end Primitive

end SmallScheme
