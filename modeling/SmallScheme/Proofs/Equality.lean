import SmallScheme.Proofs.Courses
import SmallScheme.Proofs.FloatBits

/-!
# Equality of values

`equal_is_structural`: for values that a program built, equality agrees with that of the trees, although it
does not look into cells that are the same.

1. Equality by rules: two pairs are equal if they are the same cell, or if their heads and their tails are
   equal (`Value.Matches`). With NaNs or not it is symmetric, and it is transitive where each cell has one
   content, since pairs in the same cell are then the same value (`Value.Matches.trans`).
2. `Value.Alike` is equality of the trees, whatever their cells. A value without a NaN is like itself
   (`Value.alike_self`), so the rule for the same cell adds nothing (`Value.Matches.alike`).
3. In a course of a program each cell has one content (`Course.agrees`).
-/

namespace SmallScheme

/-! ## Atoms -/

namespace Literal

theorem same_symm {l m : Literal} (h : l.same m = true) : m.same l = true := by
  cases l <;> cases m <;> simp only [same, beq_iff_eq, Bool.false_eq_true] at h ⊢
  case number.number => exact Decimal.beq_symm h
  all_goals exact h.symm

theorem same_trans {l m n : Literal} (hlm : l.same m = true) (hmn : m.same n = true) :
    l.same n = true := by
  cases l <;> cases m <;> simp only [same, beq_iff_eq, Bool.false_eq_true] at hlm
  case number.number =>
    cases n <;> simp only [same, Bool.false_eq_true] at hmn ⊢
    exact Decimal.beq_trans hlm hmn
  all_goals
    subst hlm
    exact hmn

/-- The number is a NaN. -/
def isNaN : Literal → Bool
  | number x => x.isNaN
  | symbol _ | string _ | boolean _ => false

theorem same_self_iff (l : Literal) : l.same l = true ↔ l.isNaN = false := by
  cases l with
  | number x => exact Decimal.beq_self_iff x
  | symbol s => simp [same, isNaN]
  | string s => simp [same, isNaN]
  | boolean b => simp [same, isNaN]

end Literal

/-- Primitive procedures are known by their names. -/
theorem Primitive.name_inj {p q : Primitive} : p.name = q.name ↔ p = q := by
  cases p <;> cases q <;> decide

namespace Object

theorem same_symm {a b : Object} (h : a.same b = true) : b.same a = true := by
  cases a <;> cases b <;> simp only [same, beq_iff_eq, Bool.false_eq_true] at h ⊢
  case literal.literal => exact Literal.same_symm h
  all_goals exact h.symm

theorem same_trans {a b c : Object} (hab : a.same b = true) (hbc : b.same c = true) :
    a.same c = true := by
  cases a <;> cases b <;> cases c <;>
    simp only [same, beq_iff_eq, Bool.false_eq_true] at hab hbc ⊢
  case literal.literal.literal => exact Literal.same_trans hab hbc
  all_goals exact hab.trans hbc

/-- The atom is a NaN. -/
def isNaN : Object → Bool
  | literal l => l.isNaN
  | primitive _ | closure .. => false

theorem same_self_iff (a : Object) : a.same a = true ↔ a.isNaN = false := by
  cases a with
  | literal l => exact l.same_self_iff
  | primitive p => simp [same, isNaN]
  | closure label params body frame => simp [same, isNaN]

end Object

namespace Value

/-! ## By recursion on the values -/

/-- Equality by rules. Pairs are equal if they are the same cell, or else part by part. -/
inductive Matches : Value → Value → Prop where
  | atom {a b} (h : Object.same a b = true) : Matches (.atom a) (.atom b)
  | nil : Matches .nil .nil
  | cell {label head tail head' tail'} : Matches (.pair label head tail) (.pair label head' tail')
  | parts {label label' head tail head' tail'} (hhead : Matches head head')
      (htail : Matches tail tail') : Matches (.pair label head tail) (.pair label' head' tail')

theorem equal_iff_matches {v w : Value} : v.equal w = true ↔ v.Matches w := by
  constructor
  · intro h
    induction v generalizing w with
    | atom a =>
      cases w with
      | atom b => exact .atom (by simpa [equal, equalAll] using h)
      | _ => simp [equal, equalAll] at h
    | nil =>
      cases w with
      | nil => exact .nil
      | _ => simp [equal, equalAll] at h
    | pair label head tail ihHead ihTail =>
      cases w with
      | pair label' head' tail' =>
        rw [equal, equalAll] at h
        split_ifs at h with hlabel
        · subst hlabel
          exact .cell
        · rw [equalAll_cons, equalAll_cons, equalAll, Bool.and_true, Bool.and_eq_true] at h
          exact .parts (ihHead h.1) (ihTail h.2)
      | _ => simp [equal, equalAll] at h
  · intro h
    induction h with
    | atom h => simp [equal, equalAll, h]
    | nil => simp [equal, equalAll]
    | cell => simp [equal, equalAll]
    | parts _ _ ihHead ihTail =>
      rw [equal, equalAll]
      split_ifs
      · simp [equalAll]
      · simp [equalAll_cons, equalAll, ihHead, ihTail]

theorem Matches.symm {v w : Value} (h : v.Matches w) : w.Matches v := by
  induction h with
  | atom h => exact .atom (Object.same_symm h)
  | nil => exact .nil
  | cell => exact .cell
  | parts _ _ ihHead ihTail => exact .parts ihHead ihTail

theorem equal_comm (v w : Value) : v.equal w = w.equal v := by
  rw [Bool.eq_iff_iff, equal_iff_matches, equal_iff_matches]
  exact ⟨.symm, .symm⟩

/-- Only a number can be different from itself, for a pair is the same cell as itself. -/
theorem equal_self_iff (v : Value) : v.equal v = true ↔ ∀ x, v = .number x → x.isNaN = false := by
  rw [equal_iff_matches]
  constructor
  · rintro h x rfl
    cases h with
    | atom h => exact (Object.same_self_iff _).mp h
  · intro h
    cases v with
    | nil => exact .nil
    | pair label head tail => exact .cell
    | atom a =>
      refine .atom ((Object.same_self_iff a).mpr ?_)
      rcases a with (s | x | s | b) | p | ⟨label, params, body, frame⟩
      · rfl
      · exact h x rfl
      all_goals rfl

/-! ## Sharing cells -/

section

variable {C : Contents}

theorem Agrees.same_pair {label : Label} {head tail head' tail' : Value}
    (h : Agrees C (.pair label head tail)) (h' : Agrees C (.pair label head' tail')) :
    head = head' ∧ tail = tail' := by
  have heq := h.unique h' rfl rfl
  simpa using heq

/-- Where each cell has one content equality is transitive, NaNs or not. -/
theorem Matches.trans {a b c : Value} (hab : a.Matches b) (hbc : b.Matches c) (ha : a.Agrees C)
    (hb : b.Agrees C) (hc : c.Agrees C) : a.Matches c := by
  induction hab generalizing c with
  | atom h =>
    cases hbc with
    | atom h' => exact .atom (Object.same_trans h h')
  | nil => exact hbc
  | cell =>
    obtain ⟨rfl, rfl⟩ := ha.same_pair hb
    exact hbc
  | parts hhead htail ihHead ihTail =>
    cases hbc with
    | cell =>
      obtain ⟨rfl, rfl⟩ := hb.same_pair hc
      exact .parts hhead htail
    | parts hhead' htail' =>
      obtain ⟨-, haHead, haTail⟩ := agrees_pair.mp ha
      obtain ⟨-, hbHead, hbTail⟩ := agrees_pair.mp hb
      obtain ⟨-, hcHead, hcTail⟩ := agrees_pair.mp hc
      exact .parts (ihHead hhead' haHead hbHead hcHead) (ihTail htail' haTail hbTail hcTail)

end

/-! ## Trees -/

/-- Equality of the trees: symbols that are the same, numbers that are equal, strings and truth values with
the same content, primitive procedures with the same name, one and the same closure, and pairs by their
heads and tails, in whatever cells they are. -/
inductive Alike : Value → Value → Prop where
  | symbol {s} : Alike (.symbol s) (.symbol s)
  | number {x y : Float} (h : (x == y) = true) : Alike (.number x) (.number y)
  | string {s} : Alike (.atom (.literal (.string s))) (.atom (.literal (.string s)))
  | boolean {b} : Alike (.boolean b) (.boolean b)
  | primitive {p q} (h : Primitive.name p = q.name) : Alike (.atom (.primitive p)) (.atom (.primitive q))
  | closure {label params body frame} :
      Alike (.atom (.closure label params body frame)) (.atom (.closure label params body frame))
  | nil : Alike .nil .nil
  | pair {label label' head tail head' tail'} (hhead : Alike head head') (htail : Alike tail tail') :
      Alike (.pair label head tail) (.pair label' head' tail')

/-- A NaN occurs in the tree. -/
def holdsNaN : Value → Bool
  | .atom a => a.isNaN
  | .nil => false
  | .pair _ head tail => holdsNaN head || holdsNaN tail

theorem Alike.matches {v w : Value} (h : v.Alike w) : v.Matches w := by
  induction h with
  | symbol => exact .atom ((Object.same_self_iff _).mpr rfl)
  | number h => exact .atom h
  | string => exact .atom ((Object.same_self_iff _).mpr rfl)
  | boolean => exact .atom ((Object.same_self_iff _).mpr rfl)
  | primitive h =>
    rw [Primitive.name_inj] at h
    subst h
    exact .atom ((Object.same_self_iff _).mpr rfl)
  | closure => exact .atom ((Object.same_self_iff _).mpr rfl)
  | nil => exact .nil
  | pair _ _ ihHead ihTail => exact .parts ihHead ihTail

/-- Atoms that are equal are alike, closures because they are cells with one content. -/
theorem alike_of_same {C : Contents} {a b : Object} (h : a.same b = true) (ha : Agrees C (.atom a))
    (hb : Agrees C (.atom b)) : Alike (.atom a) (.atom b) := by
  cases a with
  | literal l =>
    cases b with
    | literal m =>
      cases l <;> cases m <;> simp only [Object.same, Literal.same, beq_iff_eq, Bool.false_eq_true] at h
      case number.number => exact .number h
      all_goals subst h
      · exact .symbol
      · exact .string
      · exact .boolean
    | primitive q => cases h
    | closure => cases h
  | primitive p =>
    cases b with
    | literal m => cases h
    | primitive q => exact .primitive (congrArg Primitive.name (eq_of_beq h))
    | closure => cases h
  | closure label params body frame =>
    cases b with
    | literal m => cases h
    | primitive q => cases h
    | closure label' params' body' frame' =>
      obtain rfl : label = label' := eq_of_beq h
      rw [ha.unique hb rfl rfl]
      exact .closure

theorem alike_self {C : Contents} {v : Value} (hv : v.Agrees C) (h : v.holdsNaN = false) : v.Alike v := by
  induction v with
  | atom a => exact alike_of_same ((Object.same_self_iff a).mpr h) hv hv
  | nil => exact .nil
  | pair label head tail ihHead ihTail =>
    rw [holdsNaN, Bool.or_eq_false_iff] at h
    obtain ⟨-, hhead, htail⟩ := agrees_pair.mp hv
    exact .pair (ihHead hhead h.1) (ihTail htail h.2)

theorem Matches.alike {C : Contents} {v w : Value} (h : v.Matches w) (hv : v.Agrees C)
    (hw : w.Agrees C) (hn : v.holdsNaN = false) : v.Alike w := by
  induction h with
  | atom h => exact alike_of_same h hv hw
  | nil => exact .nil
  | cell =>
    obtain ⟨rfl, rfl⟩ := hv.same_pair hw
    exact alike_self hv hn
  | parts _ _ ihHead ihTail =>
    rw [holdsNaN, Bool.or_eq_false_iff] at hn
    obtain ⟨-, hvHead, hvTail⟩ := agrees_pair.mp hv
    obtain ⟨-, hwHead, hwTail⟩ := agrees_pair.mp hw
    exact .pair (ihHead hvHead hwHead hn.1) (ihTail hvTail hwTail hn.2)

end Value

/-! ## Values that were built -/

/-- **Equality is that of trees.** Let values be built in any course of a program, with whatever cells they
share. The primitive procedure compares two of them by `Value.equal`. A pair that occurs in both under one
label has one content. If no NaN occurs in them they are equal exactly if their trees are. NaNs or not,
equality is symmetric and transitive, and each value is equal to itself unless it is a NaN. -/
theorem equal_is_structural {moments : List Next} (h : Course moments) {a b c : Value}
    (ha : Built moments a) (hb : Built moments b) (hc : Built moments c) :
    (∀ st, Primitive.isEqual.apply [a, b] st = .ok (.boolean (a.equal b), st)) ∧
    (∀ label head tail head' tail', a.Part (.pair label head tail) → b.Part (.pair label head' tail') →
      head = head' ∧ tail = tail') ∧
    (a.holdsNaN = false → b.holdsNaN = false → (a.equal b = true ↔ a.Alike b)) ∧
    a.equal b = b.equal a ∧
    (a.equal b = true → b.equal c = true → a.equal c = true) ∧
    (a.equal a = true ↔ ∀ x, a = .number x → x.isNaN = false) := by
  obtain ⟨C, -, hbuilt⟩ := h.agrees
  have haC := hbuilt a ha
  have hbC := hbuilt b hb
  have hcC := hbuilt c hc
  simp only [Value.equal_iff_matches]
  refine ⟨fun st => rfl, ?_, ?_, a.equal_comm b, ?_, ?_⟩
  · intro label head tail head' tail' hpart hpart'
    exact (haC.part hpart).same_pair (hbC.part hpart')
  · intro hn _
    exact ⟨fun hab => hab.alike haC hbC hn, Value.Alike.matches⟩
  · intro hab hbc
    exact hab.trans hbc haC hbC hcC
  · rw [← Value.equal_iff_matches]
    exact a.equal_self_iff

-- A cell that holds a NaN is equal to itself, but not to another cell with the same content.
example : ((Session.initial .off).run 40 "(define x (cons (/ 0 0) 1)) (equal? x x)" 0).1.value.map
    Value.text = some "#t" := by decide +kernel

example : ((Session.initial .off).run 40 "(equal? (cons (/ 0 0) 1) (cons (/ 0 0) 1))" 0).1.value.map
    Value.text = some "#f" := by decide +kernel

/-- A text that makes two cells with the same content, and a pair of them. -/
def twoCells : String := "(cons (cons 1 2) (cons 1 2))"

theorem twoCells_alike : ∃ (label : Label) (a b : Value),
    ((Session.initial .off).run 40 twoCells Store.globalFrame).1.value = some (.pair label a b) ∧
      a.holdsNaN = false ∧ b.holdsNaN = false ∧ a.equal b = true ∧ a.Alike b := by
  have hvalue : ((Session.initial .off).run 40 twoCells Store.globalFrame).1.value.any (fun v =>
      v.asPair.toOption.any fun parts =>
        !parts.1.holdsNaN && !parts.2.holdsNaN && parts.1.equal parts.2) = true := by
    decide +kernel
  obtain ⟨later, hcourse, -, hbuilt⟩ :=
    Session.run_course .fresh (s := .initial .off) rfl 40 twoCells Store.globalFrame
  obtain ⟨v, hrun, hv⟩ := (Option.any_eq_true _ _).mp hvalue
  obtain ⟨next, hnext, w, hw, hpart⟩ := hbuilt v hrun
  cases v with
  | atom a => cases hv
  | nil => cases hv
  | pair label a b =>
    have hparts : (!Value.holdsNaN a && !Value.holdsNaN b && Value.equal a b) = true := hv
    simp only [Bool.and_eq_true, Bool.not_eq_true'] at hparts
    obtain ⟨⟨ha, hb⟩, heq⟩ := hparts
    have hbuiltA : Built (later ++ []) a := ⟨next, hnext, w, hw, hpart.trans (.head .refl)⟩
    have hbuiltB : Built (later ++ []) b := ⟨next, hnext, w, hw, hpart.trans (.tail .refl)⟩
    obtain ⟨-, -, hiff, -⟩ := equal_is_structural hcourse hbuiltA hbuiltB hbuiltB
    exact ⟨label, a, b, hrun, ha, hb, heq, (hiff ha hb).mp heq⟩

end SmallScheme
