import Mathlib.Data.List.Chain
import Mathlib.Order.Bounds.Basic
import SmallScheme.Proofs.FrameHistory

/-!
# Chained comparisons

`comparisons_stop_at_first_failure`: a comparison of neighbours answers by the first argument at which it fails.

1. `Primitive.FailsAt` gives the arguments that are no numbers or do not stand in the relation to the one before
   them, in whatever order they are looked at. In front of arguments, a number that stands in the relation to the
   first of them moves these places by one (`Primitive.failsAt_related_iff`) and does not change the answer. So
   by induction the answer is that for the first of the places (`Primitive.chain_answers`).
2. Numbers compare as they should if they form a chain (`Primitive.chain_numbers_iff`), and a chain can be cut at
   any of them, whatever the relation is.
-/

namespace SmallScheme

namespace Primitive

/-- The relation of a comparison. -/
def relation? : Primitive → Option (Float → Float → Bool)
  | less => some fun x y => x < y
  | lessEqual => some fun x y => x ≤ y
  | greater => some fun x y => x > y
  | greaterEqual => some fun x y => x ≥ y
  | numberEqual => some fun x y => x == y
  | _ => none

variable {rel : Float → Float → Bool}

/-- A comparison of neighbours fails at an argument: it is no number, or the number before it does not stand in
the relation to it. -/
inductive FailsAt (rel : Float → Float → Bool) (args : List Value) : Nat → Prop where
  | notNumber {k v} (hv : args[k]? = some v) (hn : isNumberValue v = false) : FailsAt rel args k
  | unrelated {k x y} (hx : args[k]? = some (.number x)) (hy : args[k + 1]? = some (.number y))
      (h : rel x y = false) : FailsAt rel args (k + 1)

/-- The answer of a comparison of neighbours, by the first argument at which it fails. -/
structure Answers (rel : Float → Float → Bool) (args : List Value) (answer : Except Error Value) :
    Prop where
  nothing : args = [] → answer = .error ⟨.arityMismatch (.atLeast 1) 0, none⟩
  holds : args ≠ [] → (∀ k, ¬FailsAt rel args k) → answer = .ok (.boolean true)
  fails : ∀ k v, IsLeast {j | FailsAt rel args j} k → args[k]? = some v →
    answer = if isNumberValue v then .ok (.boolean false) else .error ⟨.notANumber v.text, none⟩

/-! ## Where a comparison fails -/

theorem exists_number {v : Value} (h : isNumberValue v = true) : ∃ x, v = .number x := by
  unfold isNumberValue at h
  split at h
  · exact ⟨_, rfl⟩
  · cases h

theorem failsAt_zero_iff {v : Value} {args : List Value} :
    FailsAt rel (v :: args) 0 ↔ isNumberValue v = false := by
  constructor
  · rintro ⟨hv, hn⟩
    cases hv
    exact hn
  · exact .notNumber rfl

theorem not_failsAt_nil (k : Nat) : ¬FailsAt rel [] k := by
  rintro (⟨hv, -⟩ | ⟨hx, -, -⟩)
  · cases hv
  · cases hx

theorem not_failsAt_single (x : Float) (k : Nat) : ¬FailsAt rel [.number x] k := by
  rintro (⟨hv, hn⟩ | ⟨-, hy, -⟩)
  · cases k with
    | zero =>
      cases hv
      cases hn
    | succ k => cases hv
  · cases hy

/-- A number that stands in the relation to the next one only moves the places behind it. -/
theorem failsAt_related_iff {x y : Float} (h : rel x y = true) {args : List Value} {k : Nat} :
    FailsAt rel (.number x :: .number y :: args) (k + 1) ↔ FailsAt rel (.number y :: args) k := by
  constructor
  · rintro (⟨hv, hn⟩ | ⟨hx, hy, hrel⟩)
    · exact .notNumber hv hn
    · cases k with
      | zero =>
        cases hx
        cases hy
        rw [h] at hrel
        cases hrel
      | succ k => exact .unrelated hx hy hrel
  · rintro (⟨hv, hn⟩ | ⟨hx, hy, hrel⟩)
    · exact .notNumber hv hn
    · exact .unrelated hx hy hrel

theorem isLeast_zero {P : Nat → Prop} (h : P 0) {k : Nat} (hk : IsLeast {j | P j} k) : k = 0 :=
  hk.unique ⟨h, fun j _ => Nat.zero_le j⟩

theorem isLeast_succ {P : Nat → Prop} (h : ¬P 0) {k : Nat} (hk : IsLeast {j | P j} k) :
    ∃ i, k = i + 1 ∧ IsLeast {j | P (j + 1)} i := by
  cases k with
  | zero => exact absurd hk.1 h
  | succ i => exact ⟨i, rfl, hk.1, fun j hj => Nat.succ_le_succ_iff.mp (hk.2 hj)⟩

theorem isLeast_one {P : Nat → Prop} (h : ¬P 0) (h' : P 1) {k : Nat} (hk : IsLeast {j | P j} k) :
    k = 1 := by
  obtain ⟨i, rfl, hi⟩ := isLeast_succ h hk
  rw [isLeast_zero h' hi]

/-! ## The answer -/

theorem asNumber_of_not {v : Value} (h : isNumberValue v = false) :
    v.asNumber = .error ⟨.notANumber v.text, none⟩ := by
  unfold Value.asNumber
  split
  · cases h
  · rfl

theorem chain_notNumber {v : Value} (h : isNumberValue v = false) (args : List Value) :
    chain rel (v :: args) = .error ⟨.notANumber v.text, none⟩ := by
  rw [chain, asNumber_of_not h]
  rfl

theorem chain_number_notNumber (x : Float) {v : Value} (h : isNumberValue v = false)
    (args : List Value) : chain rel (.number x :: v :: args) = .error ⟨.notANumber v.text, none⟩ := by
  show chainFrom rel x (v :: args) = _
  rw [chainFrom, asNumber_of_not h]
  rfl

theorem chain_numbers (x y : Float) (args : List Value) :
    chain rel (.number x :: .number y :: args) =
      if rel x y then chain rel (.number y :: args) else .ok (.boolean false) := rfl

/-- A number in front of others: they are looked at one after the other, as long as they are numbers that stand
in the relation. -/
theorem chain_number_answers (rel : Float → Float → Bool) (x : Float) (args : List Value) :
    Answers rel (.number x :: args) (chain rel (.number x :: args)) := by
  have hzero {args : List Value} {x : Float} : ¬FailsAt rel (.number x :: args) 0 := by
    rw [failsAt_zero_iff]
    exact Bool.noConfusion
  induction args generalizing x with
  | nil =>
    refine ⟨?_, fun _ _ => rfl, ?_⟩
    · rintro ⟨⟩
    · intro k v hk
      exact absurd hk.1 (not_failsAt_single x k)
  | cons v args ih =>
    cases hv : isNumberValue v with
    | false =>
      have hone : FailsAt rel (.number x :: v :: args) 1 := .notNumber rfl hv
      rw [chain_number_notNumber x hv]
      refine ⟨?_, fun _ hnone => absurd hone (hnone 1), ?_⟩
      · rintro ⟨⟩
      · intro k w hk hw
        obtain rfl := isLeast_one hzero hone hk
        cases hw
        rw [hv]
        rfl
    | true =>
      obtain ⟨y, rfl⟩ := exists_number hv
      rw [chain_numbers]
      cases hrel : rel x y with
      | false =>
        have hone : FailsAt rel (.number x :: .number y :: args) 1 := .unrelated rfl rfl hrel
        refine ⟨?_, fun _ hnone => absurd hone (hnone 1), ?_⟩
        · rintro ⟨⟩
        · intro k w hk hw
          obtain rfl := isLeast_one hzero hone hk
          cases hw
          rfl
      | true =>
        obtain ⟨-, hholds, hfails⟩ := ih y
        refine ⟨?_, ?_, ?_⟩
        · rintro ⟨⟩
        · intro _ hnone
          refine hholds (List.cons_ne_nil _ _) fun k hk => ?_
          exact hnone (k + 1) ((failsAt_related_iff hrel).mpr hk)
        · intro k w hk hw
          obtain ⟨i, rfl, hi⟩ := isLeast_succ hzero hk
          simp only [failsAt_related_iff hrel] at hi
          exact hfails i w hi hw

/-- **The first failure decides.** -/
theorem chain_answers (rel : Float → Float → Bool) (args : List Value) :
    Answers rel args (chain rel args) := by
  cases args with
  | nil =>
    refine ⟨fun _ => rfl, fun hne => absurd rfl hne, ?_⟩
    intro k v hk
    exact absurd hk.1 (not_failsAt_nil k)
  | cons v args =>
    cases hv : isNumberValue v with
    | true =>
      obtain ⟨x, rfl⟩ := exists_number hv
      exact chain_number_answers rel x args
    | false =>
      have hzero : FailsAt rel (v :: args) 0 := failsAt_zero_iff.mpr hv
      rw [chain_notNumber hv]
      refine ⟨?_, fun _ hnone => absurd hzero (hnone 0), ?_⟩
      · rintro ⟨⟩
      · intro k w hk hw
        obtain rfl := isLeast_zero hzero hk
        cases hw
        rw [hv]
        rfl

/-! ## Numbers in a chain -/

/-- Numbers compare as they should if each stands in the relation to the next. -/
theorem chain_numbers_iff (rel : Float → Float → Bool) (x : Float) (xs : List Float) :
    chain rel ((x :: xs).map .number) = .ok (.boolean true) ↔
      (x :: xs).IsChain fun y z => rel y z = true := by
  induction xs generalizing x with
  | nil => exact ⟨fun _ => List.isChain_singleton x, fun _ => rfl⟩
  | cons y xs ih =>
    rw [List.isChain_cons_cons, ← ih, List.map_cons, List.map_cons, chain_numbers]
    cases rel x y with
    | true => simp
    | false => simp

/-- A comparison can be cut at any number. -/
theorem chain_cut_iff (rel : Float → Float → Bool) (xs : List Float) (m : Float) (ys : List Float) :
    chain rel ((xs ++ [m] ++ ys).map .number) = .ok (.boolean true) ↔
      chain rel ((xs ++ [m]).map .number) = .ok (.boolean true) ∧
        chain rel (([m] ++ ys).map .number) = .ok (.boolean true) := by
  have hchain (zs : List Float) (hne : zs ≠ []) :
      chain rel (zs.map .number) = .ok (.boolean true) ↔ zs.IsChain fun y z => rel y z = true := by
    obtain ⟨z, zs, rfl⟩ := List.exists_cons_of_ne_nil hne
    exact chain_numbers_iff rel z zs
  rw [hchain _ (by simp), hchain _ (by simp), hchain _ (by simp), List.append_assoc]
  exact List.isChain_split

end Primitive

/-! ## Comparisons by their names -/

theorem LastWrite.of_mem {writes : List (Symbol × Value)} (hnodup : (writes.map Prod.fst).Nodup)
    {s : Symbol} {v : Value} (h : (s, v) ∈ writes) : LastWrite writes s v := by
  obtain ⟨before, after, rfl⟩ := List.append_of_mem h
  refine ⟨before, after, rfl, ?_⟩
  rw [List.map_append, List.map_cons] at hnodup
  exact (List.nodup_cons.mp (List.nodup_append.mp hnodup).2.1).1

theorem Primitive.mem_all (p : Primitive) : p ∈ all := by
  cases p <;> decide

/-- A fresh program finds every primitive procedure under its name. -/
theorem Store.lookup_initial (p : Primitive) :
    initial.lookup globalFrame (.ofName p.name) = .ok (.atom (.primitive p)) := by
  have hnodup : (initialBindings.map Prod.fst).Nodup := by decide +kernel
  have hmem : (Symbol.ofName p.name, Sexp.atom (Object.primitive p)) ∈ initialBindings :=
    List.mem_append_left _ (List.mem_map_of_mem p.mem_all)
  have htable := history_initial.tabulates
  exact htable.lookup _ _ ((htable.last _ _).mpr (.of_mem hnodup hmem))

/-- **Comparisons stop at the first failure.** A fresh program finds the comparisons under their names, and each
of them compares neighbours by its relation. Whatever the relation is, a comparison without arguments fails as
it needs one; else it answers by the first argument that is no number, or to which the number before it does not
stand in the relation: in the one case it fails and says so of that argument, in the other it is false, and if
there is no such argument it is true. Hence a comparison of numbers is true if it is true up to any one of them
and from that one on. -/
theorem comparisons_stop_at_first_failure :
    (∀ p : Primitive, p.relation?.isSome = true ↔ p.name ∈ ["<", "<=", ">", ">=", "="]) ∧
    (∀ (p : Primitive) rel, p.relation? = some rel →
      Store.initial.lookup Store.globalFrame (.ofName p.name) = .ok (.atom (.primitive p)) ∧
      ∀ args st, p.apply args st = (Primitive.chain rel args).map fun v => (v, st)) ∧
    (∀ rel args, Primitive.Answers rel args (Primitive.chain rel args)) ∧
    (∀ rel (xs : List Float) (m : Float) (ys : List Float),
      Primitive.chain rel ((xs ++ [m] ++ ys).map .number) = .ok (.boolean true) ↔
        Primitive.chain rel ((xs ++ [m]).map .number) = .ok (.boolean true) ∧
          Primitive.chain rel (([m] ++ ys).map .number) = .ok (.boolean true)) := by
  refine ⟨?_, ?_, Primitive.chain_answers, Primitive.chain_cut_iff⟩
  · intro p
    cases p <;> decide
  · intro p rel hrel
    refine ⟨Store.lookup_initial p, fun args st => ?_⟩
    cases p <;> cases hrel <;> rfl

/-- Behind a number that is not less than the one before it, an argument is not looked at, though it is no
number. -/
theorem fallingPair_is_false :
    IsLeast {j | Primitive.FailsAt (fun x y => x < y) [.number 2, .number 1, .nil] j} 1 ∧
      Primitive.less.apply [.number 2, .number 1, .nil] .initial = .ok (.boolean false, .initial) := by
  have hleast :
      IsLeast {j | Primitive.FailsAt (fun x y => x < y) [.number 2, .number 1, .nil] j} 1 := by
    refine ⟨.unrelated rfl rfl (by decide), ?_⟩
    intro j hj
    cases j with
    | zero => cases Primitive.failsAt_zero_iff.mp hj
    | succ j => exact Nat.succ_le_succ (Nat.zero_le j)
  obtain ⟨-, hnamed, hanswers, -⟩ := comparisons_stop_at_first_failure
  refine ⟨hleast, ?_⟩
  rw [(hnamed .less _ rfl).2, (hanswers _ _).fails 1 _ hleast rfl]
  rfl

end SmallScheme
