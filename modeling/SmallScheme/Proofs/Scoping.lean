import SmallScheme.Proofs.StoreHistory

/-!
# What a write changes for every frame

`Session.write_seen_from_frame`: what the search for a symbol finds from any frame, before and after an
assignment, a definition and the making of a frame.

1. The search follows the chain of parents (`Store.chain`). Where parents are older than their children
   both searches take one step at a time (`get?_eq`, `owner_of_parent`), and a fact about all frames can be
   proved from the outermost ones inward (`Ordered.inward`).
2. A binding in a frame `e` is seen from a frame `g` exactly if `e` is exposed to `g`: it lies on the chain
   of `g`, and no frame before it binds the symbol (`get?_bind`).
3. The owner of a symbol is exposed to every frame with this owner and to no other (`exposed_owner_iff`), so
   that assignment is a case of definition.
-/

namespace SmallScheme

namespace Store

variable {st st' : Store} {e f g p : FrameId} {x y : Symbol} {v w : Value}

/-! ## Chains of parents -/

/-- Every parent is older than its child. -/
def Ordered (st : Store) : Prop := ∀ f p : Nat, st.parent f = some p → p < f

/-- The frames from a frame outward, up to the outermost one. -/
def chain (st : Store) (f : FrameId) : List FrameId :=
  match st.parent f with
  | some p => if p < f then f :: st.chain p else [f]
  | none => [f]
termination_by f

/-- Frame by frame, from the outermost ones inward. -/
theorem Ordered.inward (hst : st.Ordered) {motive : FrameId → Prop}
    (outermost : ∀ f, st.parent f = none → motive f)
    (inner : ∀ f p, st.parent f = some p → motive p → motive f) (f : FrameId) : motive f := by
  induction f using Nat.strongRecOn with
  | ind f ih =>
  cases hp : st.parent f with
  | none => exact outermost f hp
  | some p => exact inner f p hp (ih p (hst f p hp))

theorem chain_of_outermost (hp : st.parent f = none) : st.chain f = [f] := by
  rw [chain, hp]

theorem chain_of_parent (hst : st.Ordered) (hp : st.parent f = some p) :
    st.chain f = f :: st.chain p := by
  rw [chain, hp]
  exact if_pos (hst f p hp)

theorem binds_eq_isSome (st : Store) (f : FrameId) (x : Symbol) :
    st.binds f x = ((st.bindings f).get? x).isSome := by
  unfold binds bindings
  cases st.frames[f]? <;> rfl

/-- One step of the search for a value. -/
theorem get?_eq (hst : st.Ordered) (f : FrameId) (x : Symbol) :
    st.get? f x = ((st.bindings f).get? x).or ((st.parent f).bind (st.get? · x)) := by
  have hlt := hst f
  rw [get?]
  unfold parent at hlt ⊢
  unfold bindings
  cases hframe : st.frames[f]? with
  | none => rfl
  | some frame =>
    rw [hframe] at hlt
    have hbindings : frame.bindings.get? x = frame.get? x := rfl
    simp only [Option.map_some, Option.getD_some, Option.bind_some, hbindings]
    cases frame.get? x with
    | some w => rfl
    | none =>
      cases hp : frame.parent with
      | none => rfl
      | some p => exact if_pos (hlt p hp)

theorem owner_of_binds (h : st.binds f x = true) : st.owner f x = f := by
  rw [owner]
  unfold binds at h
  cases hframe : st.frames[f]? with
  | none => rfl
  | some frame =>
    rw [hframe] at h
    exact if_pos h

theorem owner_of_outermost (hp : st.parent f = none) : st.owner f x = f := by
  rw [owner]
  unfold parent at hp
  cases hframe : st.frames[f]? with
  | none => rfl
  | some frame =>
    rw [hframe] at hp
    have hparent : frame.parent = none := hp
    simp only [hparent, ite_self]

theorem owner_of_parent (hst : st.Ordered) (h : st.binds f x = false) (hp : st.parent f = some p) :
    st.owner f x = st.owner p x := by
  have hlt := hst f p hp
  rw [owner]
  unfold binds at h
  unfold parent at hp
  cases hframe : st.frames[f]? with
  | none =>
    rw [hframe] at hp
    cases hp
  | some frame =>
    rw [hframe] at h hp
    have hbinds : frame.binds x = false := h
    have hparent : frame.parent = some p := hp
    simp only [hbinds, hparent, Bool.false_eq_true, if_false]
    exact if_pos hlt

/-- The search ends at a frame that binds the symbol, or at an outermost one. -/
theorem binds_owner_or_outermost (hst : st.Ordered) (f : FrameId) (x : Symbol) :
    st.binds (st.owner f x) x = true ∨ st.parent (st.owner f x) = none := by
  induction f using hst.inward with
  | outermost f hp =>
    rw [owner_of_outermost hp]
    exact .inr hp
  | inner f p hp ih =>
    cases hb : st.binds f x with
    | true =>
      rw [owner_of_binds hb]
      exact .inl hb
    | false => rwa [owner_of_parent hst hb hp]

/-- A symbol is unbound exactly if no frame of the chain binds it. -/
theorem get?_eq_none_iff (hst : st.Ordered) (g : FrameId) (y : Symbol) :
    st.get? g y = none ↔ ∀ f ∈ st.chain g, st.binds f y = false := by
  induction g using hst.inward with
  | outermost g hp =>
    rw [get?_eq hst, hp, chain_of_outermost hp, List.forall_mem_singleton, binds_eq_isSome]
    simp
  | inner g p hp ih =>
    rw [get?_eq hst, hp, chain_of_parent hst hp, List.forall_mem_cons, ← ih, binds_eq_isSome]
    simp

/-- The owner of an unbound symbol is the outermost frame. -/
theorem hasRoot_owner (hst : st.Ordered) (hg : g ∈ st.existing)
    (h : ∀ f ∈ st.chain g, st.binds f y = false) : st.HasRoot g (st.owner g y) := by
  induction g using hst.inward with
  | outermost g hp =>
    rw [owner_of_outermost hp]
    exact .outermost hg hp
  | inner g p hp ih =>
    rw [chain_of_parent hst hp, List.forall_mem_cons] at h
    rw [owner_of_parent hst h.1 hp]
    have hlt : (p : Nat) < g := hst g p hp
    exact .inner hp (ih (hlt.trans hg) h.2)

/-- The search sees nothing but the chain. -/
theorem get?_congr (hst : st.Ordered) (hst' : st'.Ordered)
    (hparent : ∀ f ∈ st.chain g, st'.parent f = st.parent f)
    (hlocal : ∀ f ∈ st.chain g, (st'.bindings f).get? y = (st.bindings f).get? y) :
    st'.get? g y = st.get? g y := by
  induction g using hst.inward with
  | outermost g hp =>
    rw [chain_of_outermost hp, List.forall_mem_singleton] at hparent hlocal
    rw [get?_eq hst, get?_eq hst', hparent, hlocal, hp]
    rfl
  | inner g p hp ih =>
    rw [chain_of_parent hst hp, List.forall_mem_cons] at hparent hlocal
    rw [get?_eq hst, get?_eq hst', hparent.1, hlocal.1, hp]
    simp only [Option.bind_some]
    rw [ih hparent.2 hlocal.2]

/-! ## Exposed frames -/

/-- The frame `e` lies on the chain of `g`, and no frame before it binds the symbol. -/
def Exposed (st : Store) (x : Symbol) (g e : FrameId) : Prop :=
  e ∈ st.chain g ∧ ∀ f ∈ (st.chain g).takeWhile (· != e), st.binds f x = false

instance (st : Store) (x : Symbol) (g e : FrameId) : Decidable (st.Exposed x g e) :=
  inferInstanceAs (Decidable (_ ∧ _))

theorem exposed_of_outermost (hp : st.parent g = none) : st.Exposed x g e ↔ e = g := by
  unfold Exposed
  rw [chain_of_outermost hp, List.mem_singleton]
  constructor
  · exact And.left
  · rintro rfl
    simp

theorem exposed_self (hst : st.Ordered) (x : Symbol) (g : FrameId) : st.Exposed x g g := by
  cases hp : st.parent g with
  | none => exact (exposed_of_outermost hp).mpr rfl
  | some p =>
    unfold Exposed
    rw [chain_of_parent hst hp]
    simp

theorem exposed_of_parent (hst : st.Ordered) (hp : st.parent g = some p) (he : e ≠ g) :
    st.Exposed x g e ↔ st.binds g x = false ∧ st.Exposed x p e := by
  have hbefore : (g :: st.chain p).takeWhile (· != e) = g :: (st.chain p).takeWhile (· != e) :=
    List.takeWhile_cons_of_pos (bne_iff_ne.mpr he.symm)
  unfold Exposed
  rw [chain_of_parent hst hp, hbefore, List.mem_cons, List.forall_mem_cons]
  simp only [he, false_or]
  exact and_left_comm

/-- The frame where the search for a symbol ends is exposed. -/
theorem exposed_owner (hst : st.Ordered) (x : Symbol) (g : FrameId) : st.Exposed x g (st.owner g x) := by
  induction g using hst.inward with
  | outermost g hp =>
    rw [owner_of_outermost hp]
    exact exposed_self hst x g
  | inner g p hp ih =>
    cases hb : st.binds g x with
    | true =>
      rw [owner_of_binds hb]
      exact exposed_self hst x g
    | false =>
      rw [owner_of_parent hst hb hp]
      by_cases hself : st.owner p x = g
      · rw [hself]
        exact exposed_self hst x g
      · exact (exposed_of_parent hst hp hself).mpr ⟨hb, ih⟩

/-- The search for a symbol ends at an exposed frame if that frame binds it or is outermost. -/
theorem Exposed.owner_eq (hst : st.Ordered) (h : st.Exposed x g e)
    (he : st.binds e x = true ∨ st.parent e = none) : st.owner g x = e := by
  induction g using hst.inward with
  | outermost g hp =>
    rw [owner_of_outermost hp]
    exact ((exposed_of_outermost hp).mp h).symm
  | inner g p hp ih =>
    by_cases hself : e = g
    · subst hself
      rcases he with hb | hroot
      · exact owner_of_binds hb
      · exact owner_of_outermost hroot
    · rw [exposed_of_parent hst hp hself] at h
      rw [owner_of_parent hst h.1 hp]
      exact ih h.2

/-- An owner is exposed exactly to the frames that have it as their owner. -/
theorem exposed_owner_iff (hst : st.Ordered) :
    st.Exposed x g (st.owner e x) ↔ st.owner g x = st.owner e x := by
  constructor
  · intro h
    exact h.owner_eq hst (binds_owner_or_outermost hst e x)
  · intro h
    rw [← h]
    exact exposed_owner hst x g

/-! ## Writing -/

theorem parent_bind (st : Store) (e f : FrameId) (x : Symbol) (v : Value) :
    (st.bind e x v).parent f = st.parent f := by
  show ((st.frames.modify e _)[f]?).bind Frame.parent = _
  rw [Array.getElem?_modify]
  split_ifs
  · rw [Option.bind_map]
    rfl
  · rfl

theorem Ordered.bind (hst : st.Ordered) (e : FrameId) (x : Symbol) (v : Value) :
    (st.bind e x v).Ordered := by
  intro f p hp
  rw [parent_bind] at hp
  exact hst f p hp

theorem bindings_bind_of_ne (h : f ≠ e) : (st.bind e x v).bindings f = st.bindings f := by
  show (((st.frames.modify e _)[f]?).map Frame.bindings).getD [] = _
  rw [Array.getElem?_modify, if_neg h.symm]
  rfl

theorem bindings_bind_self (he : e ∈ st.existing) :
    (st.bind e x v).bindings e = (st.bindings e).insert x v := by
  show (((st.frames.modify e _)[e]?).map Frame.bindings).getD [] = _
  rw [Array.getElem?_modify, if_pos rfl, bindings, Array.getElem?_eq_getElem he]
  rfl

theorem get?_bindings_bind_of_ne (h : y ≠ x) :
    ((st.bind e x v).bindings f).get? y = (st.bindings f).get? y := by
  by_cases hfe : f = e
  · subst hfe
    by_cases hf : f ∈ st.existing
    · rw [bindings_bind_self hf, Bindings.get?_insert, if_neg h]
    · have hout : st.frames[f]? = none := Array.getElem?_eq_none (Nat.not_lt.mp hf)
      show Bindings.get? ((((st.frames.modify f _)[f]?).map Frame.bindings).getD []) y = _
      rw [Array.getElem?_modify, if_pos rfl, bindings, hout]
      rfl
  · rw [bindings_bind_of_ne hfe]

theorem get?_bind_self (hst : st.Ordered) (he : e ∈ st.existing) :
    (st.bind e x v).get? e x = some v := by
  rw [get?_eq (hst.bind e x v), bindings_bind_self he, Bindings.get?_insert, if_pos rfl]
  rfl

/-- **A binding as seen from every frame.** -/
theorem get?_bind (hst : st.Ordered) (he : e ∈ st.existing) (g : FrameId) (x y : Symbol) (v : Value) :
    (st.bind e x v).get? g y = if y = x ∧ st.Exposed x g e then some v else st.get? g y := by
  by_cases hyx : y = x
  · subst hyx
    simp only [true_and]
    induction g using hst.inward with
    | outermost g hp =>
      by_cases hself : e = g
      · rw [← hself, if_pos (exposed_self hst y e), get?_bind_self hst he]
      · rw [if_neg (fun h => hself ((exposed_of_outermost hp).mp h)), get?_eq (hst.bind e y v),
          parent_bind, bindings_bind_of_ne (Ne.symm hself), get?_eq hst, hp]
        rfl
    | inner g p hp ih =>
      by_cases hself : e = g
      · rw [← hself, if_pos (exposed_self hst y e), get?_bind_self hst he]
      · rw [get?_eq (hst.bind e y v), parent_bind, bindings_bind_of_ne (Ne.symm hself), get?_eq hst, hp]
        simp only [Option.bind_some, ih, exposed_of_parent hst hp hself, binds_eq_isSome]
        -- a binding in `g` itself hides all that the parent sees
        cases (st.bindings g).get? y <;> simp
  · rw [if_neg (fun h => hyx h.1)]
    exact get?_congr hst (hst.bind e x v) (fun f _ => parent_bind st e f x v)
      (fun f _ => get?_bindings_bind_of_ne hyx)

theorem extend_of_length_eq {params : List Symbol} {args : List Value}
    (h : params.length = args.length) :
    st.extend params args p =
      .ok (st.addFrame ⟨some p, Bindings.insertAll [] (params.zip args)⟩) := by
  rw [extend, Frame.ofArguments, if_pos h]
  rfl

/-- A new frame is not seen from the others. -/
theorem get?_addFrame (hg : g ∈ st.existing) (frame : Frame) (y : Symbol) :
    (st.addFrame frame).2.get? g y = st.get? g y := by
  induction g using Nat.strongRecOn with
  | ind g ih =>
  rw [get?, getElem?_addFrame_of_lt hg]
  conv_rhs => rw [get?]
  cases st.frames[g]? with
  | none => rfl
  | some found =>
    dsimp only
    cases found.get? y with
    | some w => rfl
    | none =>
      cases found.parent with
      | none => rfl
      | some p =>
        dsimp only
        split_ifs with hlt
        · exact ih p hlt (hlt.trans hg)
        · rfl

/-! ## Looking up -/

theorem lookup_eq_ok_iff : st.lookup g y = .ok w ↔ st.get? g y = some w := by
  unfold lookup
  cases st.get? g y <;> simp

theorem lookup_eq_error_iff :
    st.lookup g y = .error ⟨.unboundSymbol y.name, none⟩ ↔ st.get? g y = none := by
  unfold lookup
  cases st.get? g y <;> simp

theorem lookup_addFrame (hg : g ∈ st.existing) (frame : Frame) (y : Symbol) :
    (st.addFrame frame).2.lookup g y = st.lookup g y := by
  unfold lookup
  rw [get?_addFrame hg]

theorem lookup_eq_of_get?_eq {c : Prop} [Decidable c]
    (h : st'.get? g y = if c then some v else st.get? g y) :
    st'.lookup g y = if c then .ok v else st.lookup g y := by
  unfold lookup
  rw [h]
  split_ifs <;> rfl

end Store

namespace Session

/-- **Scoping.** Let `st` be the store after any operations on a fresh session, and `g` one of its frames.
A symbol has a value there exactly if its owner binds it to that value, and is unbound exactly if no frame
on the chain of `g` binds it; then its owner is the outermost frame. An assignment of `x` from a frame `e`
is seen from the frames with the same owner of `x`; a definition of `x` in `e` is seen if `e` lies on the
chain of `g` and no frame before it binds `x`. All else is found as before, and whatever is found from `g`
stays the same when a frame is made. -/
theorem write_seen_from_frame (level : Level) {ops : List Operation}
    (hallowed : (initial level).Allows ops) :
    let st := ((initial level).performAll ops).2.store
    ∀ g ∈ st.existing,
      (∀ y w, st.lookup g y = .ok w ↔ (st.bindings (st.owner g y)).get? y = some w) ∧
      (∀ y, st.lookup g y = .error ⟨.unboundSymbol y.name, none⟩ ↔
        ∀ f ∈ st.chain g, st.binds f y = false) ∧
      (∀ y, (∀ f ∈ st.chain g, st.binds f y = false) → st.HasRoot g (st.owner g y)) ∧
      (∀ e ∈ st.existing, ∀ x y v,
        ((st.bind (st.owner e x) x v).lookup g y =
          if y = x ∧ st.owner g x = st.owner e x then .ok v else st.lookup g y) ∧
        ((st.bind e x v).lookup g y =
          if y = x ∧ e ∈ st.chain g ∧
              ∀ f ∈ (st.chain g).takeWhile (· != e), st.binds f x = false
            then .ok v else st.lookup g y)) ∧
      (∀ params args, params.length = args.length → ∀ parent, ∃ f st',
        st.extend params args parent = .ok (f, st') ∧ ∀ y, st'.lookup g y = st.lookup g y) := by
  intro st g hg
  have hst : st.WellFormed := (performAll_keeps Store.wellFormed_initial hallowed).wellFormed
  have hord : st.Ordered := hst.parent_lt
  refine ⟨fun y w => ?_, fun y => ?_, fun y hy => Store.hasRoot_owner hord hg hy,
    fun e he x y v => ⟨?_, ?_⟩, fun params args hlength parent => ?_⟩
  · rw [Store.lookup_eq_ok_iff, (hst.search_owner hg y).2]
  · rw [Store.lookup_eq_error_iff, Store.get?_eq_none_iff hord]
  · have hget := Store.get?_bind hord (hst.closed.owner he x) g x y v
    simp only [Store.exposed_owner_iff hord] at hget
    exact Store.lookup_eq_of_get?_eq hget
  · exact Store.lookup_eq_of_get?_eq (Store.get?_bind hord he g x y v)
  · exact ⟨_, _, Store.extend_of_length_eq hlength, Store.lookup_addFrame hg _⟩

/-- An outermost frame, and a frame inside it. -/
def nestedFrames : List Operation :=
  [.newFrame none, .newFrame (some 1)]

/-- An unbound symbol is assigned in the outermost frame, and defined in the inner one. -/
theorem nestedFrames_write :
    let st := ((initial .off).performAll nestedFrames).2.store
    let x : Symbol := ⟨"COUNT"⟩
    (initial .off).Allows nestedFrames ∧
      (st.bind (st.owner 2 x) x .nil).lookup 1 x = .ok .nil ∧
      (st.bind 2 x .nil).lookup 1 x = .error ⟨.unboundSymbol "COUNT", none⟩ := by
  intro st x
  have hallowed : (initial .off).Allows nestedFrames := by
    refine ⟨?_, ?_, trivial⟩
    · rintro f ⟨⟩
    · rintro f ⟨⟩
      exact Nat.one_lt_two
  obtain ⟨-, hunbound, -, hwrite, -⟩ := write_seen_from_frame .off hallowed 1 (by decide : 1 < 3)
  obtain ⟨hassign, hdefine⟩ := hwrite 2 (by decide : 2 < 3) x x .nil
  have hchain : ((initial .off).performAll nestedFrames).2.store.chain 1 = [1] :=
    Store.chain_of_outermost rfl
  have howner : st.owner 1 x = st.owner 2 x := by
    have hst := (performAll_keeps Store.wellFormed_initial hallowed).wellFormed
    exact (Store.owner_of_parent hst.parent_lt rfl rfl).symm
  have hnone : st.lookup 1 x = .error ⟨.unboundSymbol "COUNT", none⟩ := by
    refine (hunbound x).mpr ?_
    rw [hchain, List.forall_mem_singleton]
    rfl
  refine ⟨hallowed, hassign.trans (if_pos ⟨rfl, howner⟩), (hdefine.trans (if_neg ?_)).trans hnone⟩
  rintro ⟨-, hmem, -⟩
  rw [hchain] at hmem
  simp at hmem

end Session

end SmallScheme
