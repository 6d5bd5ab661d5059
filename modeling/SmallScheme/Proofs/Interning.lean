import Mathlib.Data.Finset.Card
import Mathlib.Data.Finset.Dedup
import Mathlib.Logic.Function.Basic
import SmallScheme.Proofs.FrameHistory
import SmallScheme.Proofs.QuoteForms

/-!
# Symbols and their entries

`interning_is_canonical`: within one table, names denote the same entry exactly if they are equal in upper case.

1. A request finds the entry of its symbol or adds one at the end (`SymbolTable.enter_cases`). So after any requests
   no symbol is entered twice, and the entries handed out are still where they were
   (`Tables.Sound.serve`, `Tables.Sound.serveAll`).
2. Hence bindings that are kept by the identity of entries are those that are kept by names
   (`Keyed.Reflects`).
3. A symbol is read as its name in upper case, so a text may be written in capitals (`TokenStream.readData_folded`).
-/

namespace SmallScheme

/-! ## Requests -/

/-- A request for the symbol of a name, in one of several tables. -/
structure Request where
  table : Nat
  name : String

/-- The tables of a process. -/
abbrev Tables := Nat → SymbolTable

/-- The place that an entry takes up; two entries are identical if they are at one place. -/
def SymbolTable.Entry.place (e : SymbolTable.Entry) : Nat × Nat := (e.table, e.slot)

open SymbolTable (Entry)

namespace Tables

/-- Tables in which no symbol is entered; each has its number for a key. -/
def fresh : Tables := fun k => { key := k }

/-- Serves a request: the entry of the symbol, and the tables afterwards. -/
def serve (ts : Tables) (r : Request) : Entry × Tables :=
  let (e, t) := (ts r.table).intern r.name
  (e, Function.update ts r.table t)

/-- Serves requests one after the other, whoever they come from. -/
def serveAll (ts : Tables) : List Request → List Entry × Tables
  | [] => ([], ts)
  | r :: rs => ((ts.serve r).1 :: ((ts.serve r).2.serveAll rs).1, ((ts.serve r).2.serveAll rs).2)

end Tables

/-! ## One request -/

namespace SymbolTable

/-- A symbol that is in the table is found, and any other is added at the end. -/
theorem enter_cases (t : SymbolTable) (s : Symbol) :
    (∃ slot, t.symbols[slot]? = some s ∧ t.enter s = (⟨t.key, slot, s⟩, t)) ∨
      s ∉ t.symbols ∧
        t.enter s = (⟨t.key, t.symbols.size, s⟩, { t with symbols := t.symbols.push s }) := by
  unfold enter
  split
  · next slot hslot =>
    obtain ⟨hlt, heq, -⟩ := Array.findIdx?_eq_some_iff_getElem.mp hslot
    refine .inl ⟨slot, ?_, rfl⟩
    rw [Array.getElem?_eq_getElem hlt, eq_of_beq heq]
  · next hnone =>
    refine .inr ⟨?_, rfl⟩
    intro hmem
    have hne := Array.findIdx?_eq_none_iff.mp hnone s hmem
    rw [beq_self_eq_true] at hne
    cases hne

end SymbolTable

namespace Tables

variable {ts ts' : Tables} {r : Request}

/-- The entry is in its table. -/
def Holds (ts : Tables) (e : Entry) : Prop := (ts e.table).symbols[e.slot]? = some e.symbol

/-- Every table has its number for a key and holds no symbol twice. -/
structure Sound (ts : Tables) : Prop where
  key_eq : ∀ k, (ts k).key = k
  nodup : ∀ k, (ts k).symbols.toList.Nodup

theorem sound_fresh : fresh.Sound := ⟨fun _ => rfl, fun _ => List.nodup_nil⟩

/-- What a request does: the entry is of the table and the symbol that were asked for, it is held from now on like
those before it, and no other symbol is added. -/
structure Served (ts : Tables) (r : Request) (e : Entry) (ts' : Tables) : Prop where
  sound : ts'.Sound
  table_eq : e.table = r.table
  symbol_eq : e.symbol = .ofName r.name
  holds : ts'.Holds e
  keeps : ∀ e', ts.Holds e' → ts'.Holds e'
  mem_iff : ∀ k s, s ∈ (ts' k).symbols ↔ s ∈ (ts k).symbols ∨ r.table = k ∧ Symbol.ofName r.name = s

theorem Sound.update (h : ts.Sound) {k : Nat} {t : SymbolTable} (hkey : t.key = k)
    (hnodup : t.symbols.toList.Nodup) : Sound (Function.update ts k t) := by
  constructor
  · intro j
    by_cases hj : j = k
    · subst hj
      rw [Function.update_self, hkey]
    · rw [Function.update_of_ne hj, h.key_eq]
  · intro j
    by_cases hj : j = k
    · subst hj
      rw [Function.update_self]
      exact hnodup
    · rw [Function.update_of_ne hj]
      exact h.nodup j

/-- **One request.** -/
theorem Sound.serve (h : ts.Sound) (r : Request) : Served ts r (ts.serve r).1 (ts.serve r).2 := by
  have hkey := h.key_eq r.table
  have hserve : ts.serve r = (((ts r.table).enter (.ofName r.name)).1,
      Function.update ts r.table ((ts r.table).enter (.ofName r.name)).2) := rfl
  rw [hserve]
  rcases (ts r.table).enter_cases (.ofName r.name) with ⟨slot, hslot, henter⟩ | ⟨hnew, henter⟩
  · rw [henter]
    dsimp only
    rw [Function.update_eq_self, hkey]
    refine ⟨h, rfl, rfl, hslot, fun e' he' => he', fun k s => ⟨.inl, ?_⟩⟩
    rintro (hs | ⟨rfl, rfl⟩)
    · exact hs
    · exact Array.mem_of_getElem? hslot
  · rw [henter]
    dsimp only
    rw [hkey]
    refine ⟨h.update rfl ?_, rfl, rfl, ?_, fun e' he' => ?_, fun k s => ?_⟩
    · rw [Array.toList_push, List.nodup_append]
      refine ⟨h.nodup _, List.nodup_singleton _, ?_⟩
      rintro s hs t ht rfl
      rw [List.mem_singleton.mp ht, Array.mem_toList_iff] at hs
      exact hnew hs
    · unfold Holds
      rw [Function.update_self]
      exact Array.getElem?_push_size
    · unfold Holds at he' ⊢
      by_cases hk : e'.table = r.table
      · rw [hk] at he' ⊢
        rw [Function.update_self]
        have hlt := (Array.getElem?_eq_some_iff.mp he').1
        show ((ts r.table).symbols.push _)[e'.slot]? = _
        rw [Array.getElem?_push, if_neg hlt.ne, he']
      · rwa [Function.update_of_ne hk]
    · by_cases hk : k = r.table
      · subst hk
        rw [Function.update_self, Array.mem_push, eq_comm (a := s)]
        simp
      · rw [Function.update_of_ne hk]
        simp [Ne.symm hk]

/-! ## All requests -/

/-- What requests do, one after the other. -/
structure ServedAll (ts : Tables) (rs : List Request) (entries : List Entry) (ts' : Tables) : Prop where
  sound : ts'.Sound
  length_eq : entries.length = rs.length
  served : ∀ p ∈ rs.zip entries,
    p.2.table = p.1.table ∧ p.2.symbol = .ofName p.1.name ∧ ts'.Holds p.2
  keeps : ∀ e, ts.Holds e → ts'.Holds e
  mem_iff : ∀ k s, s ∈ (ts' k).symbols ↔
    s ∈ (ts k).symbols ∨ ∃ r ∈ rs, r.table = k ∧ Symbol.ofName r.name = s

/-- **All requests.** -/
theorem Sound.serveAll (h : ts.Sound) (rs : List Request) :
    ServedAll ts rs (ts.serveAll rs).1 (ts.serveAll rs).2 := by
  induction rs generalizing ts with
  | nil =>
    refine ⟨h, rfl, ?_, fun e he => he, ?_⟩
    · rintro p ⟨⟩
    · simp [Tables.serveAll]
  | cons r rs ih =>
    have hfirst := h.serve r
    have hothers := ih hfirst.sound
    refine ⟨hothers.sound, congrArg Nat.succ hothers.length_eq, ?_,
      fun e he => hothers.keeps e (hfirst.keeps e he), ?_⟩
    · intro p hp
      rcases List.mem_cons.mp hp with rfl | hp
      · exact ⟨hfirst.table_eq, hfirst.symbol_eq, hothers.keeps _ hfirst.holds⟩
      · exact hothers.served p hp
    · intro k s
      rw [Tables.serveAll, hothers.mem_iff, hfirst.mem_iff, or_assoc]
      simp only [List.mem_cons, exists_eq_or_imp]

theorem serveAll_append (ts : Tables) (rs later : List Request) :
    ts.serveAll (rs ++ later) = ((ts.serveAll rs).1 ++ ((ts.serveAll rs).2.serveAll later).1,
      ((ts.serveAll rs).2.serveAll later).2) := by
  induction rs generalizing ts with
  | nil => rfl
  | cons r rs ih =>
    simp only [List.cons_append, serveAll, ih]

/-- Entries that are held are identical exactly if they are of one table and one symbol. -/
theorem Sound.place_eq_iff (h : ts.Sound) {e e' : Entry} (he : ts.Holds e) (he' : ts.Holds e') :
    e.place = e'.place ↔ e.table = e'.table ∧ e.symbol = e'.symbol := by
  obtain ⟨k, slot, s⟩ := e
  obtain ⟨k', slot', s'⟩ := e'
  unfold Holds at he he'
  unfold Entry.place
  dsimp only at he he' ⊢
  rw [Prod.mk.injEq]
  constructor
  · rintro ⟨rfl, rfl⟩
    exact ⟨rfl, Option.some.inj (he.symm.trans he')⟩
  · rintro ⟨rfl, rfl⟩
    rw [← Array.getElem?_toList] at he he'
    obtain ⟨hlt, -⟩ := List.getElem?_eq_some_iff.mp he
    exact ⟨rfl, (List.getElem?_inj hlt (h.nodup k)).mp (he.trans he'.symm)⟩

/-- The names asked for in a table, in upper case. -/
def namesIn (rs : List Request) (k : Nat) : Finset String :=
  ((rs.filter (·.table == k)).map fun r => Text.upper r.name).toFinset

/-- A table has as many symbols as distinct names were asked for. -/
theorem size_serveAll (rs : List Request) (k : Nat) :
    ((fresh.serveAll rs).2 k).size = (namesIn rs k).card := by
  have hserved := sound_fresh.serveAll rs
  have hnodup : (((fresh.serveAll rs).2 k).symbols.toList.map Symbol.name).Nodup := by
    refine List.pairwise_map.mpr ((hserved.sound.nodup k).imp ?_)
    rintro ⟨name⟩ ⟨name'⟩ hne rfl
    exact hne rfl
  have hnames : (((fresh.serveAll rs).2 k).symbols.toList.map Symbol.name).toFinset = namesIn rs k := by
    ext name
    simp only [namesIn, List.mem_toFinset, List.mem_map, Array.mem_toList_iff, hserved.mem_iff,
      List.mem_filter, beq_iff_eq]
    constructor
    · rintro ⟨s, hs | ⟨r, hr, hk, rfl⟩, rfl⟩
      · simp [fresh] at hs
      · exact ⟨r, ⟨hr, hk⟩, rfl⟩
    · rintro ⟨r, ⟨hr, hk⟩, rfl⟩
      exact ⟨_, .inr ⟨r, hr, hk, rfl⟩, rfl⟩
  rw [← hnames, List.toFinset_card_of_nodup hnodup, List.length_map, Array.length_toList]
  rfl

end Tables

/-- What is known of the entries that requests gave, and of the tables after them. -/
structure Canonical (rs : List Request) (entries : List Entry) (ts : Tables) : Prop where
  answered : entries.length = rs.length
  table_eq : ∀ p ∈ rs.zip entries, p.2.table = p.1.table
  /-- Symbols are named as was asked, in upper case. -/
  named : ∀ p ∈ rs.zip entries, p.2.symbol.name = Text.upper p.1.name
  /-- Two of them are identical if they are of one table, and their names are equal in upper case. -/
  identical_iff : ∀ p ∈ rs.zip entries, ∀ q ∈ rs.zip entries,
    p.2.place = q.2.place ↔ p.1.table = q.1.table ∧ Text.upper p.1.name = Text.upper q.1.name
  size_eq : ∀ k, (ts k).size = (Tables.namesIn rs k).card

theorem canonical_serveAll (rs : List Request) :
    Canonical rs (Tables.fresh.serveAll rs).1 (Tables.fresh.serveAll rs).2 := by
  have hserved := Tables.sound_fresh.serveAll rs
  refine ⟨hserved.length_eq, fun p hp => (hserved.served p hp).1, ?_, ?_, Tables.size_serveAll rs⟩
  · intro p hp
    obtain ⟨-, hsymbol, -⟩ := hserved.served p hp
    rw [hsymbol]
    rfl
  · intro p hp q hq
    obtain ⟨htable, hsymbol, hholds⟩ := hserved.served p hp
    obtain ⟨htable', hsymbol', hholds'⟩ := hserved.served q hq
    rw [hserved.sound.place_eq_iff hholds hholds', htable, htable', hsymbol, hsymbol', Symbol.ofName,
      Symbol.ofName, Symbol.mk.injEq]

/-! ## Bindings by identity -/

/-- Bindings that are kept by the identity of their entries, in no order that matters. -/
abbrev Keyed := List (Entry × Value)

namespace Keyed

/-- Binds an entry, in place of what is bound to an identical one. -/
def bind (b : Keyed) (e : Entry) (v : Value) : Keyed :=
  (e, v) :: b.filter fun binding => binding.1.place != e.place

/-- Binds entries one after the other. -/
def bindAll (b : Keyed) (writes : List (Entry × Value)) : Keyed :=
  writes.foldl (fun b (e, v) => b.bind e v) b

/-- The bindings by identity, none of them twice under one name, are the bindings by name. -/
structure Reflects (keyed : Keyed) (b : Bindings) : Prop where
  nodup_names : (keyed.map fun binding => binding.1.symbol.name).Nodup
  mem_iff : ∀ s v, (∃ e, e.symbol = s ∧ (e, v) ∈ keyed) ↔ (s, v) ∈ b

theorem mem_bind {b : Keyed} {e : Entry} {v : Value} {binding : Entry × Value} :
    binding ∈ b.bind e v ↔ binding = (e, v) ∨ binding ∈ b ∧ binding.1.place ≠ e.place := by
  rw [bind, List.mem_cons, List.mem_filter, bne_iff_ne]

theorem mem_bindAll {b : Keyed} {writes : List (Entry × Value)} {binding : Entry × Value}
    (h : binding ∈ b.bindAll writes) : binding ∈ b ∨ binding ∈ writes := by
  induction writes generalizing b with
  | nil => exact .inl h
  | cons write writes ih =>
    rcases ih h with h | h
    · rcases mem_bind.mp h with rfl | ⟨h, -⟩
      · exact .inr List.mem_cons_self
      · exact .inl h
    · exact .inr (List.mem_cons_of_mem write h)

/-- To bind an entry by identity is to bind its symbol by name, where identity goes by the symbol. -/
theorem Reflects.bind {keyed : Keyed} {b : Bindings} (h : keyed.Reflects b) (hb : b.Ordered) {e : Entry}
    (he : ∀ binding ∈ keyed, binding.1.place = e.place ↔ binding.1.symbol = e.symbol) (v : Value) :
    (keyed.bind e v).Reflects (b.insert e.symbol v) := by
  constructor
  · rw [Keyed.bind, List.map_cons, List.nodup_cons]
    refine ⟨?_, h.nodup_names.sublist (List.filter_sublist.map _)⟩
    intro hmem
    obtain ⟨binding, hbinding, hname⟩ := List.mem_map.mp hmem
    obtain ⟨hbinding, hplace⟩ := List.mem_filter.mp hbinding
    have hsymbol : binding.1.symbol = e.symbol := congrArg Symbol.mk hname
    rw [bne_iff_ne, ne_eq, he binding hbinding] at hplace
    exact hplace hsymbol
  · intro s w
    have hinsert := Bindings.ordered_insert hb e.symbol v
    rw [← hinsert.get?_eq_some_iff, Bindings.get?_insert]
    by_cases hs : s = e.symbol
    · subst hs
      rw [if_pos rfl]
      constructor
      · rintro ⟨e', hsymbol, hmem⟩
        rcases mem_bind.mp hmem with heq | ⟨hmem, hplace⟩
        · cases heq
          rfl
        · exact absurd ((he _ hmem).mpr hsymbol) hplace
      · rintro ⟨⟩
        exact ⟨e, rfl, mem_bind.mpr (.inl rfl)⟩
    · rw [if_neg hs, hb.get?_eq_some_iff, ← h.mem_iff]
      constructor
      · rintro ⟨e', rfl, hmem⟩
        rcases mem_bind.mp hmem with heq | ⟨hmem, -⟩
        · cases heq
          exact absurd rfl hs
        · exact ⟨e', rfl, hmem⟩
      · rintro ⟨e', rfl, hmem⟩
        exact ⟨e', rfl, mem_bind.mpr (.inr ⟨hmem, mt (he _ hmem).mp hs⟩)⟩

/-- **Identity and name.** Among entries whose identity goes by the symbol, bindings by identity are bindings by
name. -/
theorem reflects_bindAll {writes : List (Entry × Value)}
    (h : ∀ w ∈ writes, ∀ w' ∈ writes, w.1.place = w'.1.place ↔ w.1.symbol = w'.1.symbol) :
    (bindAll [] writes).Reflects (Bindings.insertAll [] (writes.map fun w => (w.1.symbol, w.2))) := by
  induction writes using List.reverseRecOn with
  | nil => exact ⟨List.nodup_nil, fun s v => by simp [bindAll, Bindings.insertAll]⟩
  | append_singleton writes write ih =>
    have hlast : write ∈ writes ++ [write] := by simp
    have hwrites := ih fun w hw w' hw' =>
      h w (List.mem_append_left _ hw) w' (List.mem_append_left _ hw')
    rw [bindAll, List.foldl_append, List.map_append, Bindings.insertAll_append]
    refine hwrites.bind (Bindings.ordered_insertAll List.Pairwise.nil _) ?_ write.2
    intro binding hbinding
    have hmem : binding ∈ writes := (mem_bindAll hbinding).resolve_left List.not_mem_nil
    exact h binding (List.mem_append_left _ hmem) write hlast

end Keyed

/-! ## Reading -/

/-- The lexeme with a symbol in upper case. -/
def Lexeme.folded : Lexeme → Lexeme
  | symbol name => symbol (Text.upper name)
  | l => l

/-- The token with a symbol in upper case. -/
def Token.folded (t : Token) : Token := ⟨t.lexeme.folded, t.span⟩

theorem Symbol.ofName_upper (name : String) : ofName (Text.upper name) = ofName name :=
  congrArg Symbol.mk (Text.upper_upper name)

theorem Reading.next_folded (contexts : List Context) (t : Token) :
    next contexts t.folded = next contexts t := by
  obtain ⟨lexeme, span⟩ := t
  cases lexeme with
  | symbol name =>
    show next contexts ⟨.symbol (Text.upper name), span⟩ = _
    rw [next_symbol, next_symbol, Symbol.ofName_upper]
  | _ => rfl

namespace TokenStream

theorem readFrom_folded (stop : Position) (contexts : List Context) (tokens : List Token) :
    readFrom stop contexts (tokens.map Token.folded) =
      ((readFrom stop contexts tokens).1, (readFrom stop contexts tokens).2.map Token.folded) := by
  induction tokens generalizing contexts with
  | nil => rfl
  | cons t tokens ih =>
    rw [List.map_cons, readFrom, readFrom, Reading.next_folded]
    cases Reading.next contexts t with
    | pending contexts' => exact ih contexts'
    | complete d => rfl
    | failed e => rfl

/-- **Reading in capitals.** All symbols may be written in upper case. -/
theorem readData_folded (tokens : List Token) (stop : Position) :
    readData ⟨tokens.map Token.folded, stop⟩ = readData ⟨tokens, stop⟩ := by
  induction hn : tokens.length using Nat.strongRecOn generalizing tokens with
  | ind n ih =>
  rw [readData_eq, readData_eq ⟨tokens, stop⟩]
  simp only [readFrom_folded]
  rcases hr : readFrom stop [] tokens with ⟨d | _ | e, rest⟩
  · simp only [ih _ (hn ▸ length_readFrom hr) rest rfl]
  · rfl
  · rfl

end TokenStream

open TokenStream

theorem readLexemes_folded (ls : List Lexeme) : readLexemes (ls.map Lexeme.folded) = readLexemes ls := by
  have htokens : (ls.map Lexeme.folded).map Lexeme.unplaced =
      (ls.map Lexeme.unplaced).map Token.folded := by
    rw [List.map_map, List.map_map]
    rfl
  rw [readLexemes, htokens, readData_folded]
  rfl

/-- Texts whose symbols are equal in upper case read alike. -/
theorem readAll_of_folded_eq {text text' : String}
    (h : (lexemes (ofString text).tokens).map Lexeme.folded =
      (lexemes (ofString text').tokens).map Lexeme.folded) :
    (readAll text).mapError Error.fault = (readAll text').mapError Error.fault := by
  have hread (text : String) : (readAll text).mapError Error.fault =
      readLexemes ((lexemes (ofString text).tokens).map Lexeme.folded) :=
    (readData_fault (ofString text)).trans (readLexemes_folded _).symm
  rw [hread, hread, h]

/-! ## Canonical symbols -/

/-- An entry that was given stays in its table, whatever is asked for later. -/
theorem Tables.holds_of_mem {rs : List Request} {e : Entry} (h : e ∈ (fresh.serveAll rs).1)
    (later : List Request) : (fresh.serveAll (rs ++ later)).2.Holds e := by
  have hserved := sound_fresh.serveAll rs
  rw [← List.map_snd_zip hserved.length_eq.le] at h
  obtain ⟨p, hp, rfl⟩ := List.mem_map.mp h
  rw [serveAll_append]
  exact (hserved.sound.serveAll later).keeps _ (hserved.served p hp).2.2

/-- Frames keyed by identity are frames keyed by name, if all symbols come from one table. -/
theorem Keyed.reflects_of_history {rs : List Request} {k : Nat} {writes : List (Entry × Value)}
    (h : ∀ w ∈ writes, w.1 ∈ (Tables.fresh.serveAll rs).1 ∧ w.1.table = k) {st : Store} {f : FrameId}
    (hf : st.History f (writes.map fun w => (w.1.symbol, w.2))) :
    (bindAll [] writes).Reflects (st.bindings f) := by
  have hsound := (Tables.sound_fresh.serveAll rs).sound
  have hholds (w) (hw : w ∈ writes) : (Tables.fresh.serveAll rs).2.Holds w.1 := by
    have hlater := Tables.holds_of_mem (h w hw).1 []
    rwa [List.append_nil] at hlater
  rw [hf.bindings_eq]
  refine reflects_bindAll fun w hw w' hw' => ?_
  rw [hsound.place_eq_iff (hholds w hw) (hholds w' hw'), (h w hw).2, (h w' hw').2]
  exact and_iff_right rfl

/-- No frame of a program has two bindings of one name. -/
theorem Session.nodup_names (level : Level) (ops : List Operation) (f : FrameId) :
    ((((Session.initial level).performAll ops).2.store.bindings f).map (·.1.name)).Nodup := by
  by_cases hf : f ∈ ((Session.initial level).performAll ops).2.store.existing
  · obtain ⟨writes, hwrites⟩ := Session.performAll_chronicled Store.chronicled_initial ops f hf
    exact Bindings.Ordered.nodup_names hwrites.tabulates.ordered
  · have hnone : ((Session.initial level).performAll ops).2.store.frames[f]? = none :=
      Array.getElem?_eq_none (not_lt.mp hf)
    rw [Store.bindings, hnone]
    exact List.nodup_nil

/-- **Interning is canonical.** Let names be asked for in several tables, in whatever order. Each symbol has the
name asked for in upper case; two are identical exactly if they are of one table and their names are equal in upper
case; a table counts the distinct names so far; and whatever is asked for later, no symbol changes. So a frame
that goes by the identity of symbols holds what a frame holds that goes by names, and no frame ever has two
bindings of one name. Texts whose tokens differ only in how symbols are spelled, but not in upper case, are read
as the same data, which are equal values, or fail alike. -/
theorem interning_is_canonical :
    (∀ rs later : List Request,
      Canonical rs (Tables.fresh.serveAll rs).1 (Tables.fresh.serveAll rs).2 ∧
      (Tables.fresh.serveAll rs).1 <+: (Tables.fresh.serveAll (rs ++ later)).1 ∧
      ∀ e ∈ (Tables.fresh.serveAll rs).1, (Tables.fresh.serveAll (rs ++ later)).2.Holds e) ∧
    (∀ (rs : List Request) (k : Nat) (writes : List (Entry × Value)) (st : Store) (f : FrameId),
      (∀ w ∈ writes, w.1 ∈ (Tables.fresh.serveAll rs).1 ∧ w.1.table = k) →
      st.History f (writes.map fun w => (w.1.symbol, w.2)) →
      (Keyed.bindAll [] writes).Reflects (st.bindings f)) ∧
    (∀ level ops f,
      ((((Session.initial level).performAll ops).2.store.bindings f).map (·.1.name)).Nodup) ∧
    ∀ text text' : String,
      (lexemes (ofString text).tokens).map Lexeme.folded =
        (lexemes (ofString text').tokens).map Lexeme.folded →
      (readAll text).mapError Error.fault = (readAll text').mapError Error.fault ∧
      ∀ ds, readAll text = .ok ds → readAll text' = .ok ds ∧
        ∀ d ∈ ds, ∀ next, (d.embed (d.embed next).2).1.equal (d.embed next).1 = true := by
  refine ⟨fun rs later => ⟨canonical_serveAll rs, ?_, fun e he => Tables.holds_of_mem he later⟩,
    fun rs k writes st f h hf => Keyed.reflects_of_history h hf, Session.nodup_names, ?_⟩
  · rw [Tables.serveAll_append]
    exact List.prefix_append _ _
  · intro text text' h
    have hread := readAll_of_folded_eq h
    refine ⟨hread, fun ds hds => ⟨?_, fun d hd next => ?_⟩⟩
    · rw [hds] at hread
      cases htext' : readAll text' with
      | ok ds' =>
        rw [htext'] at hread
        exact congrArg Except.ok (Except.ok.inj hread).symm
      | error e =>
        rw [htext'] at hread
        cases hread
    · rw [Datum.equal_embed]
      exact Datum.same_self (delivers_of_readData hds d hd).readable.atoms

/-- One name in two spellings and two tables; it gets longer in upper case. -/
def sharpS : List Request := [⟨0, "straße"⟩, ⟨1, "straße"⟩, ⟨0, "Strasse"⟩]

/-- The two entries of the first table are identical, so a frame in which both are bound has one binding. -/
theorem sharpS_is_canonical :
    ∃ e e' e'', (Tables.fresh.serveAll sharpS).1 = [e, e', e''] ∧ e.symbol.name = "STRASSE" ∧
      e.place = e''.place ∧ e.place ≠ e'.place ∧
      ((Tables.fresh.serveAll sharpS).2 0).size = 1 ∧
      (∃ st, Store.initial.extend [e.symbol, e''.symbol] [.nil, .boolean true] 0 = .ok (1, st) ∧
        (Keyed.bindAll [] [(e, .nil), (e'', .boolean true)]).Reflects (st.bindings 1)) ∧
      readAll "'Strasse" = .ok [(Datum.symbol ⟨"STRASSE"⟩).quote] := by
  have hupper : Text.upper "straße" = "STRASSE" := by decide +kernel
  have hupper' : Text.upper "Strasse" = "STRASSE" := by decide +kernel
  obtain ⟨hserved, hframes, -, hread⟩ := interning_is_canonical
  have hcanonical := (hserved sharpS []).1
  obtain ⟨e, e', e'', hentries⟩ := List.length_eq_three.mp hcanonical.answered
  rw [hentries] at hcanonical
  have he : (⟨0, "straße"⟩, e) ∈ sharpS.zip [e, e', e''] := by simp [sharpS]
  have he' : (⟨1, "straße"⟩, e') ∈ sharpS.zip [e, e', e''] := by simp [sharpS]
  have he'' : (⟨0, "Strasse"⟩, e'') ∈ sharpS.zip [e, e', e''] := by simp [sharpS]
  refine ⟨e, e', e'', hentries, (hcanonical.named _ he).trans hupper, ?_, ?_, ?_, ?_, ?_⟩
  · exact (hcanonical.identical_iff _ he _ he'').mpr ⟨rfl, hupper.trans hupper'.symm⟩
  · intro hplace
    exact absurd ((hcanonical.identical_iff _ he _ he').mp hplace).1 Nat.zero_ne_one
  · rw [hcanonical.size_eq 0]
    simp [Tables.namesIn, sharpS, hupper, hupper']
  · obtain ⟨st, hst⟩ : ∃ st, Store.initial.extend [e.symbol, e''.symbol] [.nil, .boolean true] 0 =
        .ok (1, st) := ⟨_, rfl⟩
    refine ⟨st, hst, hframes sharpS 0 _ st 1 ?_ (.extend hst)⟩
    have htable : e.table = 0 := hcanonical.table_eq _ he
    have htable'' : e''.table = 0 := hcanonical.table_eq _ he''
    rw [hentries]
    simp [htable, htable'']
  · have hlexemes : lexemes (ofString "'straße").tokens = [.quote, .symbol "straße"] := by decide +kernel
    have hlexemes' : lexemes (ofString "'Strasse").tokens = [.quote, .symbol "Strasse"] := by
      decide +kernel
    have hquote : readAll "'straße" = .ok [(Datum.symbol ⟨"STRASSE"⟩).quote] := by
      refine readAll_of_derives ?_
      rw [← lexemes_ofString, hlexemes, ← hupper]
      exact (Derives.quote (.symbol "straße")).more .none
    refine ((hread "'straße" "'Strasse" ?_).2 _ hquote).1
    rw [hlexemes, hlexemes']
    simp [Lexeme.folded, hupper, hupper']

end SmallScheme
