/-
QueryGrammar/Proofs/Numbering.lean

The places of literals.

A pool looks places up by canonical literals; `LiteralPool.Consistent` says that what it finds is
the place of the first equal literal of its list.  Under this invariant inserting a literal only
ever extends the list (`Literal.store`), and numbering a derivation stores its values in order and
puts at every leaf the place of its literal (`Root.number_eq`).

Hence the encoding of a derivation depends on its list of values alone: the literals are the
values without repetitions (`Literal.stored`), and the derivation that is written down holds their
places in that list (`Encoding.ofDerivation_eq`).
-/
import Mathlib.Data.List.Forall2
import QueryGrammar.Encoding
import QueryGrammar.Proofs.Parts

namespace QueryGrammar

/-! ### Equality of literals -/

/-- Numbers are equal exactly if their representatives are the same. -/
theorem Binary64.same_iff {x y : Binary64} :
    x.same y ↔ (if x.isZero then zero else x) = (if y.isZero then zero else y) := by
  rcases x with ⟨negative, rank, hrank⟩
  rcases y with ⟨negative', rank', hrank'⟩
  by_cases h : rank = 0 <;> by_cases h' : rank' = 0
  · simp [same, isZero, h, h']
  · simp [same, isZero, zero, h, h', Ne.symm h']
  · simp [same, isZero, zero, h, h']
  · simp [same, isZero, h, h', and_comm]

theorem Extended64.same_iff {x y : Extended64} : x.same y ↔ x.canonical = y.canonical := by
  rcases x with x | negative <;> rcases y with y | negative' <;>
    simp only [same, canonical, finite.injEq, infinite.injEq, beq_iff_eq, Binary64.same_iff,
      reduceCtorEq, Bool.false_eq_true]

namespace Literal

theorem same_iff {k l : Literal} : k.same l ↔ k.canonical = l.canonical := by
  rcases k with s | x | use <;> rcases l with s' | x' | use' <;>
    simp only [same, canonical, decide_eq_true_eq, text.injEq, column.injEq, number.injEq,
      Extended64.same_iff, reduceCtorEq, Bool.false_eq_true]

theorem same_self (l : Literal) : l.same l := same_iff.mpr rfl

theorem same_comm (k l : Literal) : k.same l = l.same k := by
  rw [Bool.eq_iff_iff, same_iff, same_iff, eq_comm]

theorem same_congr {k l : Literal} (h : k.same l) (m : Literal) : m.same k = m.same l := by
  rw [Bool.eq_iff_iff, same_iff, same_iff, same_iff.mp h]

/-! ### Storing -/

/-- Add a literal to a list that has no equal one. -/
def store (values : List Literal) (l : Literal) : List Literal :=
  if values.any (·.same l) then values else values ++ [l]

/-- The place of the first literal of a list that is equal to a literal. -/
def place (values : List Literal) (l : Literal) : Nat := values.findIdx (·.same l)

/-- Literals without repetitions, in the order of their first use. -/
def stored (literals : List Literal) : List Literal := literals.foldl store []

variable {values more literals : List Literal} {k l : Literal}

theorem prefix_store (values : List Literal) (l : Literal) : values <+: store values l := by
  unfold store
  split_ifs
  · exact List.prefix_refl _
  · exact List.prefix_append _ _

theorem prefix_foldl_store (values literals : List Literal) :
    values <+: literals.foldl store values := by
  induction literals generalizing values with
  | nil => exact List.prefix_refl _
  | cons l literals ih => exact (prefix_store values l).trans (ih _)

theorem any_store (values : List Literal) (l : Literal) : (store values l).any (·.same l) := by
  unfold store
  split_ifs with h
  · exact h
  · simp [same_self]

theorem place_lt_length_iff : place values l < values.length ↔ values.any (·.same l) := by
  rw [place, List.findIdx_lt_length, List.any_eq_true]

/-- Equal literals are found at one place. -/
theorem place_congr (h : k.same l) : place values k = place values l := by
  rw [place, place]
  simp only [same_congr h]

theorem any_congr (h : k.same l) : values.any (·.same k) = values.any (·.same l) := by
  simp only [same_congr h]

/-- The place of a stored literal holds a literal equal to it. -/
theorem getElem?_place (h : values.any (·.same l)) :
    ∃ k, values[place values l]? = some k ∧ k.same l := by
  have hlt : values.findIdx (·.same l) < values.length := place_lt_length_iff.mpr h
  exact ⟨_, List.getElem?_eq_getElem hlt, List.findIdx_getElem (w := hlt)⟩

/-- Stored literals are at one place exactly if they are equal. -/
theorem place_eq_iff (hk : values.any (·.same k)) (hl : values.any (·.same l)) :
    place values k = place values l ↔ k.same l := by
  constructor
  · intro h
    obtain ⟨m, hm, hmk⟩ := getElem?_place hk
    obtain ⟨m', hm', hml⟩ := getElem?_place hl
    rw [h, hm'] at hm
    cases hm
    rw [same_iff] at hmk hml ⊢
    rw [← hmk, hml]
  · exact place_congr

/-- Storing more literals moves none. -/
theorem place_of_prefix (h : values <+: more) (hl : values.any (·.same l)) :
    place more l = place values l :=
  (h.findIdx_eq_of_findIdx_lt_length (place_lt_length_iff.mpr hl))

theorem any_of_prefix (h : values <+: more) (hl : values.any (·.same l)) :
    more.any (·.same l) := by
  rw [List.any_eq_true] at hl ⊢
  obtain ⟨k, hk, hsame⟩ := hl
  exact ⟨k, h.subset hk, hsame⟩

theorem any_foldl_store (h : l ∈ literals) :
    (literals.foldl store values).any (·.same l) := by
  induction literals generalizing values with
  | nil => simp at h
  | cons k literals ih =>
    rcases List.mem_cons.mp h with rfl | h
    · rw [List.foldl_cons]
      exact any_of_prefix (prefix_foldl_store _ _) (any_store values l)
    · exact ih h

theorem any_stored (h : l ∈ literals) : (stored literals).any (·.same l) := any_foldl_store h

theorem prefix_stored_append (literals more : List Literal) :
    stored literals <+: stored (literals ++ more) := by
  rw [stored, stored, List.foldl_append]
  exact prefix_foldl_store _ _

/-- The places of literals stay where they are when more are stored. -/
theorem map_place_append (literals more : List Literal) :
    literals.map (place (stored (literals ++ more))) = literals.map (place (stored literals)) := by
  apply List.map_congr_left
  intro l hl
  exact place_of_prefix (prefix_stored_append literals more) (any_stored hl)

theorem stored_concat (literals : List Literal) (l : Literal) :
    stored (literals ++ [l]) = store (stored literals) l := by
  simp [stored]

end Literal

/-! ### The pool -/

namespace LiteralPool

open Literal (store place)

/-- The look-up finds the place of the first literal equal to a literal. -/
structure Consistent (pool : LiteralPool) : Prop where
  lookup : ∀ l : Literal, pool.places.lookup l.canonical = pool.toList.findIdx? (·.same l)

theorem consistent_empty : Consistent {} := ⟨fun _ => rfl⟩

variable {pool : LiteralPool}

/-- The pool with a literal that it looked up in vain. -/
def push (pool : LiteralPool) (l : Literal) : LiteralPool :=
  { latest := l :: pool.latest, places := (l.canonical, pool.latest.length) :: pool.places }

theorem toList_push (pool : LiteralPool) (l : Literal) :
    (pool.push l).toList = pool.toList ++ [l] := by
  simp [push, toList]

theorem insert_of_lookup_eq_none {l : Literal} (h : pool.places.lookup l.canonical = none) :
    pool.insert l = (pool.toList.length, pool.push l) := by
  simp [insert, h, push, toList]

theorem insert_of_lookup_eq_some {l : Literal} {i : Nat}
    (h : pool.places.lookup l.canonical = some i) : pool.insert l = (i, pool) := by
  simp [insert, h]

theorem Consistent.push {l : Literal} (h : pool.Consistent)
    (hl : ∀ k ∈ pool.toList, k.same l = false) : (pool.push l).Consistent := by
  constructor
  intro l'
  rw [toList_push, List.findIdx?_append, ← h.lookup, LiteralPool.push, List.lookup_cons]
  by_cases heq : l'.canonical = l.canonical
  · -- an equal literal would have been found before
    have hnone : pool.places.lookup l'.canonical = none := by
      rw [heq, h.lookup, List.findIdx?_eq_none_iff]
      exact hl
    have hsame : l.same l' := Literal.same_iff.mpr heq.symm
    rw [hnone]
    simp [heq, hsame, toList]
  · have hsame : l.same l' = false := by
      rw [Bool.eq_false_iff, ne_eq, Literal.same_iff]
      exact Ne.symm heq
    simp [hsame, beq_false_of_ne heq]

/-- Inserting a literal stores it, keeps the invariant, and gives its place. -/
theorem Consistent.insert (h : pool.Consistent) (l : Literal) :
    (pool.insert l).2.toList = store pool.toList l ∧ (pool.insert l).2.Consistent ∧
      (pool.insert l).1 = place (store pool.toList l) l := by
  rcases hl : pool.places.lookup l.canonical with _ | i
  · -- a literal that is not there gets the place at the end of the list
    rw [insert_of_lookup_eq_none hl]
    rw [h.lookup, List.findIdx?_eq_none_iff] at hl
    have hstore : store pool.toList l = pool.toList ++ [l] := by
      have hany : pool.toList.any (·.same l) = false := by simpa using hl
      simp [store, hany]
    rw [hstore]
    refine ⟨toList_push pool l, h.push hl, ?_⟩
    rw [place, List.findIdx_append, List.findIdx_eq_length.mpr hl]
    simp [Literal.same_self]
  · -- a literal that is there keeps its place, and so does everything else
    rw [insert_of_lookup_eq_some hl]
    rw [h.lookup, List.findIdx?_eq_some_iff_findIdx_eq] at hl
    obtain ⟨hlt, hplace⟩ := hl
    have hstore : store pool.toList l = pool.toList := by
      have hany : pool.toList.any (·.same l) := by
        rw [← Literal.place_lt_length_iff, place, hplace]
        exact hlt
      simp [store, hany]
    rw [hstore]
    exact ⟨rfl, h, hplace.symm⟩

end LiteralPool

/-! ### Numbering -/

section Numbering

open Literal (store place)

/-- Over every consistent pool, a computation stores the literals in order and gives what `result`
says of their places, which later literals do not change. -/
structure Numbers {α : Type} (x : StateM LiteralPool α) (literals : List Literal)
    (result : (Literal → Nat) → α) : Prop where
  toList {pool : LiteralPool} (h : pool.Consistent) :
    (x pool).2.toList = literals.foldl store pool.toList
  consistent {pool : LiteralPool} (h : pool.Consistent) : (x pool).2.Consistent
  numbered {pool : LiteralPool} (h : pool.Consistent) {values : List Literal}
    (later : (x pool).2.toList <+: values) : (x pool).1 = result (place values)

namespace Numbers

variable {α β : Type} {x : StateM LiteralPool α} {f : α → StateM LiteralPool β}
  {ls ls' : List Literal} {result : (Literal → Nat) → α} {result' : α → (Literal → Nat) → β}

theorem pure (a : α) : Numbers (pure a) [] fun _ => a where
  toList _ := rfl
  consistent h := h
  numbered _ _ _ := rfl

theorem insert (l : Literal) : Numbers (fun pool => pool.insert l) [l] fun place => place l where
  toList h := (h.insert l).1
  consistent h := (h.insert l).2.1
  numbered {pool} h values later := by
    obtain ⟨hlist, -, hplace⟩ := h.insert l
    rw [hlist] at later
    rw [hplace, Literal.place_of_prefix later (Literal.any_store pool.toList l)]

theorem bind (hx : Numbers x ls result) (hf : ∀ a, Numbers (f a) ls' (result' a)) :
    Numbers (x >>= f) (ls ++ ls') fun place => result' (result place) place where
  toList {pool} h := by
    show (f (x pool).1 (x pool).2).2.toList = _
    rw [(hf _).toList (hx.consistent h), hx.toList h, List.foldl_append]
  consistent h := (hf _).consistent (hx.consistent h)
  numbered {pool} h values later := by
    -- what the second part adds does not move what the first has stored
    have earlier : (x pool).2.toList <+: values := by
      refine List.IsPrefix.trans ?_ later
      show _ <+: (f (x pool).1 (x pool).2).2.toList
      rw [(hf _).toList (hx.consistent h)]
      exact Literal.prefix_foldl_store _ _
    show (f (x pool).1 (x pool).2).1 = _
    rw [(hf _).numbered (hx.consistent h) later, hx.numbered h earlier]

/-- A computation that only adds to the result of another. -/
theorem map (hx : Numbers x ls result) (g : α → β) :
    Numbers (x >>= fun a => Pure.pure (g a)) ls fun place => g (result place) := by
  simpa using hx.bind fun a => pure (g a)

/-- What a computation gives over an empty pool. -/
theorem over_empty (hx : Numbers x ls result) :
    (x {}).1 = result (place (Literal.stored ls)) ∧ (x {}).2.toList = Literal.stored ls := by
  have hlist : (x {}).2.toList = Literal.stored ls := hx.toList LiteralPool.consistent_empty
  exact ⟨hx.numbered LiteralPool.consistent_empty (hlist ▸ List.prefix_refl _), hlist⟩

end Numbers

-- a filter stores its literals in the order in which its tokens refer to them
mutual

theorem Root.numbers : (r : Root Literal) → Numbers r.number r.values fun place => r.map place
  | .superlativeFilter s k f => by
    simpa only [Root.number, Root.map, Root.values] using
      (Filter.numbers f).map (Root.superlativeFilter s k)
  | .filterOrder s f k => by
    simpa only [Root.number, Root.map, Root.values] using
      (Filter.numbers f).map fun f => Root.filterOrder s f k
  | .filter s f => by
    simpa only [Root.number, Root.map, Root.values] using (Filter.numbers f).map (Root.filter s)
  | .superlative .. | .order .. | .plain .. => by
    simpa only [Root.number, Root.map, Root.values] using Numbers.pure _

theorem Filter.numbers :
    (f : Filter Literal) → Numbers f.number f.values fun place => f.map place
  | .both f g => by
    simpa only [Filter.number, Filter.map, Filter.values] using
      (Filter.numbers f).bind fun f => (Filter.numbers g).map (Filter.both f)
  | .either f g => by
    simpa only [Filter.number, Filter.map, Filter.values] using
      (Filter.numbers f).bind fun f => (Filter.numbers g).map (Filter.either f)
  | .value test column l => by
    simpa only [Filter.number, Filter.map, Filter.values] using
      (Numbers.insert l).map (Filter.value test column)
  | .between column low high => by
    simpa only [Filter.number, Filter.map, Filter.values, List.singleton_append] using
      (Numbers.insert low).bind fun i => (Numbers.insert high).map (Filter.between column i)
  | .query test column r => by
    simpa only [Filter.number, Filter.map, Filter.values] using
      (Root.numbers r).map (Filter.query test column)
  | .memberOf negated column r => by
    simpa only [Filter.number, Filter.map, Filter.values] using
      (Root.numbers r).map (Filter.memberOf negated column)
  | .member negated column => by
    simpa only [Filter.number, Filter.map, Filter.values] using Numbers.pure _

end

theorem Derivation.numbers :
    (d : Derivation Literal) → Numbers d.number d.values fun place => d.map place
  | .single r => (Root.numbers r).map Derivation.single
  | .combined operation l r =>
    (Root.numbers l).bind fun l => (Root.numbers r).map (Derivation.combined operation l)

end Numbering

/-- What numbering a derivation over an empty pool gives: its values without repetitions, and the
derivation with the places of its values in that list. -/
theorem Derivation.number_empty (d : Derivation Literal) :
    (d.number {}).1 = d.map (Literal.place (Literal.stored d.values)) ∧
      (d.number {}).2.toList = Literal.stored d.values :=
  d.numbers.over_empty

/-- **The encoding of a derivation**: its values without repetitions, and the derivation with the
places of its values in that list. -/
theorem Encoding.ofDerivation_eq (d : Derivation Literal) :
    ofDerivation d =
      { tokens := (d.map (Literal.place (Literal.stored d.values))).tokens
        values := Literal.stored d.values } := by
  obtain ⟨hnumbered, hlist⟩ := d.number_empty
  rw [← hnumbered, ← hlist]
  rfl

end QueryGrammar
