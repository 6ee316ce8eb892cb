/-
QueryGrammar/Proofs/Storing.lean

Storing literals one after the other.

The plain way to number literals is to scan the list from its start for an equal literal and to
add the literal at the end if there is none (`Literal.scan`).  A pool looks canonical literals up
in a map instead.  What makes the two agree is that the map holds the places of the entries of the
list, each under its canonical literal, and nothing else (`LiteralPool.Exact`): one insertion is
then one scan, and keeps this, so a run of insertions is a run of scans.

Literals are equal if they have the same value.  For numbers that is the number they stand for,
counted in units of `2⁻¹⁰⁷⁴` (`Binary64.toUnits`): larger ranks have larger magnitudes, so only the
two zeros are written differently and equal.

Main result: what a run of insertions into an empty pool gives, and that nothing of it changes
when more literals follow (`LiteralPool.insertAll_refines_scanAll`).
-/
import QueryGrammar.Proofs.Numbering

namespace QueryGrammar

/-! ### Equality of numbers -/

namespace Binary64

variable {x y : Binary64}

/-- The number, in units of `2⁻¹⁰⁷⁴`. -/
def toUnits (x : Binary64) : Int := if x.negative then -x.units else x.units

theorem binade_pos : 0 < binade := by decide

/-- How a rank is made up of the scale and the significand. -/
theorem rank_eq (x : Binary64) : x.rank = x.scale * binade + x.significand := by
  unfold scale significand
  split_ifs with h
  · simp [Nat.div_eq_of_lt h]
  · have hquotient : 1 ≤ x.rank / binade :=
      (Nat.one_le_div_iff binade_pos).mpr (Nat.le_of_not_lt h)
    have hrank : binade * (x.rank / binade) + x.rank % binade = x.rank := Nat.div_add_mod _ _
    obtain ⟨scale, hscale⟩ := Nat.exists_eq_add_of_le hquotient
    rw [hscale, Nat.mul_add, Nat.mul_one] at hrank
    rw [hscale, Nat.add_sub_cancel_left, Nat.mul_comm scale]
    omega

theorem significand_lt (x : Binary64) : x.significand < 2 * binade := by
  have hmod : x.rank % binade < binade := Nat.mod_lt _ binade_pos
  unfold significand
  split_ifs with h <;> omega

theorem binade_le_significand (h : 0 < x.scale) : binade ≤ x.significand := by
  unfold scale at h
  unfold significand
  split_ifs with hlt
  · rw [Nat.div_eq_of_lt hlt] at h
    omega
  · omega

/-- Larger ranks have larger magnitudes. -/
theorem units_lt_units (h : x.rank < y.rank) : x.units < y.units := by
  rw [x.rank_eq, y.rank_eq] at h
  have hx := x.significand_lt
  have hy := y.significand_lt
  show x.significand * 2 ^ x.scale < y.significand * 2 ^ y.scale
  rcases Nat.lt_trichotomy x.scale y.scale with hlt | heq | hgt
  · -- a larger scale has a magnitude of at least the next power of two
    have hbinade : binade ≤ y.significand := binade_le_significand (by omega)
    calc x.significand * 2 ^ x.scale
        < 2 * binade * 2 ^ x.scale := Nat.mul_lt_mul_of_pos_right hx (Nat.two_pow_pos _)
      _ = binade * 2 ^ (x.scale + 1) := by
        rw [Nat.pow_succ, Nat.mul_comm (2 ^ x.scale), ← Nat.mul_assoc, Nat.mul_comm binade]
      _ ≤ binade * 2 ^ y.scale := Nat.mul_le_mul_left _ (Nat.pow_le_pow_right (by omega) hlt)
      _ ≤ y.significand * 2 ^ y.scale := Nat.mul_le_mul_right _ hbinade
  · rw [heq] at h ⊢
    have hsignificand : x.significand < y.significand := by omega
    exact Nat.mul_lt_mul_of_pos_right hsignificand (Nat.two_pow_pos _)
  · -- a smaller scale has a smaller rank
    have hbinade : binade ≤ x.significand := binade_le_significand (by omega)
    have hscale : (y.scale + 1) * binade ≤ x.scale * binade := Nat.mul_le_mul_right _ hgt
    rw [Nat.add_mul, Nat.one_mul] at hscale
    omega

theorem units_eq_iff : x.units = y.units ↔ x.rank = y.rank := by
  constructor
  · intro h
    rcases Nat.lt_trichotomy x.rank y.rank with hlt | heq | hgt
    · exact absurd h (Nat.ne_of_lt (units_lt_units hlt))
    · exact heq
    · exact absurd h.symm (Nat.ne_of_lt (units_lt_units hgt))
  · intro h
    have hscale : x.scale = y.scale := by rw [scale, scale, h]
    have hsignificand : x.significand = y.significand := by rw [significand, significand, h]
    rw [units, units, hscale, hsignificand]

theorem units_eq_zero_iff : x.units = 0 ↔ x.rank = 0 :=
  units_eq_iff (y := zero)

/-- Numbers are equal exactly if they stand for the same number. -/
theorem same_iff_toUnits : x.same y ↔ x.toUnits = y.toUnits := by
  have hx := x.units_eq_zero_iff
  have hy := y.units_eq_zero_iff
  have hxy := units_eq_iff (x := x) (y := y)
  unfold same toUnits isZero
  rcases x.negative <;> rcases y.negative <;> simp <;> omega

/-- The two zeros are the only numbers that are written differently and equal. -/
theorem toUnits_eq_iff : x.toUnits = y.toUnits ↔ x = y ∨ x.isZero ∧ y.isZero := by
  rw [← same_iff_toUnits]
  rcases x with ⟨negative, rank, hrank⟩
  rcases y with ⟨negative', rank', hrank'⟩
  simp only [same, isZero, Bool.and_eq_true, Bool.or_eq_true, beq_iff_eq, mk.injEq]
  grind

end Binary64

namespace Literal

variable {k l : Literal}

/-- Literals are equal if they are the same, or numbers of one value. -/
theorem same_iff_eq_or_toUnits : k.same l ↔ k = l ∨ ∃ x y : Binary64,
    k = .number (.finite x) ∧ l = .number (.finite y) ∧ x.toUnits = y.toUnits := by
  constructor
  · intro h
    rcases k with s | (x | negative) | use <;> rcases l with s' | (y | negative') | use' <;>
      simp only [same, Extended64.same, Bool.false_eq_true, decide_eq_true_eq, beq_iff_eq] at h
    · exact .inl (congrArg text h)
    · exact .inr ⟨x, y, rfl, rfl, Binary64.same_iff_toUnits.mp h⟩
    · exact .inl (congrArg (number ∘ .infinite) h)
    · exact .inl (congrArg column h)
  · rintro (rfl | ⟨x, y, rfl, rfl, h⟩)
    · exact same_self k
    · exact Binary64.same_iff_toUnits.mpr h

/-! ### Scanning -/

/-- Scan a list for a literal, which is added at its end if no equal one is there. -/
def scan (values : List Literal) (l : Literal) : Nat × List Literal :=
  match values.findIdx? (·.same l) with
  | some place => (place, values)
  | none => (values.length, values ++ [l])

/-- The places of literals that a list is scanned for one after the other. -/
def scanAll (literals : List Literal) : StateM (List Literal) (List Nat) :=
  literals.mapM fun l values => scan values l

end Literal

/-! ### One insertion -/

/-- The entries of a list with one more at its end. -/
theorem getElem?_concat_eq_some_iff {α : Type} {xs : List α} {a b : α} {i : Nat} :
    (xs ++ [a])[i]? = some b ↔ xs[i]? = some b ∨ i = xs.length ∧ a = b := by
  rw [List.getElem?_append]
  split_ifs with h
  · exact ⟨.inl, fun hb => hb.resolve_right fun hlast => by omega⟩
  · have hnone : xs[i]? = none := List.getElem?_eq_none (Nat.le_of_not_lt h)
    rw [List.getElem?_singleton, hnone]
    grind

namespace LiteralPool

open Literal (scan scanAll store stored place)

/-- The map holds the places of the list, under the canonical literals of their entries, and
nothing else. -/
structure Exact (pool : LiteralPool) : Prop where
  lookup_iff : ∀ key i, pool.places.lookup key = some i ↔
    ∃ l, pool.toList[i]? = some l ∧ l.canonical = key

variable {pool : LiteralPool}

theorem exact_empty : Exact {} := ⟨fun key i => by simp [toList]⟩

/-- The place found is that of the first equal entry: there is no other. -/
theorem Exact.consistent (h : pool.Exact) : pool.Consistent := by
  constructor
  intro l
  rcases hplace : pool.toList.findIdx? (·.same l) with _ | i <;> rw [hplace]
  · rw [List.findIdx?_eq_none_iff] at hplace
    -- an entry under the canonical literal would be equal
    have hnone : ∀ i, pool.places.lookup l.canonical ≠ some i := by
      intro i hi
      obtain ⟨k, hk, hcanonical⟩ := (h.lookup_iff _ _).mp hi
      have hne : k.same l = false := hplace k (List.mem_of_getElem? hk)
      rw [Literal.same_iff.mpr hcanonical] at hne
      cases hne
    exact Option.eq_none_iff_forall_ne_some.mpr hnone
  · rw [List.findIdx?_eq_some_iff_getElem] at hplace
    obtain ⟨hlt, hsame, -⟩ := hplace
    exact (h.lookup_iff _ _).mpr ⟨_, List.getElem?_eq_getElem hlt, Literal.same_iff.mp hsame⟩

/-- A literal that was looked up in vain gets the place after the others. -/
theorem Exact.push {l : Literal} (h : pool.Exact)
    (hl : pool.places.lookup l.canonical = none) : (pool.push l).Exact := by
  constructor
  intro key i
  have hlength : pool.latest.length = pool.toList.length := by rw [toList, List.length_reverse]
  rw [toList_push, LiteralPool.push, List.lookup_cons, hlength]
  by_cases hkey : key = l.canonical
  · subst hkey
    rw [beq_self_eq_true]
    constructor
    · intro hi
      cases hi
      exact ⟨l, getElem?_concat_eq_some_iff.mpr (.inr ⟨rfl, rfl⟩), rfl⟩
    · rintro ⟨k, hk, hcanonical⟩
      rcases getElem?_concat_eq_some_iff.mp hk with hk | ⟨rfl, -⟩
      · -- no earlier entry is under this canonical literal
        have hfound := (h.lookup_iff _ _).mpr ⟨k, hk, hcanonical⟩
        rw [hl] at hfound
        cases hfound
      · rfl
  · rw [beq_false_of_ne hkey]
    show pool.places.lookup key = some i ↔ _
    rw [h.lookup_iff]
    constructor
    · rintro ⟨k, hk, hcanonical⟩
      exact ⟨k, getElem?_concat_eq_some_iff.mpr (.inl hk), hcanonical⟩
    · rintro ⟨k, hk, hcanonical⟩
      rcases getElem?_concat_eq_some_iff.mp hk with hk | ⟨-, rfl⟩
      · exact ⟨k, hk, hcanonical⟩
      · exact absurd hcanonical.symm hkey

theorem Exact.insert (h : pool.Exact) (l : Literal) : (pool.insert l).2.Exact := by
  rcases hl : pool.places.lookup l.canonical with _ | i
  · rw [insert_of_lookup_eq_none hl]
    exact h.push hl
  · rw [insert_of_lookup_eq_some hl]
    exact h

/-- One insertion is one scan of the list. -/
theorem Consistent.scan_toList (h : pool.Consistent) (l : Literal) :
    scan pool.toList l = ((pool.insert l).1, (pool.insert l).2.toList) := by
  rcases hl : pool.places.lookup l.canonical with _ | i
  · rw [scan, ← h.lookup, hl, insert_of_lookup_eq_none hl, toList_push]
  · rw [scan, ← h.lookup, hl, insert_of_lookup_eq_some hl]

/-! ### Runs of insertions -/

/-- The places of literals that are inserted one after the other. -/
def insertAll (literals : List Literal) : StateM LiteralPool (List Nat) :=
  literals.mapM fun l pool => pool.insert l

/-- A run of insertions is a run of scans, and the map stays that of the list. -/
theorem Exact.insertAll (h : pool.Exact) (literals : List Literal) :
    scanAll literals pool.toList =
        ((insertAll literals pool).1, (insertAll literals pool).2.toList) ∧
      (insertAll literals pool).2.Exact := by
  induction literals generalizing pool with
  | nil => exact ⟨rfl, h⟩
  | cons l literals ih =>
    obtain ⟨hscan, hexact⟩ := ih (h.insert l)
    have hstep := h.consistent.scan_toList l
    rw [scanAll, LiteralPool.insertAll, List.mapM_cons, List.mapM_cons]
    refine ⟨?_, hexact⟩
    show ((scan pool.toList l).1 :: (scanAll literals (scan pool.toList l).2).1,
      (scanAll literals (scan pool.toList l).2).2) = _
    rw [hstep, hscan]
    rfl

/-- Insertions store the literals in order, each at its place. -/
theorem numbers_insertAll (literals : List Literal) :
    Numbers (insertAll literals) literals fun place => literals.map place := by
  induction literals with
  | nil => exact Numbers.pure []
  | cons l literals ih =>
    rw [insertAll, List.mapM_cons]
    exact (Numbers.insert l).bind fun i => ih.map (i :: ·)

/-- What a run of insertions into an empty pool gives. -/
theorem insertAll_empty (literals : List Literal) :
    (insertAll literals {}).1 = literals.map (place (stored literals)) ∧
      (insertAll literals {}).2.toList = stored literals :=
  (numbers_insertAll literals).over_empty

end LiteralPool

open Literal (scanAll) in
/-- **Storing literals one after the other** in an empty pool.  The places and the list are those
of the scan, for which literals are equal if they have the same value, so that of all numbers only
the two zeros share a place.  The map holds the places of the entries of the list and nothing else,
and storing more literals changes neither the places given so far nor the entries.  Every place is
in the list and holds an equal literal, and two insertions give the same place exactly if their
literals are equal. -/
theorem LiteralPool.insertAll_refines_scanAll (literals : List Literal) :
    let run := insertAll literals {}
    scanAll literals [] = (run.1, run.2.toList) ∧
      (∀ k l : Literal, k.same l ↔ k = l ∨ ∃ x y : Binary64,
        k = .number (.finite x) ∧ l = .number (.finite y) ∧ x.toUnits = y.toUnits) ∧
      (∀ x y : Binary64, x.toUnits = y.toUnits ↔ x = y ∨ x.isZero ∧ y.isZero) ∧
      (∀ key i, run.2.places.lookup key = some i ↔
        ∃ l, run.2.toList[i]? = some l ∧ l.canonical = key) ∧
      (∀ more, run.1 <+: (insertAll (literals ++ more) {}).1 ∧
        run.2.toList <+: (insertAll (literals ++ more) {}).2.toList) ∧
      List.Forall₂ (fun i l => i < run.2.toList.length ∧
        ∃ k, run.2.toList[i]? = some k ∧ k.same l) run.1 literals ∧
      List.Forall₂ (fun i l => List.Forall₂ (fun j m => i = j ↔ l.same m) run.1 literals)
        run.1 literals := by
  intro run
  obtain ⟨hscan, hexact⟩ := exact_empty.insertAll literals
  obtain ⟨hplaces, hlist⟩ := insertAll_empty literals
  refine ⟨hscan, fun _ _ => Literal.same_iff_eq_or_toUnits, fun _ _ => Binary64.toUnits_eq_iff,
    hexact.lookup_iff, ?_, ?_, ?_⟩
  · intro more
    obtain ⟨hplaces', hlist'⟩ := insertAll_empty (literals ++ more)
    rw [hplaces, hlist, hplaces', hlist', List.map_append, Literal.map_place_append]
    exact ⟨List.prefix_append _ _, Literal.prefix_stored_append literals more⟩
  · rw [hplaces, hlist, List.forall₂_map_left_iff, List.forall₂_same]
    intro l hl
    have hany := Literal.any_stored hl
    exact ⟨Literal.place_lt_length_iff.mpr hany, Literal.getElem?_place hany⟩
  · rw [hplaces, List.forall₂_map_left_iff, List.forall₂_same]
    intro l hl
    rw [List.forall₂_map_left_iff, List.forall₂_same]
    intro m hm
    exact Literal.place_eq_iff (Literal.any_stored hl) (Literal.any_stored hm)

end QueryGrammar
