/-
QueryGrammar/Proofs/Alternation.lean

Lists in which conditions and connectives alternate.

A body is written as one list.  A condition belongs at an even place of it and a connective at an
odd one (`Chain.Belongs`).  Either all entries are where they belong (`Chain.Alternates`) or there
is a first one that is not (`Chain.FirstMisplaced`), which is the one that stops the reading.  The
two kinds can then be told apart, and `Chain.interleave` puts them together again, whatever their
numbers.

Whether the numbers fit is another question, asked of the two lists (`Chain.ofParts`): a list that
alternates fails it exactly if it ends with a connective.

Main result: what is read as a body, what the body is made of, and what is said about everything
else (`Conditions.reads_alternating`).
-/
import QueryGrammar.Query.Basic

namespace QueryGrammar

namespace Chain

variable {α : Type}

/-! ### Items and connectives as one list -/

/-- Put items and connectives into one list by turns; those without a partner come last. -/
def interleave : List α → List Connective → List (Connective ⊕ α)
  | [], connectives => connectives.map .inl
  | item :: items, [] => .inr item :: items.map .inr
  | item :: items, connective :: connectives =>
    .inr item :: .inl connective :: interleave items connectives

/-- The items in a list, in order. -/
def itemsOf (mixed : List (Connective ⊕ α)) : List α := mixed.filterMap Sum.getRight?

/-- The connectives in a list, in order. -/
def connectivesOf (mixed : List (Connective ⊕ α)) : List Connective :=
  mixed.filterMap Sum.getLeft?

theorem itemsOf_map_inl (connectives : List Connective) :
    itemsOf (connectives.map .inl : List (Connective ⊕ α)) = [] := by
  induction connectives with
  | nil => rfl
  | cons c connectives ih => exact ih

theorem itemsOf_map_inr (items : List α) : itemsOf (items.map .inr) = items := by
  induction items with
  | nil => rfl
  | cons x items ih => exact congrArg (x :: ·) ih

theorem connectivesOf_map_inl (connectives : List Connective) :
    connectivesOf (connectives.map .inl : List (Connective ⊕ α)) = connectives := by
  induction connectives with
  | nil => rfl
  | cons c connectives ih => exact congrArg (c :: ·) ih

theorem connectivesOf_map_inr (items : List α) : connectivesOf (items.map .inr) = [] := by
  induction items with
  | nil => rfl
  | cons x items ih => exact ih

theorem itemsOf_interleave (items : List α) (connectives : List Connective) :
    itemsOf (interleave items connectives) = items := by
  fun_induction interleave items connectives with
  | case1 connectives => exact itemsOf_map_inl connectives
  | case2 item items => exact congrArg (item :: ·) (itemsOf_map_inr items)
  | case3 item items connective connectives ih => exact congrArg (item :: ·) ih

theorem connectivesOf_interleave (items : List α) (connectives : List Connective) :
    connectivesOf (interleave items connectives) = connectives := by
  fun_induction interleave items connectives with
  | case1 connectives => exact connectivesOf_map_inl connectives
  | case2 item items => exact connectivesOf_map_inr items
  | case3 item items connective connectives ih => exact congrArg (connective :: ·) ih

/-! ### Where entries belong -/

/-- The entry belongs at the place: an item at an even one, a connective at an odd one. -/
def Belongs (place : Nat) : Connective ⊕ α → Prop
  | .inr _ => place % 2 = 0
  | .inl _ => place % 2 = 1

/-- Every entry of the list is where it belongs, the first one being at the given place. -/
def Alternates (place : Nat) (mixed : List (Connective ⊕ α)) : Prop :=
  ∀ i entry, mixed[i]? = some entry → Belongs (place + i) entry

/-- The entry with the given index is the first one that is not where it belongs, the first entry
of the list being at the given place. -/
structure FirstMisplaced (place : Nat) (mixed : List (Connective ⊕ α)) (i : Nat) : Prop where
  misplaced : ∃ entry, mixed[i]? = some entry ∧ ¬ Belongs (place + i) entry
  before : ∀ j < i, ∀ entry, mixed[j]? = some entry → Belongs (place + j) entry

/-- What is wrong with an entry that does not belong at a place. -/
def misplacement (place : Nat) : ReadError :=
  if place % 2 = 0 then .expectedCondition place else .expectedConnective place

variable {place : Nat} {entry : Connective ⊕ α} {rest mixed : List (Connective ⊕ α)}

theorem alternates_nil : Alternates place ([] : List (Connective ⊕ α)) := by
  intro i entry h
  cases h

theorem alternates_cons :
    Alternates place (entry :: rest) ↔ Belongs place entry ∧ Alternates (place + 1) rest := by
  constructor
  · intro h
    refine ⟨h 0 entry rfl, fun i other hother => ?_⟩
    rw [Nat.add_right_comm]
    exact h (i + 1) other hother
  · rintro ⟨hentry, hrest⟩ i other hother
    rcases i with _ | i
    · obtain rfl : entry = other := Option.some.inj hother
      exact hentry
    · have hbelongs := hrest i other hother
      rwa [Nat.add_right_comm] at hbelongs

theorem firstMisplaced_cons_succ {i : Nat} : FirstMisplaced place (entry :: rest) (i + 1) ↔
    Belongs place entry ∧ FirstMisplaced (place + 1) rest i := by
  constructor
  · rintro ⟨⟨other, hother, hplace⟩, before⟩
    rw [← Nat.add_assoc, Nat.add_right_comm] at hplace
    refine ⟨before 0 (Nat.succ_pos i) entry rfl, ⟨other, hother, hplace⟩, fun j hj other hj' => ?_⟩
    rw [Nat.add_right_comm]
    exact before (j + 1) (Nat.succ_lt_succ hj) other hj'
  · rintro ⟨hentry, ⟨other, hother, hplace⟩, before⟩
    rw [Nat.add_right_comm] at hplace
    refine ⟨⟨other, hother, hplace⟩, fun j hj other hj' => ?_⟩
    rcases j with _ | j
    · obtain rfl : entry = other := Option.some.inj hj'
      exact hentry
    · have hbelongs := before j (Nat.lt_of_succ_lt_succ hj) other hj'
      rwa [Nat.add_right_comm] at hbelongs

theorem firstMisplaced_cons_zero :
    FirstMisplaced place (entry :: rest) 0 ↔ ¬ Belongs place entry := by
  constructor
  · rintro ⟨⟨other, hother, hplace⟩, -⟩
    obtain rfl : entry = other := Option.some.inj hother
    exact hplace
  · exact fun h => ⟨⟨entry, rfl, h⟩, fun j hj => absurd hj (Nat.not_lt_zero j)⟩

/-- If not all entries are where they belong, there is a first one that is not. -/
theorem alternates_or_firstMisplaced (place : Nat) (mixed : List (Connective ⊕ α)) :
    Alternates place mixed ∨ ∃ i, FirstMisplaced place mixed i := by
  induction mixed generalizing place with
  | nil => exact .inl alternates_nil
  | cons entry rest ih =>
    by_cases hentry : Belongs place entry
    · rcases ih (place + 1) with hrest | ⟨i, hi⟩
      · exact .inl (alternates_cons.mpr ⟨hentry, hrest⟩)
      · exact .inr ⟨i + 1, firstMisplaced_cons_succ.mpr ⟨hentry, hi⟩⟩
    · exact .inr ⟨0, firstMisplaced_cons_zero.mpr hentry⟩

theorem FirstMisplaced.not_alternates {i : Nat} (h : FirstMisplaced place mixed i) :
    ¬ Alternates place mixed := by
  obtain ⟨entry, hentry, hplace⟩ := h.misplaced
  exact fun alternates => hplace (alternates i entry hentry)

/-! ### Telling the two kinds apart -/

theorem separate_of_belongs (h : Belongs place entry) : separate place (entry :: rest) =
    (separate (place + 1) rest).map fun parts =>
      (entry.getRight?.toList ++ parts.1, entry.getLeft?.toList ++ parts.2) := by
  rcases entry with connective | item
  · have hodd : place % 2 = 1 := h
    rw [separate, if_pos hodd]
    rcases separate (place + 1) rest with e | ⟨items, connectives⟩ <;> rfl
  · have heven : place % 2 = 0 := h
    rw [separate, if_pos heven]
    rcases separate (place + 1) rest with e | ⟨items, connectives⟩ <;> rfl

theorem separate_of_not_belongs (h : ¬ Belongs place entry) :
    separate place (entry :: rest) = .error (misplacement place) := by
  rcases entry with connective | item
  · have hodd : ¬ place % 2 = 1 := h
    have heven : place % 2 = 0 := by omega
    rw [separate, if_neg hodd, misplacement, if_pos heven]
  · have hodd : ¬ place % 2 = 0 := h
    rw [separate, if_neg hodd, misplacement, if_neg hodd]

theorem separate_of_alternates (h : Alternates place mixed) :
    separate place mixed = .ok (itemsOf mixed, connectivesOf mixed) := by
  induction mixed generalizing place with
  | nil => rfl
  | cons entry rest ih =>
    obtain ⟨hentry, hrest⟩ := alternates_cons.mp h
    rw [separate_of_belongs hentry, ih hrest]
    cases entry <;> rfl

/-- The first entry that is not where it belongs stops the reading. -/
theorem separate_of_firstMisplaced {i : Nat} (h : FirstMisplaced place mixed i) :
    separate place mixed = .error (misplacement (place + i)) := by
  induction mixed generalizing place i with
  | nil =>
    obtain ⟨entry, hentry, -⟩ := h.misplaced
    cases hentry
  | cons entry rest ih =>
    rcases i with _ | i
    · exact separate_of_not_belongs (firstMisplaced_cons_zero.mp h)
    · obtain ⟨hentry, hrest⟩ := firstMisplaced_cons_succ.mp h
      rw [separate_of_belongs hentry, ih hrest, Nat.add_right_comm]
      rfl

/-! ### Lists that alternate -/

/-- From an even place on, every other entry is an item. -/
theorem length_parts_of_alternates (h : Alternates place mixed) :
    (itemsOf mixed).length = (mixed.length + 1 - place % 2) / 2 ∧
      (connectivesOf mixed).length = (mixed.length + place % 2) / 2 := by
  induction mixed generalizing place with
  | nil =>
    have hitems : (1 - place % 2) / 2 = 0 := by omega
    have hconnectives : place % 2 / 2 = 0 := by omega
    simp [itemsOf, connectivesOf, hitems, hconnectives]
  | cons entry rest ih =>
    obtain ⟨hentry, hrest⟩ := alternates_cons.mp h
    obtain ⟨hitems, hconnectives⟩ := ih hrest
    rcases entry with connective | item
    · have hodd : place % 2 = 1 := hentry
      have hconnective : connectivesOf (.inl connective :: rest) =
          connective :: connectivesOf rest := rfl
      have hitem : itemsOf (.inl connective :: rest) = itemsOf rest := rfl
      rw [hitem, hconnective, List.length_cons, List.length_cons, hitems, hconnectives]
      omega
    · have heven : place % 2 = 0 := hentry
      have hconnective : connectivesOf (.inr item :: rest) = connectivesOf rest := rfl
      have hitem : itemsOf (.inr item :: rest) = item :: itemsOf rest := rfl
      rw [hitem, hconnective, List.length_cons, List.length_cons, hitems, hconnectives]
      omega

/-- A list that alternates is put together again from its two kinds of entries. -/
theorem interleave_of_alternates {place : Nat} (even : place % 2 = 0) :
    (mixed : List (Connective ⊕ α)) → Alternates place mixed →
      interleave (itemsOf mixed) (connectivesOf mixed) = mixed
  | [], _ => rfl
  | [.inr item], _ => rfl
  | .inl connective :: rest, h => by
    have hodd : place % 2 = 1 := (alternates_cons.mp h).1
    omega
  | .inr item :: .inr item' :: rest, h => by
    have heven : (place + 1) % 2 = 0 := (alternates_cons.mp (alternates_cons.mp h).2).1
    omega
  | .inr item :: .inl connective :: rest, h => by
    have hrest : Alternates (place + 1 + 1) rest := (alternates_cons.mp (alternates_cons.mp h).2).2
    have hsame := interleave_of_alternates (by omega) rest hrest
    show .inr item :: .inl connective :: interleave (itemsOf rest) (connectivesOf rest) = _
    rw [hsame]

/-- With as many connectives as there are gaps between items, the two kinds alternate. -/
theorem alternates_interleave {items : List α} {connectives : List Connective}
    (length : connectives.length + 1 = items.length) (even : place % 2 = 0) :
    Alternates place (interleave items connectives) := by
  fun_induction interleave items connectives generalizing place with
  | case1 connectives => simp at length
  | case2 item items =>
    obtain rfl : items = [] := by simpa using length
    exact alternates_cons.mpr ⟨even, alternates_nil⟩
  | case3 item items connective connectives ih =>
    have hodd : (place + 1) % 2 = 1 := by omega
    refine alternates_cons.mpr ⟨even, alternates_cons.mpr ⟨hodd, ih ?_ (by omega)⟩⟩
    simpa using length

/-! ### Parts that fit -/

theorem join?_items (chain : Chain α) : join? chain.items chain.connectives = some chain := by
  induction chain with
  | last x => rfl
  | link x c rest ih => rw [items, connectives, join?, ih, Option.map_some]

/-- There is a chain of the given parts exactly if their numbers fit. -/
theorem exists_parts_iff {items : List α} {connectives : List Connective} :
    (∃ chain : Chain α, chain.items = items ∧ chain.connectives = connectives) ↔
      connectives.length + 1 = items.length := by
  constructor
  · rintro ⟨chain, rfl, rfl⟩
    exact chain.length_connectives
  · intro h
    induction connectives generalizing items with
    | nil =>
      obtain ⟨x, rfl⟩ := List.length_eq_one_iff.mp h.symm
      exact ⟨.last x, rfl, rfl⟩
    | cons c connectives ih =>
      rcases items with _ | ⟨x, items⟩
      · cases h
      · obtain ⟨rest, hitems, hconnectives⟩ := ih (Nat.succ.inj h)
        exact ⟨.link x c rest, by rw [Chain.items, hitems], by rw [Chain.connectives, hconnectives]⟩

theorem ofParts_items (chain : Chain α) :
    ofParts chain.items chain.connectives = .ok (some chain) := by
  rcases hitems : chain.items with _ | ⟨x, items⟩
  · cases chain <;> simp [Chain.items] at hitems
  · rw [ofParts, ← hitems, join?_items]

theorem parts_of_join? {items : List α} {connectives : List Connective} {chain : Chain α}
    (h : join? items connectives = some chain) :
    chain.items = items ∧ chain.connectives = connectives := by
  fun_induction join? items connectives generalizing chain with
  | case1 x =>
    obtain rfl : .last x = chain := Option.some.inj h
    exact ⟨rfl, rfl⟩
  | case2 x items c connectives ih =>
    obtain ⟨rest, hrest, rfl⟩ := Option.map_eq_some_iff.mp h
    obtain ⟨hitems, hconnectives⟩ := ih hrest
    exact ⟨congrArg (x :: ·) hitems, congrArg (c :: ·) hconnectives⟩
  | case3 => cases h

theorem ofParts_of_length_ne {items : List α} {connectives : List Connective}
    (nonempty : items ≠ []) (length : connectives.length + 1 ≠ items.length) :
    ofParts items connectives = .error (.unpairedConnectives items.length connectives.length) := by
  rcases items with _ | ⟨x, items⟩
  · exact absurd rfl nonempty
  · rcases hjoin : join? (x :: items) connectives with _ | chain
    · rw [ofParts, hjoin]
      rfl
    · exact absurd (exists_parts_iff.mp ⟨chain, parts_of_join? hjoin⟩) length

/-! ### Reading a list -/

theorem ofMixed_of_alternates (h : Alternates 0 mixed) :
    ofMixed mixed = ofParts (itemsOf mixed) (connectivesOf mixed) := by
  rw [ofMixed, separate_of_alternates h]
  rfl

theorem ofMixed_of_firstMisplaced {i : Nat} (h : FirstMisplaced 0 mixed i) :
    ofMixed mixed = .error (misplacement i) := by
  rw [ofMixed, separate_of_firstMisplaced h, Nat.zero_add]
  rfl

/-- A chain is read from the list of its items and connectives by turns. -/
theorem ofMixed_interleave (chain : Chain α) :
    ofMixed (interleave chain.items chain.connectives) = .ok (some chain) := by
  have halternates : Alternates 0 (interleave chain.items chain.connectives) :=
    alternates_interleave chain.length_connectives rfl
  rw [ofMixed_of_alternates halternates, itemsOf_interleave, connectivesOf_interleave,
    ofParts_items]

/-- What is wrong with a list that is no body: the first entry that is not where it belongs, or a
connective at the end. -/
inductive Misread (mixed : List (Connective ⊕ α)) : ReadError → Prop
  | condition {i : Nat} (first : FirstMisplaced 0 mixed i) (even : i % 2 = 0) :
      Misread mixed (.expectedCondition i)
  | connective {i : Nat} (first : FirstMisplaced 0 mixed i) (odd : i % 2 = 1) :
      Misread mixed (.expectedConnective i)
  | unpaired {k : Nat} (alternates : Alternates 0 mixed) (pos : 1 ≤ k)
      (length : mixed.length = 2 * k) : Misread mixed (.unpairedConnectives k k)

theorem FirstMisplaced.misread {i : Nat} (h : FirstMisplaced 0 mixed i) :
    Misread mixed (misplacement i) := by
  by_cases heven : i % 2 = 0
  · rw [misplacement, if_pos heven]
    exact .condition h heven
  · rw [misplacement, if_neg heven]
    exact .connective h (by omega)

/-- A list that alternates but ends with a connective has as many connectives as items. -/
theorem ofMixed_of_even {k : Nat} (alternates : Alternates 0 mixed) (pos : 1 ≤ k)
    (length : mixed.length = 2 * k) : ofMixed mixed = .error (.unpairedConnectives k k) := by
  obtain ⟨hitems, hconnectives⟩ := length_parts_of_alternates alternates
  have hitems' : (itemsOf mixed).length = k := by omega
  have hconnectives' : (connectivesOf mixed).length = k := by omega
  have hne : itemsOf mixed ≠ [] := List.length_pos_iff.mp (by omega)
  rw [ofMixed_of_alternates alternates, ofParts_of_length_ne hne (by omega), hitems', hconnectives']

theorem ofMixed_of_misread {e : ReadError} (h : Misread mixed e) : ofMixed mixed = .error e := by
  cases h with
  | condition first even => rw [ofMixed_of_firstMisplaced first, misplacement, if_pos even]
  | @connective i first odd =>
    have hodd : ¬ i % 2 = 0 := by omega
    rw [ofMixed_of_firstMisplaced first, misplacement, if_neg hodd]
  | unpaired alternates pos length => exact ofMixed_of_even alternates pos length

end Chain

namespace Conditions

open Chain

variable {mixed : List (Connective ⊕ Condition)} {body : Conditions}

/-- A body has the parts that it is built from, and is built from the parts that it has. -/
theorem ofParts_eq_ok_iff {cs : List Condition} {js : List Connective} :
    ofParts cs js = .ok body ↔ items body = cs ∧ connectives body = js := by
  constructor
  · intro h
    rcases cs with _ | ⟨c, cs⟩
    · rcases js with _ | ⟨j, js⟩
      · cases h
        exact ⟨rfl, rfl⟩
      · cases h
    · rcases hjoin : join? (c :: cs) js with _ | chain
      · rw [ofParts, hjoin] at h
        cases h
      · rw [ofParts, hjoin] at h
        cases h
        exact parts_of_join? hjoin
  · rintro ⟨rfl, rfl⟩
    rcases body with _ | chain
    · rfl
    · exact ofParts_items chain

/-- The numbers of parts that make a body. -/
theorem exists_ofParts_iff {cs : List Condition} {js : List Connective} :
    (∃ body, ofParts cs js = .ok body) ↔ cs = [] ∧ js = [] ∨ js.length + 1 = cs.length := by
  simp only [ofParts_eq_ok_iff]
  constructor
  · rintro ⟨_ | chain, hitems, hconnectives⟩
    · exact .inl ⟨hitems.symm, hconnectives.symm⟩
    · exact .inr (exists_parts_iff.mp ⟨chain, hitems, hconnectives⟩)
  · rintro (⟨rfl, rfl⟩ | hlength)
    · exact ⟨none, rfl, rfl⟩
    · obtain ⟨chain, hitems, hconnectives⟩ := exists_parts_iff.mpr hlength
      exact ⟨some chain, hitems, hconnectives⟩

/-- A list is a body exactly if it is empty, or of odd length with every entry where it belongs. -/
theorem exists_ofMixed_iff : (∃ body : Conditions, ofMixed mixed = .ok body) ↔
    mixed = [] ∨ mixed.length % 2 = 1 ∧ Alternates 0 mixed := by
  rcases alternates_or_firstMisplaced 0 mixed with halternates | ⟨i, hi⟩
  · obtain ⟨hitems, hconnectives⟩ := length_parts_of_alternates halternates
    rw [ofMixed_of_alternates halternates, exists_ofParts_iff, ← List.length_eq_zero_iff,
      ← List.length_eq_zero_iff, ← List.length_eq_zero_iff, and_iff_left halternates]
    omega
  · rw [ofMixed_of_firstMisplaced hi]
    constructor
    · rintro ⟨body, hbody⟩
      cases hbody
    · rintro (rfl | ⟨-, halternates⟩)
      · exact absurd alternates_nil hi.not_alternates
      · exact absurd halternates hi.not_alternates

/-- A body is written as the list that it is read from. -/
theorem interleave_of_ofMixed (h : ofMixed mixed = .ok body) :
    interleave (items body) (connectives body) = mixed := by
  rcases alternates_or_firstMisplaced 0 mixed with halternates | ⟨i, hi⟩
  · rw [ofMixed_of_alternates halternates] at h
    obtain ⟨hitems, hconnectives⟩ := ofParts_eq_ok_iff.mp h
    rw [hitems, hconnectives, interleave_of_alternates rfl mixed halternates]
  · rw [ofMixed_of_firstMisplaced hi] at h
    cases h

theorem ofMixed_interleave (body : Conditions) :
    ofMixed (interleave (items body) (connectives body)) = .ok body := by
  rcases body with _ | chain
  · rfl
  · exact Chain.ofMixed_interleave chain

/-- Whatever is no body is told why. -/
theorem ofMixed_eq_error_iff {e : ReadError} :
    (ofMixed mixed : Except ReadError Conditions) = .error e ↔ Misread mixed e := by
  refine ⟨fun h => ?_, ofMixed_of_misread⟩
  rcases alternates_or_firstMisplaced 0 mixed with halternates | ⟨i, hi⟩
  · -- if every entry is where it belongs, the list is empty, of odd length or of even length
    have hbody : ¬ ∃ body : Conditions, ofMixed mixed = .ok body := by
      rintro ⟨body, hbody⟩
      rw [h] at hbody
      cases hbody
    rw [exists_ofMixed_iff, and_iff_left halternates, ← List.length_eq_zero_iff] at hbody
    have hlength : mixed.length = 2 * (mixed.length / 2) := by omega
    have hpos : 1 ≤ mixed.length / 2 := by omega
    rw [ofMixed_of_even halternates hpos hlength] at h
    cases h
    exact .unpaired halternates hpos hlength
  · rw [ofMixed_of_firstMisplaced hi] at h
    cases h
    exact hi.misread

/-- **Bodies are the lists that alternate.**  A list of conditions and connectives is read exactly
if it is empty, or of odd length with conditions at all even places and connectives at all odd ones;
the body is then written as that list and has one connective less than it has conditions, or none of
either.  Anything else is reported by its first entry that is not where it belongs, or, if there is
none, by the numbers of its conditions and connectives, which are equal.  Conditions and connectives
make a body of just these parts exactly if their numbers fit, and it is what their list is read
as. -/
theorem reads_alternating :
    (∀ mixed : List (Connective ⊕ Condition),
      ((∃ body : Conditions, ofMixed mixed = .ok body) ↔
        mixed = [] ∨ mixed.length % 2 = 1 ∧ Alternates 0 mixed) ∧
      (∀ body : Conditions, ofMixed mixed = .ok body →
        interleave (items body) (connectives body) = mixed ∧
          (items body = [] ∧ connectives body = [] ∨
            (connectives body).length + 1 = (items body).length)) ∧
      ∀ e, (ofMixed mixed : Except ReadError Conditions) = .error e ↔ Misread mixed e) ∧
    (∀ i, (ReadError.expectedCondition i).message =
        "expected a condition at position " ++ toString i ∧
      (ReadError.expectedConnective i).message = "expected 'and'/'or' at position " ++ toString i) ∧
    (∀ k, (ReadError.unpairedConnectives k k).message = toString k ++ " conditions need " ++
      toString (k - 1) ++ " connectives, found " ++ toString k) ∧
    ∀ (cs : List Condition) (js : List Connective),
      ((∃ body : Conditions, ofParts cs js = .ok body) ↔
        cs = [] ∧ js = [] ∨ js.length + 1 = cs.length) ∧
      ∀ body : Conditions, ofParts cs js = .ok body → items body = cs ∧ connectives body = js ∧
        ofMixed (interleave cs js) = .ok body := by
  refine ⟨fun mixed => ⟨exists_ofMixed_iff, fun body h => ?_, fun e => ofMixed_eq_error_iff⟩,
    fun i => ⟨rfl, rfl⟩, fun k => rfl, fun cs js => ⟨exists_ofParts_iff, fun body h => ?_⟩⟩
  · refine ⟨interleave_of_ofMixed h, exists_ofParts_iff.mp ⟨body, ?_⟩⟩
    exact ofParts_eq_ok_iff.mpr ⟨rfl, rfl⟩
  · obtain ⟨rfl, rfl⟩ := ofParts_eq_ok_iff.mp h
    exact ⟨rfl, rfl, ofMixed_interleave body⟩

end Conditions

end QueryGrammar
