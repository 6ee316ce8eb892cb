/-
QueryGrammar/Proofs/Alternatives.lean

What a value may be read as.

An operand is a query, a number, a text or a column, and an entry of a body is a connective or a
condition; what it is, is found out by trying to read it as each of them (`Json.firstOf`).  That is
a matter of order only where two of the readings succeed, and no two do: an array that is a query
begins with an array, the one that is a column begins with a number, and everything else is told by
its kind (`Operand.form?`, `Condition.form?`).

The flat parts are read exactly: what is read as a column, a term or a sort order is a layout of it
(`ColumnUse.ofJson_eq_ok_iff` and the like), so there is one layout of each column and each term.
Hence a value that was meant as a query (`Query.Meant`) and cannot be read as one is no column
either, and what contains it is not read.

Main result: `alternatives_exclusive`.
-/
import QueryGrammar.Proofs.Parsing

namespace QueryGrammar

open Json (element tuple)

/-! ### Reading exactly -/

namespace Json

variable {α β : Type} {v : Json} {x : α} {read : Json → Except ReadError α}

theorem boolean_eq_ok_iff {b : Bool} : v.boolean = .ok b ↔ v = .bool b := by
  cases v <;> simp [boolean]

theorem natBelow_eq_ok_iff {bound n : Nat} :
    v.natBelow bound = .ok n ↔ v = .ofNat n ∧ n < bound := by
  constructor
  · intro h
    unfold natBelow at h
    split at h
    · split_ifs at h with hlt
      cases h
      exact ⟨rfl, hlt⟩
    · cases h
    · cases h
  · rintro ⟨rfl, h⟩
    rw [natBelow_ofNat, if_pos h]

theorem optional_eq_ok_iff {o : Option α} (null : ∀ x, read .null ≠ .ok x) :
    v.optional read = .ok o ↔
      match o with
      | none => v = .null
      | some x => read v = .ok x := by
  unfold optional
  split
  · cases o with
    | none => simp
    | some x => simpa using null x
  · cases o with
    | none => simpa [map_eq_ok_iff] using ‹v ≠ .null›
    | some x => simp [map_eq_ok_iff]

theorem list_eq_ok_iff {xs : List α} : v.list read = .ok xs ↔
    ∃ items, v = .array items ∧ List.Forall₂ (fun item x => read item = .ok x) items xs := by
  constructor
  · intro h
    cases v with
    | array items => exact ⟨items, rfl, mapM_eq_ok_iff.mp h⟩
    | _ => cases h
  · rintro ⟨items, rfl, h⟩
    exact mapM_eq_ok_iff.mpr h

/-- A name is a text, or the only key of an object. -/
def IsName (name : String) (v : Json) : Prop := v = .string name ∨ v = .object [(name, .null)]

section Names

variable {first second : String} (ne : first ≠ second) {isFirst : Bool}

include ne

theorem known_eq_ok_iff {name : String} : isFirstName.known first second name = .ok isFirst ↔
    name = if isFirst then first else second := by
  unfold isFirstName.known
  by_cases hfirst : name = first
  · rw [if_pos hfirst, hfirst]
    cases isFirst <;> simp [ne]
  · rw [if_neg hfirst]
    by_cases hsecond : name = second
    · rw [if_pos hsecond, hsecond]
      cases isFirst <;> simp [ne.symm]
    · rw [if_neg hsecond]
      cases isFirst <;> simp [hfirst, hsecond]

theorem isFirstName_eq_ok_iff :
    v.isFirstName first second = .ok isFirst ↔ v.IsName (if isFirst then first else second) := by
  unfold IsName
  cases v with
  | string name =>
    rw [isFirstName, known_eq_ok_iff ne]
    simp
  | object members =>
    match members with
    | [] => simp [isFirstName]
    | [(key, content)] =>
      rw [isFirstName, bind_eq_ok_iff]
      cases content <;> simp [known_eq_ok_iff ne, throw, throwThe, MonadExceptOf.throw]
    | _ :: _ :: _ => simp [isFirstName]
  | _ => simp [isFirstName]

end Names

/-- A choice between two things is read from the name of one of them. -/
theorem nameChoice_eq_ok_iff (name : α → String) (a b : α) {c : α} (ne : name a ≠ name b)
    (either : c = a ∨ c = b) :
    (v.isFirstName (name a) (name b) >>= fun isFirst => pure (if isFirst then a else b)) = .ok c ↔
      v.IsName (name c) := by
  rw [bind_eq_ok_iff]
  constructor
  · rintro ⟨isFirst, hread, h⟩
    cases h
    have hname := (isFirstName_eq_ok_iff ne).mp hread
    cases isFirst <;> exact hname
  · intro h
    rcases either with rfl | rfl
    · exact ⟨true, (isFirstName_eq_ok_iff ne).mpr h, rfl⟩
    · exact ⟨false, (isFirstName_eq_ok_iff ne).mpr h, rfl⟩

/-! A tuple is read from the left, so what is read determines it from the left. -/

theorem exists_array_of_tuple {elements : Elements α} (h : tuple elements v = .ok x) :
    ∃ items, v = .array items := by
  cases v with
  | array items => exact ⟨items, rfl⟩
  | _ => cases h

theorem tuple_element_eq_ok_iff {next : α → Elements β} {items : List Json} {y : β} :
    tuple (element read >>= next) (.array items) = .ok y ↔ ∃ first rest a,
      items = first :: rest ∧ read first = .ok a ∧ tuple (next a) (.array rest) = .ok y := by
  rcases items with - | ⟨first, rest⟩
  · rw [tuple_element_nil]
    constructor
    · rintro ⟨⟩
    · rintro ⟨first, rest, a, ⟨⟩, -, -⟩
  · rw [tuple_element, bind_eq_ok_iff]
    constructor
    · rintro ⟨a, ha, h⟩
      exact ⟨first, rest, a, rfl, ha, h⟩
    · rintro ⟨_, _, a, ⟨⟩, ha, h⟩
      exact ⟨a, ha, h⟩

theorem tuple_pure_eq_ok_iff {y : α} {items : List Json} :
    tuple (pure x) (.array items) = .ok y ↔ items = [] ∧ x = y := by
  rw [tuple_pure]
  cases items <;> simp

end Json

theorem Aggregate.ofJson_eq_ok_iff {v : Json} {aggregate : Aggregate} :
    Aggregate.ofJson v = .ok aggregate ↔ v = .ofNat aggregate.code := by
  constructor
  · intro h
    obtain ⟨code, hcode, haggregate⟩ := bind_eq_ok_iff.mp h
    obtain ⟨rfl, -⟩ := Json.natBelow_eq_ok_iff.mp hcode
    have hcode : all[code]? = some aggregate := by
      unfold ofCode at haggregate
      split at haggregate
      · cases haggregate
        assumption
      · cases haggregate
    match code, hcode with
    | 0, hcode | 1, hcode | 2, hcode | 3, hcode | 4, hcode | 5, hcode =>
      cases hcode
      rfl
  · rintro rfl
    exact ofJson_code aggregate

theorem ColumnUse.ofJson_eq_ok_iff {v : Json} {use : ColumnUse} :
    ColumnUse.ofJson v = .ok use ↔ v = use.toJson ∧ use.fitsWord := by
  constructor
  · intro h
    obtain ⟨items, rfl⟩ := Json.exists_array_of_tuple h
    obtain ⟨first, rest, aggregate, rfl, haggregate, h⟩ := Json.tuple_element_eq_ok_iff.mp h
    obtain ⟨second, rest, column, rfl, hcolumn, h⟩ := Json.tuple_element_eq_ok_iff.mp h
    obtain ⟨third, rest, distinct, rfl, hdistinct, h⟩ := Json.tuple_element_eq_ok_iff.mp h
    obtain ⟨rfl, rfl⟩ := Json.tuple_pure_eq_ok_iff.mp h
    obtain rfl := Aggregate.ofJson_eq_ok_iff.mp haggregate
    obtain ⟨rfl, hword⟩ := Json.natBelow_eq_ok_iff.mp hcolumn
    obtain rfl := Json.boolean_eq_ok_iff.mp hdistinct
    exact ⟨rfl, decide_eq_true hword⟩
  · rintro ⟨rfl, h⟩
    exact use.ofJson_toJson (of_decide_eq_true h)

namespace Term

/-- The right column of a term, or null if there is none. -/
theorem ofJson_right_eq_ok_iff {v : Json} {right : Option ColumnUse} :
    v.optional ColumnUse.ofJson = .ok right ↔
      v = (right.map ColumnUse.toJson).getD .null ∧ right.all ColumnUse.fitsWord := by
  rw [Json.optional_eq_ok_iff nofun]
  cases right with
  | none => simp
  | some use => simp [ColumnUse.ofJson_eq_ok_iff]

theorem ofJson_eq_ok_iff {v : Json} {term : Term} :
    Term.ofJson v = .ok term ↔ v = term.toJson ∧ term.fitsWords := by
  constructor
  · intro h
    obtain ⟨items, rfl⟩ := Json.exists_array_of_tuple h
    obtain ⟨first, rest, operator, rfl, hoperator, h⟩ := Json.tuple_element_eq_ok_iff.mp h
    obtain ⟨second, rest, left, rfl, hleft, h⟩ := Json.tuple_element_eq_ok_iff.mp h
    obtain ⟨third, rest, right, rfl, hright, h⟩ := Json.tuple_element_eq_ok_iff.mp h
    obtain ⟨rfl, rfl⟩ := Json.tuple_pure_eq_ok_iff.mp h
    obtain ⟨rfl, hbyte⟩ := Json.natBelow_eq_ok_iff.mp hoperator
    obtain ⟨rfl, hword⟩ := ColumnUse.ofJson_eq_ok_iff.mp hleft
    obtain ⟨rfl, hwords⟩ := ofJson_right_eq_ok_iff.mp hright
    refine ⟨rfl, ?_⟩
    simp only [fitsWords, Bool.and_eq_true, decide_eq_true_eq]
    exact ⟨⟨hbyte, hword⟩, hwords⟩
  · rintro ⟨rfl, h⟩
    exact ofJson_toJson h

theorem list_eq_ok_iff {v : Json} {terms : List Term} : v.list Term.ofJson = .ok terms ↔
    v = .array (terms.map toJson) ∧ ∀ term ∈ terms, term.fitsWords := by
  constructor
  · intro h
    obtain ⟨items, rfl, hitems⟩ := Json.list_eq_ok_iff.mp h
    clear h
    -- along the items and the terms that are read from them
    induction hitems with
    | nil => exact ⟨rfl, nofun⟩
    | cons hterm _ ih =>
      obtain ⟨rfl, hwords⟩ := ofJson_eq_ok_iff.mp hterm
      obtain ⟨hrest, hall⟩ := ih
      cases hrest
      exact ⟨rfl, List.forall_mem_cons.mpr ⟨hwords, hall⟩⟩
  · rintro ⟨rfl, h⟩
    exact Json.list_map fun term hterm => ofJson_toJson (h term hterm)

end Term

theorem Connective.ofJson_eq_ok_iff {v : Json} {connective : Connective} :
    Connective.ofJson v = .ok connective ↔ v.IsName connective.name :=
  Json.nameChoice_eq_ok_iff Connective.name .and .or (by decide) (by cases connective <;> simp)

theorem Direction.ofJson_eq_ok_iff {v : Json} {direction : Direction} :
    Direction.ofJson v = .ok direction ↔ v.IsName direction.name :=
  Json.nameChoice_eq_ok_iff Direction.name .ascending .descending (by decide)
    (by cases direction <;> simp)

namespace SortOrder

/-- The value is a layout of the sort order: a direction, and an array of terms. -/
def Layout (order : SortOrder) (v : Json) : Prop :=
  ∃ direction : Json, direction.IsName order.direction.name ∧
    v = .array [direction, .array (order.keys.map Term.toJson)] ∧
    ∀ key ∈ order.keys, key.fitsWords

theorem ofJson_eq_ok_iff {v : Json} {order : SortOrder} :
    SortOrder.ofJson v = .ok order ↔ order.Layout v := by
  constructor
  · intro h
    obtain ⟨items, rfl⟩ := Json.exists_array_of_tuple h
    obtain ⟨first, rest, direction, rfl, hdirection, h⟩ := Json.tuple_element_eq_ok_iff.mp h
    obtain ⟨second, rest, keys, rfl, hkeys, h⟩ := Json.tuple_element_eq_ok_iff.mp h
    obtain ⟨rfl, rfl⟩ := Json.tuple_pure_eq_ok_iff.mp h
    obtain ⟨rfl, hwords⟩ := Term.list_eq_ok_iff.mp hkeys
    exact ⟨first, Direction.ofJson_eq_ok_iff.mp hdirection, rfl, hwords⟩
  · rintro ⟨first, hfirst, rfl, hwords⟩
    refine Json.tuple_element_eq_ok_iff.mpr
      ⟨first, _, order.direction, rfl, Direction.ofJson_eq_ok_iff.mpr hfirst, ?_⟩
    refine Json.tuple_element_eq_ok_iff.mpr
      ⟨_, [], order.keys, rfl, Term.list_eq_ok_iff.mpr ⟨rfl, hwords⟩, rfl⟩

end SortOrder

/-! ### Trying alternatives -/

namespace Json

variable {α ι : Type} {choice : String} {v : Json} {x : α}
variable {readings others : List (Json → Except ReadError α)}

/-- Read a value in the first way that succeeds; what was wrong with the others is forgotten. -/
def firstOf (choice : String) :
    List (Json → Except ReadError α) → Json → Except ReadError α
  | [], _ => .error (.noAlternative choice)
  | reading :: rest, v =>
    match reading v with
    | .ok x => .ok x
    | .error _ => firstOf choice rest v

/-- No value can be read in both ways. -/
def Excludes (reading other : Json → Except ReadError α) : Prop :=
  ∀ v x y, reading v = .ok x → other v ≠ .ok y

theorem Excludes.symm {reading other : Json → Except ReadError α} (h : Excludes reading other) :
    Excludes other reading := fun v x y hx hy => h v y x hy hx

/-- Readings that are told by the form of the value exclude each other. -/
theorem pairwise_excludes {forms : List ι} (distinct : forms.Nodup) {form? : Json → Option ι}
    {reading : ι → Json → Except ReadError α}
    (told : ∀ form v x, reading form v = .ok x → form? v = some form) :
    (forms.map reading).Pairwise Excludes := by
  refine List.pairwise_map.mpr (distinct.imp fun {form other} hne v x y hx hy => hne ?_)
  exact Option.some.inj ((told form v x hx).symm.trans (told other v y hy))

/-- Reading fails in every way, or it is the result of the first way that succeeds. -/
theorem firstOf_eq_error_iff {e : ReadError} : firstOf choice readings v = .error e ↔
    e = .noAlternative choice ∧ ∀ reading ∈ readings, ∀ x, reading v ≠ .ok x := by
  induction readings with
  | nil => simp [firstOf, eq_comm]
  | cons reading rest ih =>
    rw [firstOf]
    rcases hread : reading v with e' | x
    · simp [ih, hread]
    · simp [hread]

theorem exists_of_firstOf (h : firstOf choice readings v = .ok x) :
    ∃ reading ∈ readings, reading v = .ok x := by
  induction readings with
  | nil => cases h
  | cons reading rest ih =>
    rw [firstOf] at h
    rcases hread : reading v with e | y
    · rw [hread] at h
      obtain ⟨other, hmem, hother⟩ := ih h
      exact ⟨other, List.mem_cons_of_mem _ hmem, hother⟩
    · rw [hread] at h
      cases h
      exact ⟨reading, List.mem_cons_self, hread⟩

/-- If no value can be read in two ways, whatever way succeeds gives the result. -/
theorem firstOf_of_mem (exclusive : readings.Pairwise Excludes)
    {reading : Json → Except ReadError α} (mem : reading ∈ readings) (h : reading v = .ok x) :
    firstOf choice readings v = .ok x := by
  induction readings with
  | nil => cases mem
  | cons first rest ih =>
    obtain ⟨hfirst, hrest⟩ := List.pairwise_cons.mp exclusive
    rw [firstOf]
    rcases List.mem_cons.mp mem with rfl | mem
    · rw [h]
    · -- if the first one succeeded, this one could not
      rcases hv : first v with e | y
      · exact ih hrest mem
      · exact absurd h (hfirst reading mem v y x hv)

/-- The order in which exclusive ways are tried does not matter. -/
theorem firstOf_perm (exclusive : readings.Pairwise Excludes) (perm : readings.Perm others) :
    firstOf choice readings = firstOf choice others := by
  have exclusive' : others.Pairwise Excludes :=
    (perm.pairwise_iff fun h => Excludes.symm h).mp exclusive
  funext v
  rcases hfirst : firstOf choice readings v with e | x
  · obtain ⟨rfl, hfails⟩ := firstOf_eq_error_iff.mp hfirst
    refine (firstOf_eq_error_iff.mpr ⟨rfl, fun reading hmem => ?_⟩).symm
    exact hfails reading (perm.mem_iff.mpr hmem)
  · obtain ⟨reading, hmem, hread⟩ := exists_of_firstOf hfirst
    exact (firstOf_of_mem exclusive' (perm.mem_iff.mp hmem) hread).symm

end Json

/-! ### Operands -/

/-- A query is an object, or an array that begins with an array, its select list. -/
theorem Query.kind_of_ofJson {v : Json} {q : Query} (h : Query.ofJson v = .ok q) :
    (∃ members, v = .object members) ∨ ∃ items rest, v = .array (.array items :: rest) := by
  cases v with
  | object members => exact .inl ⟨members, rfl⟩
  | array items =>
    right
    rw [Query.ofJson] at h
    obtain ⟨clauses, hclauses, hquery⟩ := bind_eq_ok_iff.mp h
    rcases items with - | ⟨first, rest⟩
    · -- there is no select list
      rw [Query.clausesOfItems] at hclauses
      cases hclauses
      cases hquery
    · -- the first element is read as the select list, a pair
      rw [Query.Clauses.names, Query.clausesOfItems] at hclauses
      obtain ⟨_, hselect, -⟩ := bind_eq_ok_iff.mp hclauses
      obtain ⟨list, hlist, -⟩ := bind_eq_ok_iff.mp hselect
      obtain ⟨items, rfl⟩ := Json.exists_array_of_tuple hlist
      exact ⟨items, rest, rfl⟩
  | _ => simp [Query.ofJson] at h

namespace Operand

/-- What an operand can be. -/
inductive Form where
  | query
  | number
  | text
  | column
  deriving DecidableEq

/-- Read an operand of the form. -/
def Form.read : Form → Json → Except ReadError Operand
  | .query, v => Operand.query <$> Query.ofJson v
  | .number, v => Operand.number <$> v.real
  | .text, v => Operand.text <$> v.text
  | .column, v => Operand.column <$> ColumnUse.ofJson v

/-- The ways to read an operand, in the order in which they are tried. -/
def alternatives : List (Json → Except ReadError Operand) :=
  [Form.query, .number, .text, .column].map Form.read

/-- The only form that an operand can be of that is laid out as the value. -/
def form? : Json → Option Form
  | .object _ | .array (.array _ :: _) => some .query
  | .array (.number _ :: _) => some .column
  | .number _ => some .number
  | .string _ => some .text
  | _ => none

theorem form?_of_read (form : Form) (v : Json) (operand : Operand)
    (h : form.read v = .ok operand) : form? v = some form := by
  cases form with
  | query =>
    obtain ⟨q, hq, -⟩ := map_eq_ok_iff.mp h
    rcases Query.kind_of_ofJson hq with ⟨members, rfl⟩ | ⟨items, rest, rfl⟩
    · rfl
    · rfl
  | number =>
    cases v with
    | number n => rfl
    | _ => cases h
  | text =>
    cases v with
    | string s => rfl
    | _ => cases h
  | column =>
    obtain ⟨use, huse, -⟩ := map_eq_ok_iff.mp h
    obtain ⟨rfl, -⟩ := ColumnUse.ofJson_eq_ok_iff.mp huse
    rfl

/-- No value is an operand of two forms. -/
theorem pairwise_alternatives : alternatives.Pairwise Json.Excludes :=
  Json.pairwise_excludes (by decide) form?_of_read

/-- An operand that may be absent is read in the first way that succeeds. -/
theorem ofJson_eq (v : Json) :
    Operand.ofJson v = v.optional (Json.firstOf "Operand" alternatives) := by
  show _ = v.optional fun v => Json.firstOf "Operand"
    [Form.query.read, Form.number.read, Form.text.read, Form.column.read] v
  cases v with
  | null | bool b | number n | string s =>
    rw [Operand.ofJson]
    rfl
  | object members =>
    rw [Operand.ofJson]
    show _ = some <$> Json.firstOf _ _ _
    rw [Json.firstOf, Form.read, Query.ofJson]
    rcases Query.clausesOfMembers {} members >>= Query.Clauses.named with e | q
    · rfl
    · rfl
  | array items =>
    rw [Operand.ofJson]
    show _ = some <$> Json.firstOf _ _ _
    rw [Json.firstOf, Form.read, Query.ofJson]
    rcases Query.clausesOfItems {} Query.Clauses.names items >>= Query.Clauses.positional with e | q
    · -- an array is neither a number nor a text
      show _ = some <$> Json.firstOf "Operand" [Form.column.read] (.array items)
      rw [Json.firstOf, Form.read]
      rcases ColumnUse.ofJson (.array items) with e | use
      · rfl
      · rfl
    · rfl

end Operand

/-- The value is meant as a query: it is an object, or an array with an array in the place of the
select list, or one in which something can be read as the clause of its place. -/
inductive Query.Meant : Json → Prop
  | object (members : List (String × Json)) : Query.Meant (.object members)
  | list (items rest : List Json) : Query.Meant (.array (.array items :: rest))
  | clause {items : List Json} {name : String} {v : Json} {clauses : Query.Clauses}
      (place : (name, v) ∈ Query.Clauses.names.zip items)
      (reads : Query.Clauses.add {} name v (fun _ => Query.ofJson v)
        (fun _ => Query.sourcesOfJson v) (fun _ => Query.conditionsOfJson v) = .ok clauses) :
      Query.Meant (.array items)

theorem Query.Meant.kind {v : Json} (h : Query.Meant v) :
    (∃ members, v = .object members) ∨ ∃ items, v = .array items := by
  cases h with
  | object members => exact .inl ⟨members, rfl⟩
  | list items rest => exact .inr ⟨.array items :: rest, rfl⟩
  | @clause items _ _ _ _ _ => exact .inr ⟨items, rfl⟩

/-- No part of a column can be read as the clause of its place. -/
theorem Query.Meant.not_columnUse {v : Json} (h : Query.Meant v) (use : ColumnUse) :
    ColumnUse.ofJson v ≠ .ok use := by
  intro huse
  obtain ⟨hv, -⟩ := ColumnUse.ofJson_eq_ok_iff.mp huse
  cases h with
  | object members => cases hv
  | list items rest => cases hv
  | clause place reads =>
    cases hv
    -- the parts stand in the places of the select list, the sources and the restriction
    simp only [Query.Clauses.names, List.zip_cons_cons, List.zip_nil_right, List.mem_cons,
      List.not_mem_nil, or_false, Prod.mk.injEq] at place
    rcases place with ⟨rfl, rfl⟩ | ⟨rfl, rfl⟩ | ⟨rfl, rfl⟩
    · cases reads
    · obtain ⟨_, hsources, -⟩ := bind_eq_ok_iff.mp reads
      simp [Query.sourcesOfJson, Json.ofNat] at hsources
    · obtain ⟨_, hconditions, -⟩ := bind_eq_ok_iff.mp reads
      simp [Query.conditionsOfJson] at hconditions

/-- A value that is meant as a query and cannot be read as one is no operand. -/
theorem Operand.ofJson_of_meant {v : Json} {e : ReadError} (meant : Query.Meant v)
    (h : Query.ofJson v = .error e) : Operand.ofJson v = .error (.noAlternative "Operand") := by
  have hfails : ∀ form : Form, ∀ operand, form.read v ≠ .ok operand := by
    intro form operand hread
    cases form with
    | query =>
      obtain ⟨q, hq, -⟩ := map_eq_ok_iff.mp hread
      rw [h] at hq
      cases hq
    | number =>
      rcases meant.kind with ⟨members, rfl⟩ | ⟨items, rfl⟩
      · cases hread
      · cases hread
    | text =>
      rcases meant.kind with ⟨members, rfl⟩ | ⟨items, rfl⟩
      · cases hread
      · cases hread
    | column =>
      obtain ⟨use, huse, -⟩ := map_eq_ok_iff.mp hread
      exact meant.not_columnUse use huse
  have hfirst : Json.firstOf "Operand" alternatives v = .error (.noAlternative "Operand") := by
    refine Json.firstOf_eq_error_iff.mpr ⟨rfl, fun reading hmem => ?_⟩
    obtain ⟨form, -, rfl⟩ := List.mem_map.mp hmem
    exact hfails form
  have hpresent : v.optional (Json.firstOf "Operand" alternatives) =
      some <$> Json.firstOf "Operand" alternatives v := by
    rcases meant.kind with ⟨members, rfl⟩ | ⟨items, rfl⟩
    · rfl
    · rfl
  rw [ofJson_eq, hpresent, hfirst]
  rfl

/-! ### Entries of a body -/

namespace Condition

/-- What an entry of a body can be. -/
inductive Form where
  | connective
  | condition
  deriving DecidableEq

/-- Read an entry of the form. -/
def Form.read : Form → Json → Except ReadError (Connective ⊕ Condition)
  | .connective, v => Sum.inl <$> Connective.ofJson v
  | .condition, v => Sum.inr <$> Condition.ofJson v

/-- The ways to read an entry, in the order in which they are tried. -/
def alternatives : List (Json → Except ReadError (Connective ⊕ Condition)) :=
  [Form.connective, .condition].map Form.read

/-- The only form that an entry can be of that is laid out as the value. -/
def form? : Json → Option Form
  | .string _ | .object _ => some .connective
  | .array _ => some .condition
  | _ => none

theorem form?_of_read (form : Form) (v : Json) (entry : Connective ⊕ Condition)
    (h : form.read v = .ok entry) : form? v = some form := by
  cases form with
  | connective =>
    obtain ⟨c, hc, -⟩ := map_eq_ok_iff.mp h
    rcases Connective.ofJson_eq_ok_iff.mp hc with rfl | rfl
    · rfl
    · rfl
  | condition =>
    cases v with
    | array items => rfl
    | _ => cases h

/-- No value is both a connective and a condition. -/
theorem pairwise_alternatives : alternatives.Pairwise Json.Excludes :=
  Json.pairwise_excludes (by decide) form?_of_read

/-- An entry is read in the first way that succeeds. -/
theorem mixedOfJson_eq (v : Json) :
    mixedOfJson v = Json.firstOf "ConditionItem" alternatives v := by
  show _ = Json.firstOf "ConditionItem" [Form.connective.read, Form.condition.read] v
  cases v with
  | array items =>
    rw [mixedOfJson]
    -- an array is no connective
    show _ = Json.firstOf "ConditionItem" [Form.condition.read] (.array items)
    rw [Json.firstOf, Form.read, Condition.ofJson]
    rcases Condition.ofItems items with e | c
    · rfl
    · rfl
  | _ =>
    simp only [mixedOfJson, Json.firstOf, Form.read]
    generalize Connective.ofJson _ = connective
    rcases connective with e | c
    · rfl
    · rfl

/-- A condition has two operands after its first three parts. -/
theorem exists_operands_of_ofItems {items : List Json} {c : Condition}
    (h : ofItems items = .ok c) : ∃ negated operator left value upper,
      items = [negated, operator, left, value, upper] ∧
        Operand.ofJson value = .ok c.value ∧ Operand.ofJson upper = .ok c.upper := by
  rw [ofItems] at h
  obtain ⟨⟨negated, operator, left⟩, -, h⟩ := bind_eq_ok_iff.mp h
  dsimp only at h
  -- fewer than five parts are of the wrong length
  split at h
  · obtain ⟨value, hvalue, h⟩ := bind_eq_ok_iff.mp h
    obtain ⟨upper, hupper, h⟩ := bind_eq_ok_iff.mp h
    split_ifs at h with hrest
    cases h
    obtain rfl := List.isEmpty_iff.mp hrest
    exact ⟨_, _, _, _, _, rfl, hvalue, hupper⟩
  · obtain ⟨_, -, h⟩ := bind_eq_ok_iff.mp h
    cases h
  · cases h

/-- An entry is not read if one of its operands is not. -/
theorem mixedOfJson_of_operand {items : List Json} {place : Nat} {v : Json} {e : ReadError}
    (operand : place = 3 ∨ place = 4) (item : items[place]? = some v)
    (h : Operand.ofJson v = .error e) :
    mixedOfJson (.array items) = .error (.noAlternative "ConditionItem") := by
  rw [mixedOfJson]
  rcases hread : ofItems items with e' | c
  · rfl
  · obtain ⟨_, _, _, value, upper, rfl, hvalue, hupper⟩ := exists_operands_of_ofItems hread
    rcases operand with rfl | rfl
    · cases item
      rw [h] at hvalue
      cases hvalue
    · cases item
      rw [h] at hupper
      cases hupper

end Condition

/-! ### Sort orders -/

namespace SortOrder

variable {v : Json} {order : SortOrder}

theorem clauseOfJson_of_layout (h : order.Layout v) : clauseOfJson v = .ok (some order) := by
  have hread := ofJson_eq_ok_iff.mpr h
  obtain ⟨direction, -, rfl, -⟩ := h
  rw [clauseOfJson, hread]

/-- What is no sort order and does not stand for none is an error, of an array as such. -/
theorem clauseOfJson_of_not_layout (null : v ≠ .null) (nil : v ≠ .array [])
    (h : ∀ order : SortOrder, ¬ order.Layout v) : clauseOfJson v = .error
      (match v with
      | .array _ => .malformedSortOrder
      | _ => .noAlternative "RawOrderBy") := by
  cases v with
  | null => exact absurd rfl null
  | array items =>
    rcases hread : SortOrder.ofJson (.array items) with e | order
    · have hempty : ¬ items.isEmpty := fun hempty => nil (by rw [List.isEmpty_iff.mp hempty])
      rw [clauseOfJson, hread]
      exact if_neg hempty
    · exact absurd (ofJson_eq_ok_iff.mp hread) (h order)
  | _ => rfl

/-- Null and the empty array are no sort orders, but stand for none. -/
theorem clauseOfJson_of_absent (h : v = .null ∨ v = .array []) : clauseOfJson v = .ok none := by
  rcases h with rfl | rfl
  · rfl
  · rfl

/-- The value of a sort order ends in one of three ways. -/
theorem clauseOfJson_cases (v : Json) :
    ((v = .null ∨ v = .array []) ∧ clauseOfJson v = .ok none) ∨
    (∃ order : SortOrder, order.Layout v ∧ clauseOfJson v = .ok (some order)) ∨
    ((v ≠ .null ∧ v ≠ .array [] ∧ ∀ order : SortOrder, ¬ order.Layout v) ∧
      ∃ e, clauseOfJson v = .error e) := by
  by_cases habsent : v = .null ∨ v = .array []
  · exact .inl ⟨habsent, clauseOfJson_of_absent habsent⟩
  · obtain ⟨hnull, hnil⟩ := not_or.mp habsent
    by_cases horder : ∃ order : SortOrder, order.Layout v
    · obtain ⟨order, horder⟩ := horder
      exact .inr (.inl ⟨order, horder, clauseOfJson_of_layout horder⟩)
    · have hnone := not_exists.mp horder
      exact .inr (.inr ⟨⟨hnull, hnil, hnone⟩, _, clauseOfJson_of_not_layout hnull hnil hnone⟩)

theorem clauseOfJson_eq_none_iff : clauseOfJson v = .ok none ↔ v = .null ∨ v = .array [] := by
  refine ⟨fun h => ?_, clauseOfJson_of_absent⟩
  rcases clauseOfJson_cases v with ⟨habsent, -⟩ | ⟨order, -, hv⟩ | ⟨-, e, hv⟩
  · exact habsent
  · rw [hv] at h
    cases h
  · rw [hv] at h
    cases h

theorem clauseOfJson_eq_some_iff : clauseOfJson v = .ok (some order) ↔ order.Layout v := by
  refine ⟨fun h => ?_, clauseOfJson_of_layout⟩
  rcases clauseOfJson_cases v with ⟨-, hv⟩ | ⟨other, hlayout, hv⟩ | ⟨-, e, hv⟩
  · rw [hv] at h
    cases h
  · rw [hv] at h
    cases h
    exact hlayout
  · rw [hv] at h
    cases h

theorem exists_clauseOfJson_error_iff : (∃ e, clauseOfJson v = .error e) ↔
    v ≠ .null ∧ v ≠ .array [] ∧ ∀ order : SortOrder, ¬ order.Layout v := by
  constructor
  · rintro ⟨e, h⟩
    refine ⟨?_, ?_, fun order horder => ?_⟩
    · rintro rfl
      cases h
    · rintro rfl
      cases h
    · rw [clauseOfJson_of_layout horder] at h
      cases h
  · rintro ⟨hnull, hnil, hnone⟩
    exact ⟨_, clauseOfJson_of_not_layout hnull hnil hnone⟩

end SortOrder

/-- **The alternatives do not overlap.**  No value can be read as an operand in two ways, nor as an
entry of a body; so an operand and an entry are read alike in whatever order the ways are tried.

A value that is meant as a query and cannot be read as one is no operand, and an entry with such a
value in the place of an operand is not read either.

The value of a sort order stands for none if it is null or an empty array, for a sort order if it is
an array of a direction and an array of terms, and is an error otherwise. -/
theorem alternatives_exclusive :
    Operand.alternatives.Pairwise Json.Excludes ∧
    Condition.alternatives.Pairwise Json.Excludes ∧
    (∀ order, order.Perm Operand.alternatives → ∀ v,
      Operand.ofJson v = v.optional (Json.firstOf "Operand" order)) ∧
    (∀ order, order.Perm Condition.alternatives → ∀ v,
      Condition.mixedOfJson v = Json.firstOf "ConditionItem" order v) ∧
    (∀ v e, Query.Meant v → Query.ofJson v = .error e →
      Operand.ofJson v = .error (.noAlternative "Operand") ∧
      ∀ items place, place = 3 ∨ place = 4 → items[place]? = some v →
        Condition.mixedOfJson (.array items) = .error (.noAlternative "ConditionItem")) ∧
    ∀ v,
      (SortOrder.clauseOfJson v = .ok none ↔ v = .null ∨ v = .array []) ∧
      (∀ order : SortOrder, SortOrder.clauseOfJson v = .ok (some order) ↔ order.Layout v) ∧
      ((∃ e, SortOrder.clauseOfJson v = .error e) ↔
        v ≠ .null ∧ v ≠ .array [] ∧ ∀ order : SortOrder, ¬ order.Layout v) := by
  refine ⟨Operand.pairwise_alternatives, Condition.pairwise_alternatives, fun order perm v => ?_,
    fun order perm v => ?_, fun v e meant h => ?_, fun v => ?_⟩
  · rw [Operand.ofJson_eq, Json.firstOf_perm Operand.pairwise_alternatives perm.symm]
  · rw [Condition.mixedOfJson_eq, Json.firstOf_perm Condition.pairwise_alternatives perm.symm]
  · have hoperand := Operand.ofJson_of_meant meant h
    exact ⟨hoperand, fun items place operand item =>
      Condition.mixedOfJson_of_operand operand item hoperand⟩
  · exact ⟨SortOrder.clauseOfJson_eq_none_iff, fun order => SortOrder.clauseOfJson_eq_some_iff,
      SortOrder.exists_clauseOfJson_error_iff⟩

/-- A query without sources is laid out like a column, as a short array; it is not read as one. -/
theorem alternatives_exclusive_sample :
    Operand.ofJson (.array [.array [.bool false, .array []]]) = .error (.noAlternative "Operand") ∧
      SortOrder.clauseOfJson (.array [.object [("asc", .null)], .array []]) =
        .ok (some { direction := .ascending, keys := [] }) := by
  obtain ⟨-, -, -, -, hmeant, horder⟩ := alternatives_exclusive
  have meant : Query.Meant (.array [.array [.bool false, .array []]]) :=
    .clause List.mem_cons_self rfl
  refine ⟨(hmeant _ .wrongLength meant ?_).1, ?_⟩
  · rfl
  · obtain ⟨-, hclause, -⟩ := horder (.array [.object [("asc", .null)], .array []])
    exact (hclause _).mpr ⟨_, .inr rfl, rfl, nofun⟩

end QueryGrammar
