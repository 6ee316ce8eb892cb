/-
QueryGrammar/Query/Decode.lean

Reading queries from their JSON layout.

    column use   [aggregate, column, distinct]
    term         [operator, column use, column use or null]
    select list  [distinct, [[aggregate, term], …]]
    source       ["table_unit", id] or ["sql", query]
    condition    [negated, operator, term, operand or null, operand or null]
    operand      query, number, text or column use
    body         [condition, "and" or "or", condition, …]
    sort order   ["asc" or "desc", [term, …]], or [] or null for none
    query        an object of clauses, or the array of the clauses in a fixed order

A query is told by the names of its clauses; unknown names are passed over, `select` and `from`
are required, every other clause may be missing.  As an array a query may end early after the
required clauses, but may not be longer than the list of clauses.

Operands, entries of a body and sort orders are read by trying their alternatives one after the
other; what was wrong with each of them is forgotten.

The reading is structural on the JSON value.
-/
import QueryGrammar.Json.Decode
import QueryGrammar.Query.Basic

namespace QueryGrammar

open Json (element tuple)

/-! ### Flat parts -/

/-- An aggregate, by its code. -/
def Aggregate.ofJson (v : Json) : Except ReadError Aggregate := do Aggregate.ofCode (← v.byte)

/-- An operator, by its code. -/
def Operator.ofJson (v : Json) : Except ReadError Operator := do Operator.ofCode (← v.byte)

/-- A column use. -/
def ColumnUse.ofJson : Json → Except ReadError ColumnUse := tuple do
  let aggregate ← element Aggregate.ofJson
  let column ← element Json.nat
  let distinct ← element Json.boolean
  pure { aggregate, column, distinct }

/-- The layout of a column use. -/
def ColumnUse.toJson (use : ColumnUse) : Json :=
  .array [.ofNat use.aggregate.code, .ofNat use.column, .bool use.distinct]

/-- The code of an aggregate is read back. -/
theorem Aggregate.ofJson_code (aggregate : Aggregate) :
    Aggregate.ofJson (.ofNat aggregate.code) = .ok aggregate := by
  cases aggregate <;> rfl

/-- The layout of a column use is read back if the number of the column fits a word. -/
theorem ColumnUse.ofJson_toJson (use : ColumnUse) (h : use.column < wordBound) :
    ColumnUse.ofJson use.toJson = .ok use := by
  have hc : Json.nat (.ofNat use.column) = .ok use.column := by
    simp [Json.nat, Json.natBelow_ofNat, h]
  rw [ColumnUse.ofJson, ColumnUse.toJson, Json.tuple_element, Aggregate.ofJson_code]
  show tuple _ (.array _) = _
  rw [Json.tuple_element, hc]
  rfl

/-- A term. -/
def Term.ofJson : Json → Except ReadError Term := tuple do
  let operator ← element Json.byte
  let left ← element ColumnUse.ofJson
  let right ← element (Json.optional ColumnUse.ofJson)
  pure { operator, left, right }

/-- An entry of the select list. -/
def SelectItem.ofJson : Json → Except ReadError SelectItem := tuple do
  let aggregate ← element Aggregate.ofJson
  let term ← element Term.ofJson
  pure { aggregate, term }

/-- A select list. -/
def SelectList.ofJson : Json → Except ReadError SelectList := tuple do
  let distinct ← element Json.boolean
  let items ← element (Json.list SelectItem.ofJson)
  pure { distinct, items }

/-- A connective. -/
def Connective.ofJson (v : Json) : Except ReadError Connective := do
  pure (if ← v.isFirstName "and" "or" then .and else .or)

/-- A direction of sorting. -/
def Direction.ofJson (v : Json) : Except ReadError Direction := do
  pure (if ← v.isFirstName "asc" "desc" then .ascending else .descending)

/-- A sort order that is present. -/
def SortOrder.ofJson : Json → Except ReadError SortOrder := tuple do
  let direction ← element Direction.ofJson
  let keys ← element (Json.list Term.ofJson)
  pure { direction, keys }

/-- The ORDER BY clause: an empty array stands for none. -/
def SortOrder.clauseOfJson : Json → Except ReadError (Option SortOrder)
  | .null => .ok none
  | .array items =>
    match SortOrder.ofJson (.array items) with
    | .ok order => .ok (some order)
    | .error _ => if items.isEmpty then .ok none else .error .malformedSortOrder
  | _ => .error (.noAlternative "RawOrderBy")

/-! ### Clauses -/

namespace Query

/-- The clauses of a query read so far. -/
structure Clauses where
  selectList : Option SelectList := none
  sources : Option (List Source) := none
  restriction : Conditions := none
  having : Conditions := none
  groupBy : List ColumnUse := []
  sortOrder : Option SortOrder := none
  limit : Option Binary64 := none
  intersect : Option Query := none
  union : Option Query := none
  except : Option Query := none

namespace Clauses

/-- The names of the clauses in the order of the array form. -/
def names : List String :=
  ["select", "from", "where", "having", "groupBy", "orderBy", "limit", "intersect", "union",
    "except"]

/-- Read the clause of a name from a value; the ways to read that value as a query, as sources
and as a body of conditions are given. -/
def add (clauses : Clauses) (name : String) (v : Json)
    (query : Unit → Except ReadError Query)
    (sources : Unit → Except ReadError (List Source))
    (conditions : Unit → Except ReadError Conditions) : Except ReadError Clauses :=
  let branch : Except ReadError (Option Query) :=
    match v with
    | .null => .ok none
    | _ => some <$> query ()
  match name with
  | "select" => do pure { clauses with selectList := some (← SelectList.ofJson v) }
  | "from" => do pure { clauses with sources := some (← sources ()) }
  | "where" => do pure { clauses with restriction := ← conditions () }
  | "having" => do pure { clauses with having := ← conditions () }
  | "groupBy" => do pure { clauses with groupBy := ← v.list ColumnUse.ofJson }
  | "orderBy" => do pure { clauses with sortOrder := ← SortOrder.clauseOfJson v }
  | "limit" => do pure { clauses with limit := ← v.optional Json.real }
  | "intersect" => do pure { clauses with intersect := ← branch }
  | "union" => do pure { clauses with union := ← branch }
  | "except" => do pure { clauses with except := ← branch }
  | _ => .ok clauses

/-- The query with these clauses; `missing` gives the error for a required clause. -/
def toQuery (missing : String → ReadError) (clauses : Clauses) : Except ReadError Query :=
  match clauses.selectList, clauses.sources with
  | none, _ => .error (missing "select")
  | some _, none => .error (missing "from")
  | some selectList, some sources =>
    .ok
      { selectList, sources,
        restriction := clauses.restriction, having := clauses.having, groupBy := clauses.groupBy,
        sortOrder := clauses.sortOrder, limit := clauses.limit, intersect := clauses.intersect,
        union := clauses.union, except := clauses.except }

/-- The query with the clauses of an object. -/
def named (clauses : Clauses) : Except ReadError Query := clauses.toQuery .missingField

/-- The query with the clauses of an array. -/
def positional (clauses : Clauses) : Except ReadError Query :=
  clauses.toQuery fun _ => .wrongLength

end Clauses

end Query

/-- A source of the given kind, once its content has been read as a query. -/
def Source.ofKind (kind : String) (content : Json) (query : Unit → Except ReadError Query) :
    Except ReadError Source :=
  match kind with
  | "table_unit" => (content.nat.map Source.table).mapError .invalidTable
  | "sql" => ((query ()).map Source.query).mapError .invalidSubquery
  | kind => .error (.unknownSource kind)

/-- The parts of a condition before its operands. -/
def Condition.headOfItems : List Json → Except ReadError (Bool × Operator × Term) := fun items => do
  let elements : Json.Elements (Bool × Operator × Term) := do
    let negated ← element Json.boolean
    let operator ← element Operator.ofJson
    let left ← element Term.ofJson
    pure (negated, operator, left)
  let (head, _) ← elements items
  pure head

/-! ### Queries -/

mutual

/-- A query. -/
def Query.ofJson : Json → Except ReadError Query
  | .object members => Query.clausesOfMembers {} members >>= Query.Clauses.named
  | .array items =>
    Query.clausesOfItems {} Query.Clauses.names items >>= Query.Clauses.positional
  | _ => .error .wrongKind

/-- The clauses in the members of an object. -/
def Query.clausesOfMembers (clauses : Query.Clauses) :
    List (String × Json) → Except ReadError Query.Clauses
  | [] => .ok clauses
  | (name, v) :: rest => do
    let clauses ← clauses.add name v (fun _ => Query.ofJson v) (fun _ => Query.sourcesOfJson v)
      (fun _ => Query.conditionsOfJson v)
    Query.clausesOfMembers clauses rest

/-- The clauses of the given names in the elements of an array. -/
def Query.clausesOfItems (clauses : Query.Clauses) :
    List String → List Json → Except ReadError Query.Clauses
  | _, [] => .ok clauses
  | [], _ :: _ => .error .wrongLength
  | name :: names, v :: rest => do
    let clauses ← clauses.add name v (fun _ => Query.ofJson v) (fun _ => Query.sourcesOfJson v)
      (fun _ => Query.conditionsOfJson v)
    Query.clausesOfItems clauses names rest

/-- The FROM clause: an object with the sources under one name, or an array of just them. -/
def Query.sourcesOfJson : Json → Except ReadError (List Source)
  | .object members => Query.sourcesOfMembers none members
  | .array [] => .error .wrongLength
  | .array (v :: rest) => do
    let sources ← Source.listOfJson v
    if rest.isEmpty then pure sources else throw .wrongLength
  | _ => .error .wrongKind

/-- The sources in the members of an object. -/
def Query.sourcesOfMembers (sources : Option (List Source)) :
    List (String × Json) → Except ReadError (List Source)
  | [] =>
    match sources with
    | some sources => .ok sources
    | none => .error (.missingField "table_units")
  | (name, v) :: rest =>
    if name = "table_units" then do
      let sources ← Source.listOfJson v
      Query.sourcesOfMembers (some sources) rest
    else Query.sourcesOfMembers sources rest

/-- A list of sources. -/
def Source.listOfJson : Json → Except ReadError (List Source)
  | .array items => Source.listOfItems items
  | _ => .error .wrongKind

/-- The sources in the elements of an array. -/
def Source.listOfItems : List Json → Except ReadError (List Source)
  | [] => .ok []
  | v :: rest => do
    let source ← Source.ofJson v
    let sources ← Source.listOfItems rest
    pure (source :: sources)

/-- A source. -/
def Source.ofJson : Json → Except ReadError Source
  | .array [] => .error .wrongLength
  | .array [kind] => do
    let _ ← kind.text
    throw .wrongLength
  | .array (kind :: content :: rest) => do
    let kind ← kind.text
    if rest.isEmpty then Source.ofKind kind content fun _ => Query.ofJson content
    else throw .wrongLength
  | _ => .error .wrongKind

/-- The body of a WHERE or HAVING clause. -/
def Query.conditionsOfJson : Json → Except ReadError Conditions
  | .array items => Condition.mixedOfItems items >>= Chain.ofMixed
  | _ => .error .wrongKind

/-- The conditions and connectives in the elements of an array. -/
def Condition.mixedOfItems : List Json → Except ReadError (List (Connective ⊕ Condition))
  | [] => .ok []
  | v :: rest => do
    let entry ← Condition.mixedOfJson v
    let entries ← Condition.mixedOfItems rest
    pure (entry :: entries)

/-- A connective or a condition. -/
def Condition.mixedOfJson : Json → Except ReadError (Connective ⊕ Condition)
  | .array items =>
    match Condition.ofItems items with
    | .ok condition => .ok (.inr condition)
    | .error _ => .error (.noAlternative "ConditionItem")
  | v =>
    match Connective.ofJson v with
    | .ok connective => .ok (.inl connective)
    | .error _ => .error (.noAlternative "ConditionItem")

/-- A condition from the elements of an array. -/
def Condition.ofItems (items : List Json) : Except ReadError Condition := do
  let (negated, operator, left) ← Condition.headOfItems items
  match items with
  | _ :: _ :: _ :: value :: upper :: rest =>
    let value ← Operand.ofJson value
    let upper ← Operand.ofJson upper
    if rest.isEmpty then pure { negated, operator, left, value, upper } else throw .wrongLength
  | [_, _, _, value] =>
    let _ ← Operand.ofJson value
    throw .wrongLength
  | _ => throw .wrongLength

/-- The operand of a condition; null stands for none. -/
def Operand.ofJson : Json → Except ReadError (Option Operand)
  | .null => .ok none
  | .number n => .ok (some (.number n.toBinary64))
  | .string s => .ok (some (.text s))
  | .object members =>
    match Query.clausesOfMembers {} members >>= Query.Clauses.named with
    | .ok q => .ok (some (.query q))
    | .error _ => .error (.noAlternative "Operand")
  | .array items =>
    match Query.clausesOfItems {} Query.Clauses.names items >>= Query.Clauses.positional with
    | .ok q => .ok (some (.query q))
    | .error _ =>
      match ColumnUse.ofJson (.array items) with
      | .ok use => .ok (some (.column use))
      | .error _ => .error (.noAlternative "Operand")
  | .bool _ => .error (.noAlternative "Operand")

end

/-- A condition. -/
def Condition.ofJson : Json → Except ReadError Condition
  | .array items => Condition.ofItems items
  | _ => .error .wrongKind

/-- An operand that is present. -/
def Operand.requiredOfJson (v : Json) : Except ReadError Operand := do
  match ← Operand.ofJson v with
  | some operand => pure operand
  | none => throw (.noAlternative "Operand")

end QueryGrammar
