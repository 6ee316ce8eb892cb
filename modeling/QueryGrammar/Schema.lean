/-
QueryGrammar/Schema.lean

Database schemas.

A schema numbers its columns and tables.  Columns of one name share an *identity*: the place of
the name among the distinct names, in the order of their first appearance.  The names are gone
through once, and a `NameTable` keeps the distinct ones that have been seen together with their
places.  Column 0 is usually the one that stands for all columns; it and any column with a negative
owner belong to no table.

The key map links the two columns of every foreign key in both directions, a later pair
replacing an earlier one, and every primary key to itself, which replaces all links of it.
-/
import QueryGrammar.Failure
import QueryGrammar.Keyed

namespace QueryGrammar

/-- The description of a database as it is written in a catalog. -/
structure SchemaEntry where
  name : String
  tableNames : List String
  /-- The owner and the name of each column; a negative owner stands for no table. -/
  columns : List (Int × String)
  primaryKeys : List Nat := []
  foreignKeys : List (Nat × Nat) := []

/-! ### Distinct names -/

/-- Distinct names in the order of their first appearance, with their places among them. -/
structure NameTable where
  names : List String
  places : List (String × Nat)
  /-- The look-up of a name finds its place among the names. -/
  lookup_places : ∀ name, places.lookup name = names.idxOf? name

namespace NameTable

/-- The table without names. -/
def empty : NameTable := ⟨[], [], fun _ => rfl⟩

/-- The table with a name that has been looked up in vain. -/
def push (table : NameTable) (name : String) (new : table.places.lookup name = none) :
    NameTable where
  names := table.names ++ [name]
  places := (name, table.names.length) :: table.places
  lookup_places other := by
    rw [List.lookup_cons, List.idxOf?, List.findIdx?_append, ← List.idxOf?, ← table.lookup_places]
    by_cases h : other = name
    · simp [h, new]
    · simp [beq_false_of_ne h, beq_false_of_ne (Ne.symm h)]

/-- Add a name, unless it is there. -/
def add (table : NameTable) (name : String) : NameTable :=
  match h : table.places.lookup name with
  | some _ => table
  | none => table.push name h

/-- The table of the names in a list. -/
def ofList (names : List String) : NameTable := names.foldl add empty

/-- A name that is there is not added, and one that is not goes to the end. -/
theorem names_add (table : NameTable) (name : String) :
    (table.add name).names =
      if name ∈ table.names then table.names else table.names ++ [name] := by
  have hmem : (table.places.lookup name).isSome ↔ name ∈ table.names := by
    rw [table.lookup_places, List.isSome_idxOf?]
  unfold add
  split
  · next h => rw [if_pos (hmem.mp (by rw [h]; rfl))]
  · next h =>
    rw [if_neg (fun hname => by simpa [h] using hmem.mpr hname)]
    rfl

theorem mem_names_add {table : NameTable} {name other : String} :
    other ∈ (table.add name).names ↔ other ∈ table.names ∨ other = name := by
  rw [names_add]
  split
  · next h => exact ⟨.inl, fun hother => hother.elim id fun heq => heq ▸ h⟩
  · rw [List.mem_append, List.mem_singleton]

theorem mem_names_foldl_add {table : NameTable} {names : List String} {name : String} :
    name ∈ (names.foldl add table).names ↔ name ∈ table.names ∨ name ∈ names := by
  induction names generalizing table with
  | nil => simp
  | cons first names ih => rw [List.foldl_cons, ih, mem_names_add, List.mem_cons, or_assoc]

end NameTable

/-! ### Schemas -/

/-- A database schema with its look-ups. -/
structure Schema where
  name : String
  columnNames : List String
  /-- The distinct column names. -/
  nameTable : NameTable
  /-- The table that each column belongs to. -/
  owners : List (Option Nat)
  tableNames : List String
  /-- The column that each key column links to. -/
  keys : List (Nat × Nat)

namespace Schema

/-- The distinct column names, in the order of their first appearance. -/
def identities (schema : Schema) : List String := schema.nameTable.names

/-! ### Building -/

/-- The table of an owner as it is written. -/
def ownerOfInt (owner : Int) : Option Nat := if 0 ≤ owner then some owner.toNat else none

/-- Link the columns of a foreign key in both directions. -/
def linkForeign (keys : List (Nat × Nat)) (pair : Nat × Nat) : List (Nat × Nat) :=
  Keyed.insert pair.2 pair.1 (Keyed.insert pair.1 pair.2 keys)

/-- Link a primary key to itself. -/
def linkPrimary (keys : List (Nat × Nat)) (id : Nat) : List (Nat × Nat) := Keyed.insert id id keys

/-- The schema of a description. -/
def ofEntry (entry : SchemaEntry) : Schema :=
  let columnNames := entry.columns.map Prod.snd
  { name := entry.name
    columnNames
    nameTable := .ofList columnNames
    owners := entry.columns.map fun column => ownerOfInt column.1
    tableNames := entry.tableNames
    keys := entry.primaryKeys.foldl linkPrimary (entry.foreignKeys.foldl linkForeign []) }

/-! ### Looking up -/

/-- The identity of a column. -/
def columnIdentity (schema : Schema) (column : Nat) : Except Failure Nat :=
  match schema.columnNames[column]?.bind (schema.nameTable.places.lookup ·) with
  | some identity => .ok identity
  | none => .error (.unknownColumn column)

/-- The table that a column belongs to, if it belongs to one. -/
def tableOf (schema : Schema) (column : Nat) : Except Failure (Option Nat) :=
  match schema.owners[column]? with
  | some owner => .ok owner
  | none => .error (.unknownColumn column)

/-- The table that a column belongs to. -/
def owningTable (schema : Schema) (column : Nat) : Except Failure Nat := do
  match ← schema.tableOf column with
  | some table => pure table
  | none => throw (.unownedColumn column)

/-- The table itself if the schema has it. -/
def checkTable (schema : Schema) (table : Nat) : Except Failure Nat :=
  if table < schema.tableNames.length then .ok table else .error (.unknownTable table)

/-- The name of a column after the name of its table; what is unknown is a question mark. -/
def qualifiedName (schema : Schema) (column : Nat) : String :=
  let name := schema.columnNames.getD column "?"
  match schema.owners.getD column none with
  | some table => schema.tableNames.getD table "?" ++ "." ++ name
  | none => name

/-- The key columns among some columns, each with the column that it links to. -/
def keyLinks (schema : Schema) (columns : List Nat) : List (Nat × Nat) :=
  columns.filterMap fun column => (Keyed.find? column schema.keys).map fun other => (column, other)

/-- The columns that belong to one of some tables. -/
def columnsOf (schema : Schema) (tables : List Nat) : List Nat :=
  (List.range schema.owners.length).filter fun column =>
    match schema.owners.getD column none with
    | some table => tables.contains table
    | none => false

end Schema

end QueryGrammar
