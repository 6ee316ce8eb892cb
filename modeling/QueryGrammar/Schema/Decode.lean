/-
QueryGrammar/Schema/Decode.lean

Reading the descriptions of databases from a catalog text.

    catalog       [description, …]
    description   an object of fields, or the array of the fields in a fixed order
    column        [owner, name]
    foreign key   [column, column]

The text is read front to back and the first error ends the reading, so an error of content wins
over a text that stops being JSON later on.  Unknown fields are passed over if they are
well-formed, a field may be given only once, and the two kinds of keys may be missing.
-/
import QueryGrammar.Json.Document
import QueryGrammar.Schema

namespace QueryGrammar

open Json (Document)

namespace SchemaEntry

/-- The fields of a description read so far. -/
structure Fields where
  name : Option String := none
  tableNames : Option (List String) := none
  columns : Option (List (Int × String)) := none
  primaryKeys : Option (List Nat) := none
  foreignKeys : Option (List (Nat × Nat)) := none

namespace Fields

/-- The names of the fields in the order of the array form. -/
def names : List String := ["db_id", "table_names", "column_names", "primary_keys", "foreign_keys"]

/-- Read the value of a field that is not there yet. -/
def once {α : Type} (name : String) (field : Option α) (value : Except ReadError α) :
    Except ReadError (Option α) :=
  if field.isSome then .error (.duplicateField name) else some <$> value

/-- Read the field of a name. -/
def add (fields : Fields) (name : String) (d : Document) : Except ReadError Fields :=
  match name with
  | "db_id" => do pure { fields with name := ← once name fields.name d.text }
  | "table_names" => do
    pure { fields with tableNames := ← once name fields.tableNames (d.list Document.text) }
  | "column_names" => do
    let column := Document.pair Document.signed Document.text
    pure { fields with columns := ← once name fields.columns (d.list column) }
  | "primary_keys" => do
    pure { fields with primaryKeys := ← once name fields.primaryKeys (d.list Document.nat) }
  | "foreign_keys" => do
    let link := Document.pair Document.nat Document.nat
    pure { fields with foreignKeys := ← once name fields.foreignKeys (d.list link) }
  | _ => if d.wellFormed then pure fields else throw .malformed

/-- Read the fields of an object. -/
def ofMembers (fields : Fields) : List (Option String × Document) → Except ReadError Fields
  | [] => .ok fields
  | (none, _) :: _ => .error .malformed
  | (some name, d) :: rest => do
    let fields ← fields.add name d
    fields.ofMembers rest

/-- Read the fields of the given names from the elements of an array. -/
def ofItems (fields : Fields) : List String → List Document → Except ReadError Fields
  | _, [] => .ok fields
  | [], _ :: _ => .error .malformed
  | name :: names, d :: rest => do
    let fields ← fields.add name d
    fields.ofItems names rest

/-- The description with these fields; `missing` gives the error for a required field. -/
def toEntry (missing : String → ReadError) (fields : Fields) : Except ReadError SchemaEntry :=
  match fields.name, fields.tableNames, fields.columns with
  | none, _, _ => .error (missing "db_id")
  | some _, none, _ => .error (missing "table_names")
  | some _, some _, none => .error (missing "column_names")
  | some name, some tableNames, some columns =>
    .ok
      { name, tableNames, columns,
        primaryKeys := fields.primaryKeys.getD [], foreignKeys := fields.foreignKeys.getD [] }

end Fields

/-- A description. -/
def ofDocument : Document → Except ReadError SchemaEntry
  | .object members closed => do
    let fields ← Fields.ofMembers {} members
    if closed then fields.toEntry .missingField else throw .malformed
  | .array items closed => do
    let fields ← Fields.ofItems {} Fields.names items
    let entry ← fields.toEntry fun _ => Document.endError closed
    if closed then pure entry else throw .malformed
  | d => .error d.kindError

/-- The descriptions in a catalog text. -/
def listOfText (text : String) : Except ReadError (List SchemaEntry) := do
  let reading := Document.read text
  let entries ← reading.root.list ofDocument
  if reading.trailing then throw .malformed
  pure entries

end SchemaEntry

end QueryGrammar
