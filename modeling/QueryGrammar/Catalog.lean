/-
QueryGrammar/Catalog.lean

The schemas of a dataset by the names of their databases.

A catalog is built by adding schemas one after the other; a schema replaces an earlier one of the
same name.
-/
import QueryGrammar.FileTree
import QueryGrammar.Schema.Decode

namespace QueryGrammar

/-- Schemas by the names of their databases. -/
structure Catalog where
  schemas : List (String × Schema) := []

namespace Catalog

/-- Add a schema, in place of one with its name. -/
def add (catalog : Catalog) (schema : Schema) : Catalog :=
  { schemas := Keyed.insert schema.name schema catalog.schemas }

/-- The catalog of some descriptions, added in order. -/
def ofEntries (entries : List SchemaEntry) : Catalog :=
  entries.foldl (fun catalog entry => catalog.add (.ofEntry entry)) {}

/-- The schema of a database. -/
def get (catalog : Catalog) (name : String) : Except Failure Schema :=
  match Keyed.find? name catalog.schemas with
  | some schema => .ok schema
  | none => .error (.unknownDatabase name)

/-- The number of databases. -/
def size (catalog : Catalog) : Nat := catalog.schemas.length

/-- The catalog in a text. -/
def ofText (text : String) : Except Failure Catalog :=
  match SchemaEntry.listOfText text with
  | .ok entries => .ok (ofEntries entries)
  | .error e => .error (.json e)

/-- The catalog in a file. -/
def load (tree : FileTree) (path : String) : Except Failure Catalog :=
  match tree.read path with
  | .ok text => ofText text
  | .error e => .error (.file e)

end Catalog

end QueryGrammar
