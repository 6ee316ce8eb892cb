/-
QueryGrammar/Dataset/Record.lean

Records of a dataset: a question, the query that answers it, and the database that it is about.

A record is an object, or the array of its four fields; the two texts may be missing from an
object.  Converting a record puts the label and the literals of its query next to its own fields,
which stay as they are.
-/
import QueryGrammar.Catalog
import QueryGrammar.Encoding
import QueryGrammar.Settings

namespace QueryGrammar

/-- A record of a dataset. -/
structure Record where
  database : String
  question : String := ""
  queryText : String := ""
  query : Query

namespace Record

/-! ### Reading -/

/-- The fields of a record read so far. -/
structure Fields where
  database : Option String := none
  question : String := ""
  queryText : String := ""
  query : Option Query := none

namespace Fields

/-- The names of the fields in the order of the array form. -/
def names : List String := ["db_id", "question", "query", "sql"]

/-- Read the field of a name. -/
def add (fields : Fields) (name : String) (v : Json) : Except ReadError Fields :=
  match name with
  | "db_id" => do pure { fields with database := some (← v.text) }
  | "question" => do pure { fields with question := ← v.text }
  | "query" => do pure { fields with queryText := ← v.text }
  | "sql" => do pure { fields with query := some (← Query.ofJson v) }
  | _ => .ok fields

/-- Read the fields of an object. -/
def ofMembers (fields : Fields) (members : List (String × Json)) : Except ReadError Fields :=
  members.foldlM (fun fields member => fields.add member.1 member.2) fields

/-- The record with these fields; `missing` gives the error for a required field. -/
def toRecord (missing : String → ReadError) (fields : Fields) : Except ReadError Record :=
  match fields.database, fields.query with
  | none, _ => .error (missing "db_id")
  | some _, none => .error (missing "sql")
  | some database, some query =>
    .ok { database, question := fields.question, queryText := fields.queryText, query }

end Fields

/-- A record. -/
def ofJson : Json → Except ReadError Record
  | .object members => Fields.ofMembers {} members >>= Fields.toRecord .missingField
  | .array items => do
    let fields ← Fields.ofMembers {} (Fields.names.zip items)
    if items.length = Fields.names.length then fields.toRecord fun _ => .wrongLength
    else throw .wrongLength
  | _ => .error .wrongKind

/-- A record, its reading being a step of some larger work. -/
def load (v : Json) : Except Failure Record := (ofJson v).mapError .json

/-! ### Converting -/

/-- What the query of a record is encoded against. -/
def context (record : Record) (schema : Schema) (settings : Settings) : Context :=
  { schema, question := record.question, query := record.queryText
    maxConditions := settings.maxWhereConditions }

/-- Encode the query of a record. -/
def encode (record : Record) (catalog : Catalog) (settings : Settings) : Logged Encoding := do
  let schema ← catalog.get record.database
  record.query.encode (record.context schema settings)

end Record

/-- A record with the fields of an encoding added. -/
def Encoding.annotate (encoding : Encoding) : Json → Except Failure Json
  | .object members =>
    .ok (.object (Keyed.insert "values" encoding.valuesToJson
      (Keyed.insert "rule_label" (.string encoding.label) members)))
  | _ => .error (.malformed .recordNotObject)

/-- What becomes of a record. -/
inductive Outcome where
  | converted (record : Json)
  | tooWide (width : Nat)
  | failed (cause : Failure)

/-- A record that went through the conversion: what becomes of it, and the notices on the way. -/
structure Conversion where
  notices : List Notice := []
  outcome : Outcome

/-- Convert a record. -/
def Conversion.ofRecord (catalog : Catalog) (settings : Settings) (raw : Json) : Conversion :=
  match Record.load raw with
  | .error e => { outcome := .failed e }
  | .ok record =>
    let width := record.query.selectList.items.length
    if settings.maxSelectColumns < width then { outcome := .tooWide width }
    else
      let encoded := record.encode catalog settings
      match encoded.outcome >>= (Encoding.annotate · raw) with
      | .ok result => { notices := encoded.notices, outcome := .converted result }
      | .error e => { notices := encoded.notices, outcome := .failed e }

end QueryGrammar
