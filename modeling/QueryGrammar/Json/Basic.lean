/-
QueryGrammar/Json/Basic.lean

JSON values.

An object is the list of its members.  Reading a text inserts members one by one, so that the
keys of an object that was read stand in increasing order, each once, and the last of several
members with one key is the one that stays.
-/
import QueryGrammar.Keyed
import QueryGrammar.Number.Decimal

namespace QueryGrammar

/-- A JSON value. -/
inductive Json where
  | null
  | bool (value : Bool)
  | number (value : Number)
  | string (value : String)
  | array (items : List Json)
  | object (members : List (String × Json))

namespace Json

instance : Inhabited Json := ⟨.null⟩

/-- The value of a key of an object; nothing for other kinds. -/
def get? (key : String) : Json → Option Json
  | .object members => Keyed.find? key members
  | _ => none

/-- The text of a string; nothing for other kinds. -/
def string? : Json → Option String
  | .string s => some s
  | _ => none

/-- A natural number. -/
def ofNat (n : Nat) : Json := .number (.int n)

end Json

end QueryGrammar
