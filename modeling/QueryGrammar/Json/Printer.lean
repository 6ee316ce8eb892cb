/-
QueryGrammar/Json/Printer.lean

The compact text of a JSON value: no blanks, members in the order of the object, and escapes for
the quotation mark, the backslash and the control characters only.
-/
import QueryGrammar.Json.Basic
import QueryGrammar.Number.Shortest

namespace QueryGrammar

/-- The text of a number: integers in decimal, other numbers by their shortest text. -/
def Number.text : Number → String
  | .int i => toString i
  | .float x => x.text

namespace Json

/-- A lower-case hexadecimal digit. -/
def hexDigit (n : Nat) : Char := Nat.digitChar (n % 16)

/-- One character inside a quoted text. -/
def escapeChar (c : Char) : List Char :=
  match c with
  | '"' => ['\\', '"']
  | '\\' => ['\\', '\\']
  | '\x08' => ['\\', 'b']
  | '\x0c' => ['\\', 'f']
  | '\n' => ['\\', 'n']
  | '\r' => ['\\', 'r']
  | '\t' => ['\\', 't']
  | c =>
    if c.toNat < 32 then ['\\', 'u', '0', '0', hexDigit (c.toNat / 16), hexDigit c.toNat] else [c]

/-- A quoted text. -/
def quote (s : String) : String :=
  "\"" ++ String.ofList (s.toList.flatMap escapeChar) ++ "\""

mutual
/-- The compact text of a value. -/
def compact : Json → String
  | .null => "null"
  | .bool true => "true"
  | .bool false => "false"
  | .number n => n.text
  | .string s => quote s
  | .array items => "[" ++ ",".intercalate (compactItems items) ++ "]"
  | .object members => "\x7b" ++ ",".intercalate (compactMembers members) ++ "\x7d"

/-- The compact texts of the elements of an array. -/
def compactItems : List Json → List String
  | [] => []
  | v :: rest => compact v :: compactItems rest

/-- The compact texts of the members of an object. -/
def compactMembers : List (String × Json) → List String
  | [] => []
  | (k, v) :: rest => (quote k ++ ":" ++ compact v) :: compactMembers rest
end

theorem compactItems_eq_map (items : List Json) : compactItems items = items.map compact := by
  induction items with
  | nil => rfl
  | cons v rest ih => rw [compactItems, ih, List.map_cons]

theorem compactMembers_eq_map (members : List (String × Json)) :
    compactMembers members =
      members.map fun member => quote member.1 ++ ":" ++ member.2.compact := by
  induction members with
  | nil => rfl
  | cons member rest ih => rw [compactMembers, ih, List.map_cons]

/-- An array has its elements between brackets, with commas between them. -/
theorem compact_array (items : List Json) :
    (array items).compact = "[" ++ ",".intercalate (items.map compact) ++ "]" := by
  rw [compact, compactItems_eq_map]

/-- An object has its members between braces, with commas between them; a member is its quoted key
and its value, with a colon between them. -/
theorem compact_object (members : List (String × Json)) :
    (object members).compact = "\x7b" ++ ",".intercalate (members.map fun member =>
      quote member.1 ++ ":" ++ member.2.compact) ++ "\x7d" := by
  rw [compact, compactMembers_eq_map]

end Json

end QueryGrammar
