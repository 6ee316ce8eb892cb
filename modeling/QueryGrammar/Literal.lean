/-
QueryGrammar/Literal.lean

The literal values that conditions compare against.

Texts are taken without the quotation marks around them, and numbers may be infinite, although
those of operands never are.  A derivation refers to literals by their places in a `LiteralPool`,
in which equal literals share a place: the first of them stays.  Equality is that of the values, so
the two zeros are one literal although they are written differently; `Literal.canonical` picks one
representative of every class of equal literals, by which the pool looks up places.
-/
import QueryGrammar.Failure
import QueryGrammar.Json.Basic
import QueryGrammar.Query.Decode

namespace QueryGrammar

/-- A literal value. -/
inductive Literal where
  | text (value : String)
  | number (value : Extended64)
  | column (use : ColumnUse)
  deriving DecidableEq

/-- Whether a character is a quotation mark. -/
def isQuotationMark (c : Char) : Bool := c = '\x27' || c = '"'

/-- A text without the quotation marks at its two ends. -/
def trimQuotationMarks (s : String) : String :=
  let inner := s.toList.dropWhile isQuotationMark
  String.ofList (inner.reverse.dropWhile isQuotationMark).reverse

namespace Literal

/-- The literal that an operand stands for; a query stands for none. -/
def ofOperand : Operand → Except Failure Literal
  | .text s => .ok (.text (trimQuotationMarks s))
  | .number x => .ok (.number (.finite x))
  | .column use => .ok (.column use)
  | .query _ => .error (.malformed .nestedLiteral)

/-- Equality of values: the two zeros are equal. -/
def same : Literal → Literal → Bool
  | .text a, .text b => a = b
  | .number x, .number y => x.same y
  | .column a, .column b => a = b
  | _, _ => false

/-- The representative of the literals equal to a literal. -/
def canonical : Literal → Literal
  | .number x => .number x.canonical
  | literal => literal

/-- The JSON value of a literal; there is no number for an infinity. -/
def toJson : Literal → Json
  | .text s => .string s
  | .number (.finite x) => .number (.float x)
  | .number (.infinite _) => .null
  | .column use => use.toJson

end Literal

/-- Literals in the order of their first use, with their places. -/
structure LiteralPool where
  /-- The literals, the latest first. -/
  latest : List Literal := []
  /-- The places of the canonical literals. -/
  places : List (Literal × Nat) := []

namespace LiteralPool

/-- The literals by their places. -/
def toList (pool : LiteralPool) : List Literal := pool.latest.reverse

/-- The place of a literal, which is added if no equal one is there. -/
def insert (pool : LiteralPool) (literal : Literal) : Nat × LiteralPool :=
  match pool.places.lookup literal.canonical with
  | some place => (place, pool)
  | none =>
    let place := pool.latest.length
    (place,
      { latest := literal :: pool.latest, places := (literal.canonical, place) :: pool.places })

end LiteralPool

end QueryGrammar
