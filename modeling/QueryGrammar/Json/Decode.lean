/-
QueryGrammar/Json/Decode.lean

Reading values of basic kinds out of JSON.

A value of another kind is `wrongKind`; an integer of the right kind that does not fit is
`outOfRange`.  A number with a fraction or an exponent is no integer, but an integer serves as a
number.  Tuples are arrays and are read from the left: the first element that cannot be read is
the error, and only then the length.  `Elements` reads a tuple element by element; the equations
`tuple_element` and `tuple_pure` say how.
-/
import QueryGrammar.Json.Basic
import QueryGrammar.ReadError

namespace QueryGrammar.Json

/-! ### Basic kinds -/

/-- A truth value. -/
def boolean : Json → Except ReadError Bool
  | .bool b => .ok b
  | _ => .error .wrongKind

/-- A text. -/
def text : Json → Except ReadError String
  | .string s => .ok s
  | _ => .error .wrongKind

/-- A number. -/
def real : Json → Except ReadError Binary64
  | .number n => .ok n.toBinary64
  | _ => .error .wrongKind

/-- A natural number below a bound. -/
def natBelow (bound : Nat) : Json → Except ReadError Nat
  | .number (.int (.ofNat n)) => if n < bound then .ok n else .error .outOfRange
  | .number (.int (.negSucc _)) => .error .outOfRange
  | _ => .error .wrongKind

/-- An unsigned 64-bit number, such as an identifier. -/
def nat : Json → Except ReadError Nat := natBelow wordBound

/-- An unsigned 8-bit number, such as a code. -/
def byte : Json → Except ReadError Nat := natBelow 256

/-- A natural number is read back wherever it is below the bound. -/
theorem natBelow_ofNat (bound n : Nat) :
    (ofNat n).natBelow bound = if n < bound then .ok n else .error .outOfRange := rfl

/-- A value that may be absent, written as null. -/
def optional {α : Type} (value : Json → Except ReadError α) : Json → Except ReadError (Option α)
  | .null => .ok none
  | v => some <$> value v

/-- The elements of an array, all read alike. -/
def list {α : Type} (item : Json → Except ReadError α) : Json → Except ReadError (List α)
  | .array items => items.mapM item
  | _ => .error .wrongKind

/-- One of two names, told by whether it is the first: a text, or an object with the name as its
only key and null as its value. -/
def isFirstName (first second : String) : Json → Except ReadError Bool
  | .string s => known s
  | .object [(k, v)] => do
    let isFirst ← known k
    match v with
    | .null => pure isFirst
    | _ => throw .wrongKind
  | .object _ => .error .outOfRange
  | _ => .error .wrongKind
where
  /-- Tell the two names apart. -/
  known (name : String) : Except ReadError Bool :=
    if name = first then .ok true
    else if name = second then .ok false
    else .error (.unknownName name first second)

/-! ### Tuples -/

/-- A reading of the elements of an array that are still to come. -/
abbrev Elements := StateT (List Json) (Except ReadError)

/-- Read the next element. -/
def element {α : Type} (value : Json → Except ReadError α) : Elements α := fun
  | [] => .error .wrongLength
  | v :: rest => do pure (← value v, rest)

/-- Read an array to its end. -/
def tuple {α : Type} (elements : Elements α) : Json → Except ReadError α
  | .array items => do
    let (x, rest) ← elements items
    if rest.isEmpty then pure x else throw .wrongLength
  | _ => .error .wrongKind

/-- A reading that wants an element reads the first one, and then the others. -/
theorem tuple_element {α β : Type} (value : Json → Except ReadError α) (next : α → Elements β)
    (v : Json) (rest : List Json) :
    tuple (element value >>= next) (.array (v :: rest)) =
      value v >>= fun x => tuple (next x) (.array rest) := by
  show tuple (fun items => element value items >>= fun p => next p.1 p.2) (.array (v :: rest)) = _
  simp only [tuple, element]
  cases value v <;> rfl

/-- A reading that wants an element fails at the end of the array. -/
theorem tuple_element_nil {α β : Type} (value : Json → Except ReadError α)
    (next : α → Elements β) :
    tuple (element value >>= next) (.array []) = .error .wrongLength := rfl

/-- A reading that wants no more elements asks for the end of the array. -/
theorem tuple_pure {α : Type} (x : α) (items : List Json) :
    tuple (pure x) (.array items) = if items.isEmpty then .ok x else .error .wrongLength := rfl

end QueryGrammar.Json
