/-
QueryGrammar/Number/Decimal.lean

Decimal numerals and the numbers they denote.

A numeral without fraction and exponent whose value fits a 64-bit word, signed or unsigned, is
an integer.  Every other numeral is a double-precision number and is valued in two roundings:
its digits are gathered from the left into a 64-bit word for as long as they fit, the word is
rounded, and the result is scaled by the power of ten that the remaining digits and the exponent
ask for (itself rounded, and at most `10³⁰⁸` at a time).  A numeral beyond the largest finite
number denotes nothing; one that is too small denotes a zero of its sign.  Minus zero is kept as
a double-precision number, since no integer can carry its sign.
-/
import QueryGrammar.Number.Binary64

namespace QueryGrammar

/-- A number as data files hold it: an integer or a double-precision number. -/
inductive Number where
  | int (value : Int)
  | float (value : Binary64)
  deriving DecidableEq

/-- The number read as a double-precision number. -/
def Number.toBinary64 : Number → Binary64
  | .int i => .ofInt i
  | .float x => x

/-! ### Words -/

/-- The first natural number beyond 64 bits. -/
def wordBound : Nat := Nat.pow 2 64

/-- The first natural number beyond a signed word of 64 bits. -/
def signedBound : Nat := Nat.pow 2 63

/-! ### Digits -/

/-- The value of a decimal digit. -/
def digit? (c : Char) : Option Nat :=
  if '0' ≤ c ∧ c ≤ '9' then some (c.toNat - '0'.toNat) else none

/-- The value of a hexadecimal digit of either case. -/
def hexDigit? (c : Char) : Option Nat :=
  if '0' ≤ c ∧ c ≤ '9' then some (c.toNat - '0'.toNat)
  else if 'a' ≤ c ∧ c ≤ 'f' then some (c.toNat - 'a'.toNat + 10)
  else if 'A' ≤ c ∧ c ≤ 'F' then some (c.toNat - 'A'.toNat + 10)
  else none

/-- The value of a digit list, most significant digit first. -/
def ofDigits (base : Nat) (digits : List Nat) : Nat :=
  digits.foldl (fun value d => value * base + d) 0

/-! ### Numerals -/

/-- A decimal numeral by its parts: digit values, and the exponent with its sign. -/
structure Numeral where
  negative : Bool := false
  whole : List Nat := []
  fraction : Option (List Nat) := none
  exponent : Option (Bool × List Nat) := none
  deriving DecidableEq

namespace Numeral

/-- Gather digits into a word as long as they fit; the digits left over come second. -/
def gather (word : Nat) : List Nat → Nat × List Nat
  | [] => (word, [])
  | d :: ds => if word * 10 + d < wordBound then gather (word * 10 + d) ds else (word, d :: ds)

/-- The double-precision number nearest to `10ⁿ`, for `n ≤ 308`. -/
def powerOfTen (n : Nat) : Binary64 := (Binary64.ofNat? (Nat.pow 10 n)).getD .largest

/-- Multiply by `10ⁿ`; nothing when the result is not finite. -/
def scaleUp? (x : Binary64) (n : Nat) : Option Binary64 :=
  if n ≤ 308 then x.mul? (powerOfTen n) else if x.isZero then some x else none

/-- Divide by `10ⁿ`, in steps of at most `10³⁰⁸`; two such steps reach zero. -/
def scaleDown? (x : Binary64) (n : Nat) : Option Binary64 :=
  if n ≤ 308 then x.div? (powerOfTen n)
  else if n ≤ 616 then do (← x.div? (powerOfTen 308)).div? (powerOfTen (n - 308))
  else some .zero

/-- Multiply by a power of ten of either sign. -/
def scale? (x : Binary64) : Int → Option Binary64
  | .ofNat n => scaleUp? x n
  | .negSucc n => scaleDown? x (n + 1)

/-- The written exponent. -/
def writtenExponent (n : Numeral) : Int :=
  match n.exponent with
  | none => 0
  | some (minus, digits) =>
    let e : Int := ofDigits 10 digits
    if minus then -e else e

/-- The double-precision number that a numeral denotes, if it is finite. -/
def toBinary64? (n : Numeral) : Option Binary64 := do
  let fraction := n.fraction.getD []
  let (word, leftWhole) := gather 0 n.whole
  let (word, leftFraction) := gather word fraction
  let shift : Int := leftWhole.length - (fraction.length - leftFraction.length : Nat)
  let x ← scale? (← Binary64.ofNat? word) (shift + n.writtenExponent)
  pure (if n.negative then x.neg else x)

/-- The integer that a numeral denotes, if it has neither fraction nor exponent and fits a
64-bit word. -/
def toInt? (n : Numeral) : Option Int :=
  if n.fraction.isSome || n.exponent.isSome then none
  else
    let value := ofDigits 10 n.whole
    if n.negative then
      if 0 < value ∧ value ≤ signedBound then some (-value) else none
    else if value < wordBound then some value else none

/-- The number that a numeral denotes; nothing when it is too large. -/
def toNumber? (n : Numeral) : Option Number :=
  match n.toInt? with
  | some i => some (.int i)
  | none => n.toBinary64?.map .float

end Numeral

end QueryGrammar
