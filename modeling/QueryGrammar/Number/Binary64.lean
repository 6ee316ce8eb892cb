/-
QueryGrammar/Number/Binary64.lean

Finite double-precision numbers, without NaN and the infinities.

The finite magnitudes form one increasing sequence `0, 2⁻¹⁰⁷⁴, 2·2⁻¹⁰⁷⁴, …`, so a number is a
sign and the *rank* of its magnitude in that sequence.  With `f = rank % 2⁵²` and
`e = rank / 2⁵²` the magnitude is `f · 2⁻¹⁰⁷⁴` for `e = 0` and `(2⁵² + f) · 2^(e - 1) · 2⁻¹⁰⁷⁴`
otherwise; in both cases

    rank = scale · 2⁵² + significand,        magnitude = significand · 2^scale / 2¹⁰⁷⁴.

Rounding is done on exact ratios of natural numbers: the nearest magnitude, ties to the even
significand, and nothing at all when the nearest magnitude would lie beyond the largest one.
Since a carry out of the significand is just the next rank, rounding needs no case for it.

What is read from a text is always finite.  `Extended64` adds the infinities, for the places that
have to make do with any number but NaN.
-/

namespace QueryGrammar

/-! ### The type -/

/-- The number of magnitudes from a power of two up to the next one. -/
def Binary64.binade : Nat := Nat.pow 2 52

/-- The number of finite magnitudes. -/
def Binary64.rankBound : Nat := 2047 * binade

/-- A finite double-precision number: its sign and the rank of its magnitude. -/
structure Binary64 where
  negative : Bool
  rank : Nat
  rank_lt : rank < Binary64.rankBound
  deriving DecidableEq

namespace Binary64

/-- Positive zero. -/
def zero : Binary64 := ⟨false, 0, by decide⟩

/-- The largest finite number. -/
def largest : Binary64 := ⟨false, rankBound - 1, by decide⟩

instance : Inhabited Binary64 := ⟨zero⟩

/-- The number with the other sign. -/
def neg (x : Binary64) : Binary64 := { x with negative := !x.negative }

/-- Whether the number is one of the two zeros. -/
def isZero (x : Binary64) : Bool := x.rank == 0

/-- Numerical equality: the two zeros are equal, all else differs by sign or magnitude. -/
def same (x y : Binary64) : Bool := x.rank == y.rank && (x.negative == y.negative || x.isZero)

/-- The integer significand, below `2⁵³`. -/
def significand (x : Binary64) : Nat :=
  if x.rank < binade then x.rank else binade + x.rank % binade

/-- The power of two, counted from `2⁻¹⁰⁷⁴`, that the significand is multiplied by. -/
def scale (x : Binary64) : Nat := x.rank / binade - 1

/-- The magnitude in units of `2⁻¹⁰⁷⁴`. -/
def units (x : Binary64) : Nat := x.significand * Nat.pow 2 x.scale

/-! ### Rounding -/

/-- The integer nearest to `n / d`; a tie goes to the even neighbour. -/
def roundHalfEven (n d : Nat) : Nat :=
  let q := n / d
  let r := n % d
  if d < 2 * r ∨ (d = 2 * r ∧ q % 2 = 1) then q + 1 else q

/-- The rank of the magnitude nearest to `n / d` units of `2⁻¹⁰⁷⁴`; it may exceed every finite
rank. -/
def nearestRank (n d : Nat) : Nat :=
  let scale := (n / d).log2 - 52
  scale * binade + roundHalfEven n (d * Nat.pow 2 scale)

/-- The number of the given sign nearest to `n / d` units, if it is finite. -/
def ofUnits? (negative : Bool) (n d : Nat) : Option Binary64 :=
  if h : nearestRank n d < rankBound then some ⟨negative, nearestRank n d, h⟩ else none

/-- The number of units in one. -/
def one : Nat := Nat.pow 2 1074

/-- The number nearest to a natural number, if it is finite. -/
def ofNat? (n : Nat) : Option Binary64 := ofUnits? false (n * one) 1

/-- The number nearest to an integer; integers out of range go to the largest number. -/
def ofInt (i : Int) : Binary64 :=
  let magnitude := (ofNat? i.natAbs).getD largest
  if i < 0 then magnitude.neg else magnitude

/-- The rounded product, if it is finite. -/
def mul? (x y : Binary64) : Option Binary64 :=
  ofUnits? (x.negative != y.negative) (x.units * y.units) one

/-- The rounded quotient, if it is finite. -/
def div? (x y : Binary64) : Option Binary64 :=
  ofUnits? (x.negative != y.negative) (x.units * one) y.units

end Binary64

/-! ### Infinities -/

/-- A double-precision number other than NaN: a finite one, or an infinity of either sign. -/
inductive Extended64 where
  | finite (value : Binary64)
  | infinite (negative : Bool)
  deriving DecidableEq

namespace Extended64

/-- Numerical equality: an infinity is equal to that of its sign only. -/
def same : Extended64 → Extended64 → Bool
  | .finite x, .finite y => x.same y
  | .infinite negative, .infinite negative' => negative == negative'
  | _, _ => false

/-- The representative of the numbers equal to a number: positive zero for both zeros. -/
def canonical : Extended64 → Extended64
  | .finite x => .finite (if x.isZero then .zero else x)
  | .infinite negative => .infinite negative

end Extended64

end QueryGrammar
