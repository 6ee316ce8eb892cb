/-
QueryGrammar/Number/Shortest.lean

The shortest decimal text of a double-precision number.

Every finite number is the rounding of an interval of reals, which contains its ends exactly
when the significand is even.  Among the decimal grids `10^j`, from the coarsest to the finest,
the first one with a point in that interval gives the fewest digits that read back; of two such
points the one nearer to the number is taken, and of two equally near ones the even one.

The digits are written positionally while the leading digit stands between `10⁻⁵` and `10¹⁵`,
with at least one digit after the point, and in scientific notation with a signed exponent
otherwise.
-/
import QueryGrammar.Number.Binary64

namespace QueryGrammar

namespace Binary64

/-! ### The rounding interval -/

/-- The lower end of the interval that rounds to `x`, in quarters of `2⁻¹⁰⁷⁴`; the gap below a
power of two is half as wide. -/
def lowerEnd (x : Binary64) : Nat :=
  if x.significand = binade ∧ 0 < x.scale then 4 * x.units - Nat.pow 2 x.scale
  else 4 * x.units - 2 * Nat.pow 2 x.scale

/-- The upper end of the interval that rounds to `x`, in quarters of `2⁻¹⁰⁷⁴`. -/
def upperEnd (x : Binary64) : Nat := 4 * x.units + 2 * Nat.pow 2 x.scale

/-- Whether `n / d` quarters of `2⁻¹⁰⁷⁴` lie in the interval that rounds to `x`. -/
def roundsFrom (x : Binary64) (n d : Nat) : Bool :=
  if x.significand % 2 = 0 then x.lowerEnd * d ≤ n ∧ n ≤ x.upperEnd * d
  else x.lowerEnd * d < n ∧ n < x.upperEnd * d

/-! ### Decimal grids -/

/-- The step of the grid `10^j` in quarters of `2⁻¹⁰⁷⁴`, as a ratio. -/
def gridStep : Int → Nat × Nat
  | .ofNat j => (Nat.pow 10 j * (4 * one), 1)
  | .negSucc j => (4 * one, Nat.pow 10 (j + 1))

/-- The point of the grid `10^j` that stands for `x`, as a multiple of the step: one of the two
neighbours of `x` that rounds to `x`, the nearer of two. -/
def gridPoint? (x : Binary64) (j : Int) : Option Nat :=
  let (n, d) := gridStep j
  let below := 4 * x.units * d / n
  let fits := fun c => x.roundsFrom (c * n) d
  if fits below then
    if fits (below + 1) then some (roundHalfEven (4 * x.units * d) n) else some below
  else if fits (below + 1) then some (below + 1) else none

/-- An exponent of ten beyond the size of `x`; no point of a coarser grid but zero rounds to `x`.
The factor is the logarithm of two, rounded up. -/
def coarsest (x : Binary64) : Int := ((x.units.log2 : Int) - 1072) * 30103 / 100000 + 1

/-- The exponent of the grid that has a point for every finite number. -/
def finest : Int := -324

/-- The fewest digits that read back as `x`, as `c · 10^j`; `(0, 0)` for zero. -/
def shortest (x : Binary64) : Nat × Int :=
  if x.isZero then (0, 0)
  else
    ((List.range (x.coarsest - finest + 1).toNat).findSome? fun (step : Nat) =>
      (x.gridPoint? (x.coarsest - step)).map fun c => (c, x.coarsest - step)).getD (0, 0)

/-! ### Text -/

/-- The digits `0.00ddd`, `dd.dd` or `ddd00.0` of `c · 10^j`. -/
def positional (digits : List Char) (j : Int) : List Char :=
  match j with
  | .ofNat zeros => digits ++ List.replicate zeros '0' ++ ['.', '0']
  | .negSucc places =>
    let places := places + 1
    if places < digits.length then
      digits.take (digits.length - places) ++ '.' :: digits.drop (digits.length - places)
    else '0' :: '.' :: List.replicate (places - digits.length) '0' ++ digits

/-- The text `d.ddde+n` of digits whose first one stands at `10^e`; a single digit has no
point. -/
def scientific (digits : List Char) (e : Int) : List Char :=
  let mantissa :=
    match digits with
    | d :: rest@(_ :: _) => d :: '.' :: rest
    | few => few
  let sign := if e < 0 then '-' else '+'
  mantissa ++ 'e' :: sign :: Nat.toDigits 10 e.natAbs

/-- The shortest text that reads back as `x`. -/
def text (x : Binary64) : String :=
  let (c, j) := x.shortest
  let digits := Nat.toDigits 10 c
  let leading : Int := j + digits.length - 1
  let magnitude :=
    if -5 ≤ leading ∧ leading < 16 then positional digits j else scientific digits leading
  String.ofList (if x.negative then '-' :: magnitude else magnitude)

end Binary64

end QueryGrammar
