/-
# Shortest decimal text

The decimal text of a binary64 number: the fewest digits that read back as the same
number and, of those, the nearest ones. Digits are found in exact integer arithmetic
as the first point that some decimal grid, taken from coarse to fine, has inside the
interval of reals that round to the number. Where the point and the exponent go is
the matter of one record, `Layout`.
-/

import TreeLowering.Number.Binary64

namespace TreeLowering.Number

/-- Whether the positive number `p / q` rounds to `x`. The bounds are the midpoints to
the neighbouring numbers and belong to the interval when the significand is even.
Below a power of two the neighbour is half as far away. -/
def Binary64.covers (x : Binary64) (p q : Nat) : Bool :=
  let nearer := x.significand = Nat.pow 2 52 ∧ -1074 < x.exponent
  let (below, above, exponent) :=
    if nearer then (4 * x.significand - 1, 4 * x.significand + 2, x.exponent - 2)
    else (2 * x.significand - 1, 2 * x.significand + 1, x.exponent - 1)
  let (n, d) := scale 2 p q exponent
  if x.significand % 2 = 0 then below * d ≤ n && n ≤ above * d
  else below * d < n && n < above * d

/-- The point of the grid of multiples of `10 ^ exponent` that stands for `x`: of the
two points around `x`, one that rounds to `x`, the nearer if both do, and the even one
if they are equally near. -/
def Binary64.gridPoint? (x : Binary64) (exponent : Int) : Option Nat :=
  let (n, d) := x.toQuotient
  let (n, d) := scale 10 n d exponent
  let lower := n / d
  let covered (c : Nat) : Bool :=
    let (p, q) := scale 10 c 1 (-exponent)
    0 < c && x.covers p q
  match covered lower, covered (lower + 1) with
  | true, true => some (roundQuotient n d)
  | true, false => some lower
  | false, true => some (lower + 1)
  | false, false => none

/-- A positive number without the trailing zeros of its coefficient, of which there
are at most `fuel`. -/
def stripZeros : Nat → Nat → Int → Nat × Int
  | 0, coefficient, exponent => (coefficient, exponent)
  | fuel + 1, coefficient, exponent =>
    if coefficient % 10 = 0 then stripZeros fuel (coefficient / 10) (exponent + 1)
    else (coefficient, exponent)

/-- The exact value of a nonzero number in decimal. -/
def Binary64.exactDecimal (x : Binary64) : Nat × Int :=
  if x.exponent < 0 then (x.significand * Nat.pow 5 x.exponent.natAbs, x.exponent)
  else (x.significand * Nat.pow 2 x.exponent.natAbs, 0)

/-- An exponent whose power of ten is above the number. -/
def Binary64.decimalBound (x : Binary64) : Int :=
  let (n, d) := x.toQuotient
  (floorLog2 n d + 1) * 30103 / 100000 + 2

/-- Coefficient and exponent of the shortest decimal that reads back as a nonzero
number. Twenty grids below the bound reach the seventeen digits that always suffice;
the exact value stands behind them. -/
def Binary64.shortest (x : Binary64) : Nat × Int :=
  let grids := (List.range 21).map fun (k : Nat) => x.decimalBound - (k : Int)
  let found := grids.findSome? fun e => (x.gridPoint? e).map fun c => (c, e)
  let (coefficient, exponent) := found.getD x.exactDecimal
  stripZeros 20 coefficient exponent

/-- Where a written number changes from positional to scientific form, by the decimal
exponent of its first digit. -/
structure Layout where
  leastPositional : Int
  greatestPositional : Int

/-- Numbers from `0.00001` up to sixteen digits before the point are positional. -/
def numberLayout : Layout := ⟨-5, 15⟩

/-- Digits with a point after the first `places` of them, zeros filling up both sides
to at least one digit. -/
def positional (digits : List Char) (places : Int) : List Char :=
  if places ≤ 0 then
    '0' :: '.' :: (List.replicate places.natAbs '0' ++ digits)
  else
    let n := places.toNat
    let whole := digits.take n
    let fraction := digits.drop n
    whole ++ List.replicate (n - digits.length) '0' ++
      '.' :: (if fraction.isEmpty then ['0'] else fraction)

/-- One digit, the others after a point, and the exponent with its sign. -/
def scientific (digits : List Char) (exponent : Int) : List Char :=
  let mantissa := match digits with
    | [] => []
    | [d] => [d]
    | d :: rest => d :: '.' :: rest
  mantissa ++ 'e' :: (if exponent < 0 then '-' else '+') :: decimalDigits exponent.natAbs

/-- The text of a number; a negative zero keeps its sign. -/
def Binary64.text (x : Binary64) : List Char :=
  let magnitude :=
    if x.significand = 0 then ['0', '.', '0']
    else
      let (coefficient, exponent) := x.shortest
      let digits := decimalDigits coefficient
      let first := exponent + digits.length - 1
      if numberLayout.leastPositional ≤ first && first ≤ numberLayout.greatestPositional then
        positional digits (first + 1)
      else scientific digits first
  if x.negative then '-' :: magnitude else magnitude

end TreeLowering.Number
