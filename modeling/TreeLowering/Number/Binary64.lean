/-
# Finite binary64 numbers

The finite numbers with a 53-bit significand and an 11-bit exponent, kept as an exact
significand and a power of two. Every value has one representation, so equality of
representations is equality of values apart from the two signs of zero. Rounding goes
to the nearest such number, a tie to the even significand; a result outside the finite
range is `none`. No machine arithmetic is involved.
-/

import TreeLowering.Number.Decimal

namespace TreeLowering.Number

/-- A significand and exponent in the one form that represents their value: full
precision, or the least exponent. -/
def IsCanonical (significand : Nat) (exponent : Int) : Prop :=
  significand < Nat.pow 2 53 ∧ -1074 ≤ exponent ∧ exponent ≤ 971 ∧
    (exponent = -1074 ∨ Nat.pow 2 52 ≤ significand)

instance (significand : Nat) (exponent : Int) : Decidable (IsCanonical significand exponent) :=
  inferInstanceAs (Decidable (_ ∧ _))

/-- The number `± significand · 2 ^ exponent`. -/
structure Binary64 where
  negative : Bool
  significand : Nat
  exponent : Int
  canonical : IsCanonical significand exponent
  deriving DecidableEq

/-- The quotient of two numbers rounded to the nearest integer, a half to the even
neighbour. -/
def roundQuotient (numerator denominator : Nat) : Nat :=
  let quotient := numerator / denominator
  let twice := 2 * (numerator % denominator)
  if twice < denominator ∨ (twice = denominator ∧ quotient % 2 = 0) then quotient
  else quotient + 1

/-- Numerator and denominator of a quotient divided by a power of `base`. -/
def scale (base numerator denominator : Nat) (exponent : Int) : Nat × Nat :=
  if exponent < 0 then (numerator * Nat.pow base exponent.natAbs, denominator)
  else (numerator, denominator * Nat.pow base exponent.natAbs)

/-- The exponent of the greatest power of two not above a positive quotient. -/
def floorLog2 (numerator denominator : Nat) : Int :=
  let guess : Int := numerator.log2 - denominator.log2
  let (n, d) := scale 2 numerator denominator guess
  if d ≤ n then guess else guess - 1

namespace Binary64

/-- Zero with a sign. -/
def zero (negative : Bool) : Binary64 :=
  ⟨negative, 0, -1074, by decide⟩

/-- The number with the given significand and exponent, if the format has it in that
form. -/
def ofParts? (negative : Bool) (significand : Nat) (exponent : Int) : Option Binary64 :=
  if h : IsCanonical significand exponent then some ⟨negative, significand, exponent, h⟩
  else none

/-- The finite number nearest to a positive quotient. A significand that rounds up to
the next power of two moves into the next exponent. -/
def ofQuotient? (negative : Bool) (numerator denominator : Nat) : Option Binary64 :=
  let exponent := max (floorLog2 numerator denominator - 52) (-1074)
  let (n, d) := scale 2 numerator denominator exponent
  let significand := roundQuotient n d
  if significand = Nat.pow 2 53 then ofParts? negative (Nat.pow 2 52) (exponent + 1)
  else ofParts? negative significand exponent

/-- The finite number nearest to a decimal. Beyond `10 ^ 400` there is none, and below
`10 ^ (-400)` it is zero, which is decided without computing the power. -/
def ofDecimal? (d : Decimal) : Option Binary64 :=
  if d.coefficient = 0 then some (zero d.negative)
  else if 400 < d.exponent then none
  else if d.exponent + (d.coefficient.log2 + 1) < -400 then some (zero d.negative)
  else
    let (n, m) := scale 10 d.coefficient 1 (-d.exponent)
    ofQuotient? d.negative n m

/-- The magnitude as a quotient of natural numbers. -/
def toQuotient (x : Binary64) : Nat × Nat :=
  scale 2 x.significand 1 (-x.exponent)

/-- The integer part: the fraction is dropped, which moves toward zero. -/
def truncate (x : Binary64) : Int :=
  let (n, d) := x.toQuotient
  if x.negative then -(Int.ofNat (n / d)) else Int.ofNat (n / d)

end Binary64

end TreeLowering.Number
