/-
# Decimal fractions

Numbers of the form `c · 10^e` and their written form: digits with an optional point
and an optional exponent. The value is kept exactly; rounding is the business of
`Number.Binary64`.
-/

import TreeLowering.Number.Radix

namespace TreeLowering.Number

/-- The exact number `± coefficient · 10 ^ exponent`. -/
structure Decimal where
  negative : Bool
  coefficient : Nat
  exponent : Int
  deriving DecidableEq

namespace Decimal

/-- Digits before and after the point, followed by an exponent. -/
def assemble (negative : Bool) (whole fraction : List Char) (exponent : Int) : Decimal where
  negative := negative
  coefficient := (continueNatural? 10 0 (whole ++ fraction)).getD 0
  exponent := exponent - fraction.length

/-- The exponent part that ends a numeral: nothing, or a letter `e` of either case and
an integer. -/
def exponent? : List Char → Option Int
  | [] => some 0
  | 'e' :: digits => integer? 10 digits
  | 'E' :: digits => integer? 10 digits
  | _ => none

/-- The digits after a point and what follows them. Without a point there are none. -/
def splitFraction : List Char → List Char × List Char
  | '.' :: rest => (rest.takeWhile Char.isDigit, rest.dropWhile Char.isDigit)
  | rest => ([], rest)

/-- A numeral without its sign: digits with at most one point, at least one digit on
one of its sides, and an optional exponent. -/
def magnitude? (negative : Bool) (text : List Char) : Option Decimal :=
  let whole := text.takeWhile Char.isDigit
  let (fraction, rest) := splitFraction (text.dropWhile Char.isDigit)
  if whole.isEmpty && fraction.isEmpty then none
  else (exponent? rest).map (assemble negative whole fraction)

/-- A decimal numeral with at most one leading sign. Names such as `inf` are not
numerals. -/
def read? : List Char → Option Decimal
  | '+' :: text => magnitude? false text
  | '-' :: text => magnitude? true text
  | text => magnitude? false text

end Decimal

end TreeLowering.Number
