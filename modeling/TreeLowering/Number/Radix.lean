/-
# Integers in positional notation

Reading of natural and signed numbers in a given base over lists of characters. A
numeral has at least one digit; a signed numeral may have one leading sign. Range
limits are applied by `word64?`, never by the evaluation itself, so no value wraps.
-/

namespace TreeLowering.Number

/-- The value of a digit in `base`, where letters of either case follow the digit
nine. -/
def digit? (base : Nat) (c : Char) : Option Nat :=
  let value :=
    if '0' ≤ c ∧ c ≤ '9' then some (c.toNat - '0'.toNat)
    else if 'a' ≤ c ∧ c ≤ 'z' then some (c.toNat - 'a'.toNat + 10)
    else if 'A' ≤ c ∧ c ≤ 'Z' then some (c.toNat - 'A'.toNat + 10)
    else none
  value.filter (· < base)

/-- The number that a run of digits continues to, once its first digits gave `value`. -/
def continueNatural? (base value : Nat) : List Char → Option Nat
  | [] => some value
  | c :: rest => (digit? base c).bind fun d => continueNatural? base (value * base + d) rest

/-- A natural number: one or more digits of the base and nothing else. -/
def natural? (base : Nat) : List Char → Option Nat
  | [] => none
  | digits => continueNatural? base 0 digits

/-- An integer: a natural number with at most one sign before it. -/
def integer? (base : Nat) : List Char → Option Int
  | '+' :: digits => (natural? base digits).map Int.ofNat
  | '-' :: digits => (natural? base digits).map fun n => -(Int.ofNat n)
  | digits => (natural? base digits).map Int.ofNat

/-- Whether an integer fits a signed word of 64 bits. -/
def fitsWord64 (n : Int) : Bool :=
  decide (-Int.pow 2 63 ≤ n) && decide (n < Int.pow 2 63)

/-- An integer that fits a signed word of 64 bits. -/
def word64? (base : Nat) (digits : List Char) : Option Int :=
  (integer? base digits).filter fitsWord64

/-- The decimal digits of a natural number, without leading zeros. -/
def decimalDigits (n : Nat) : List Char :=
  Nat.toDigits 10 n

/-- An integer in decimal, with a sign only when it is negative. -/
def decimalText (n : Int) : List Char :=
  if n < 0 then '-' :: decimalDigits n.natAbs else decimalDigits n.natAbs

end TreeLowering.Number
