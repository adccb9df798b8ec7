/-! Decimal numerals: a sign, a coefficient and a power of ten, kept without trailing zeros so
that equal numerals of one sign are equal values. The text of a numeral is positional from
ten-thousandths up to sixteen digits before the point, and scientific beyond. -/
namespace Turnstile

/-- The numeral `± coefficient × 10 ^ exponent`. -/
structure Decimal where
  negative : Bool
  coefficient : Nat
  exponent : Int
  deriving DecidableEq

namespace Decimal

/-- Moves the trailing zeros of a coefficient into the exponent. -/
def stripped (coefficient : Nat) (exponent : Int) : Nat × Int :=
  if coefficient = 0 then (0, 0)
  else if coefficient % 10 = 0 then stripped (coefficient / 10) (exponent + 1)
  else (coefficient, exponent)
termination_by coefficient
decreasing_by omega

/-- The numeral of a written number, in its form without trailing zeros. -/
def ofParts (negative : Bool) (coefficient : Nat) (exponent : Int) : Decimal :=
  let parts := stripped coefficient exponent
  ⟨negative, parts.1, parts.2⟩

def isZero (d : Decimal) : Bool := d.coefficient == 0

/-- The integer that a numeral without a fractional part is equal to. -/
def integer? (d : Decimal) : Option Int :=
  if d.exponent < 0 then none
  else
    let magnitude : Int := d.coefficient * Nat.pow 10 d.exponent.toNat
    some (if d.negative then -magnitude else magnitude)

def exponentText (e : Int) : String :=
  let digits := toString e.natAbs
  (if e < 0 then "e-" else "e+") ++ (if digits.length < 2 then "0" ++ digits else digits)

/-- The text of the coefficient's digits with the point put after the power of ten `point`
of the leading digit. -/
def layout (digits : List Char) (point : Int) : String :=
  let count : Int := digits.length
  if point < -4 || 16 ≤ point then
    let tail := digits.drop 1
    String.ofList (digits.take 1) ++ (if tail.isEmpty then "" else "." ++ String.ofList tail) ++
      exponentText point
  else if point < 0 then
    "0." ++ String.ofList (List.replicate (-point - 1).toNat '0' ++ digits)
  else if count ≤ point + 1 then
    String.ofList (digits ++ List.replicate (point + 1 - count).toNat '0') ++ ".0"
  else
    String.ofList (digits.take (point + 1).toNat) ++ "." ++
      String.ofList (digits.drop (point + 1).toNat)

def text (d : Decimal) : String :=
  let digits := (toString d.coefficient).toList
  let unsigned :=
    if d.isZero then "0.0" else layout digits (d.exponent + digits.length - 1)
  if d.negative then "-" ++ unsigned else unsigned

end Decimal

end Turnstile
