import VectorStack.Decimal.Shortest
/-!
Floating-point numbers as text. Printed numbers are positional and carry a fraction only when they
need one; written literals always show that they are floating, and go to exponent notation when
they are very small or very large.
-/

namespace VectorStack.Decimal

/-- The digits of a number as characters. -/
def digitChars (n : Nat) : List Char := Nat.toDigits 10 n

namespace Scaled

/-- Digits before and after the point, without exponent. -/
def positional (decimal : Scaled) : List Char × List Char :=
  let digits := digitChars decimal.digits
  if 0 ≤ decimal.exponent then (digits ++ List.replicate decimal.exponent.toNat '0', [])
  else
    let places := (-decimal.exponent).toNat
    if digits.length ≤ places then (['0'], List.replicate (places - digits.length) '0' ++ digits)
    else (digits.take (digits.length - places), digits.drop (digits.length - places))

/-- One digit, the other digits after a point, and the exponent of ten. -/
def scientific (decimal : Scaled) : List Char :=
  let digits := digitChars decimal.digits
  let exponent := decimal.exponent + (digits.length : Int) - 1
  let fraction := digits.drop 1
  digits.take 1 ++ (if fraction.isEmpty then [] else '.' :: fraction) ++ 'e' ::
    (if exponent < 0 then ['-'] else []) ++ digitChars exponent.natAbs

end Scaled

/-- The text of a number that is not finite, or of a finite one by the given rule for its size. -/
def signed (finite : UInt64 → List Char) (bits : UInt64) : String :=
  if Binary64.isNaN bits then "NaN"
  else
    let size := if Binary64.isInfinite bits then ['i', 'n', 'f'] else finite bits
    String.ofList (if Binary64.isNegative bits then '-' :: size else size)

/-- Positional text, with a point only before a nonempty fraction. -/
def plain (bits : UInt64) : String :=
  signed (fun bits =>
    let (whole, fraction) :=
      if Binary64.isZero bits then (['0'], []) else (shortest (Binary64.magnitude bits)).positional
    if fraction.isEmpty then whole else whole ++ '.' :: fraction) bits

/-- Sizes that a literal writes positionally: from `1e-4` up to but not including `1e16`. -/
def isPositionalLiteral (bits : UInt64) : Bool :=
  let size := Float.ofBits (Binary64.magnitude bits)
  size == 0 || (1e-4 ≤ size && size < 1e16)

/-- Text that reads back as a floating literal: it has a point or an exponent. -/
def literal (bits : UInt64) : String :=
  signed (fun bits =>
    if Binary64.isZero bits then ['0', '.', '0']
    else
      let decimal := shortest (Binary64.magnitude bits)
      if isPositionalLiteral bits then
        let (whole, fraction) := decimal.positional
        whole ++ '.' :: (if fraction.isEmpty then ['0'] else fraction)
      else decimal.scientific) bits

end VectorStack.Decimal
