import VectorStack.Binary64
/-!
Reading numbers: whole numbers in a radix, and decimal numbers with a fraction and an exponent,
rounded to the nearest double.
-/

namespace VectorStack.Decimal

/-- The value of a digit in radixes up to sixteen. -/
def digitValue (c : Char) : Nat :=
  if c.isDigit then c.toNat - '0'.toNat
  else if 'a' ≤ c ∧ c ≤ 'f' then c.toNat - 'a'.toNat + 10
  else if 'A' ≤ c ∧ c ≤ 'F' then c.toNat - 'A'.toNat + 10
  else 16

/-- The number that digits stand for; none without digits or when one is not of the radix. -/
def ofDigits? (radix : Nat) (digits : List Char) : Option Nat :=
  if digits.isEmpty || digits.any (fun c => radix ≤ digitValue c) then none
  else some (digits.foldl (fun n c => n * radix + digitValue c) 0)

/-- A number below `2 ^ 64`, with an optional plus sign. -/
def unsigned? (radix : Nat) (text : List Char) : Option UInt64 :=
  let digits := if text.head? = some '+' then text.drop 1 else text
  (ofDigits? radix digits).bind fun n => if n < UInt64.size then some (UInt64.ofNat n) else none

/-- The double nearest to `n * 10 ^ exponent`, where `n` has the given number of digits. What is
beyond the range of doubles by many places is not computed. -/
def toFloat (n digits : Nat) (exponent : Int) : Float :=
  if n = 0 then 0.0
  else if 400 < exponent + digits then 1.0 / 0.0
  else if exponent + digits < -400 then 0.0
  else Float.ofScientific n (exponent < 0) exponent.natAbs

/-- An exponent that has grown to this takes no more digits. -/
def exponentLimit : Nat := 0x10000

/-- Add a digit to an exponent, unless it has grown to the limit. -/
def addExponentDigit (n : Nat) (c : Char) : Nat :=
  if n < exponentLimit then n * 10 + digitValue c else n

/-- The exponent that digits stand for, of which those beyond the limit are passed over. -/
def exponentDigits? (digits : List Char) : Option Nat :=
  if digits.isEmpty || digits.any (!·.isDigit) then none
  else some (digits.foldl addExponentDigit 0)

/-- An optional sign and digits, as an exponent. -/
def exponent? (text : List Char) : Option Int :=
  match text with
  | '-' :: digits => (exponentDigits? digits).map fun n => -(n : Int)
  | '+' :: digits => (exponentDigits? digits).map Int.ofNat
  | digits => (exponentDigits? digits).map Int.ofNat

/-- A decimal number with an optional plus sign, an optional fraction and an optional exponent. It
needs a digit before or behind the point. -/
def float? (text : List Char) : Option Float :=
  let text := if text.head? = some '+' then text.drop 1 else text
  let whole := text.takeWhile Char.isDigit
  let rest := text.drop whole.length
  let fraction := if rest.head? = some '.' then (rest.drop 1).takeWhile Char.isDigit else []
  let rest := if rest.head? = some '.' then rest.drop (1 + fraction.length) else rest
  let digits := whole ++ fraction
  let significant := digits.dropWhile (· == '0')
  let scale := fun (exponent : Int) =>
    (ofDigits? 10 digits).map fun n => toFloat n significant.length (exponent - fraction.length)
  match rest with
  | [] => scale 0
  | mark :: exponent =>
    if mark == 'e' || mark == 'E' then (exponent? exponent).bind scale else none

end VectorStack.Decimal
