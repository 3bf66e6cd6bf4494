import VectorStack.Cell
import VectorStack.Decimal.Reader
/-!
Numbers as programs write them: 64-bit integers, which wrap, and floating-point numbers. Integers
above the signed range keep their bits.
-/

namespace VectorStack

/-- The value of a numeric literal or of a constant expression. -/
inductive Number where
  | integer (cell : Cell)
  | real (cell : Cell)
deriving DecidableEq, Repr, Inhabited

namespace Number

def ofNat (n : Nat) : Number := integer (UInt64.ofNat n)

/-- The nearest floating-point number. -/
def toFloat : Number → Float
  | integer cell => cell.floatOfSigned.float
  | real cell => cell.float

def isZero : Number → Bool
  | integer cell => cell == 0
  | real cell => Binary64.isZero cell

def neg : Number → Number
  | integer cell => integer (0 - cell)
  | real cell => real (Binary64.negate cell)

/-- The integer, when it is one that is not negative. -/
def natural? : Number → Option Nat
  | integer cell => if 0 ≤ cell.signed then some cell.toNat else none
  | real _ => none

/-- The cell of a lane in the given mode that holds this number. -/
def toCell (mode : Mode) : Number → Cell
  | integer cell => mode.convert cell .signed
  | real cell => mode.convert cell .float

/-- The sum, which is an integer when both numbers are. -/
def add : Number → Number → Number
  | integer a, integer b => integer (a + b)
  | a, b => real (Cell.ofFloat (a.toFloat + b.toFloat))

/-- The number as a literal, with a minus sign where it is negative. -/
def literal : Number → String
  | integer cell => Int.repr cell.signed
  | real cell => Decimal.literal cell

/-- A literal without sign: hexadecimal behind `0x`, binary behind `0b`, floating-point when it has
a point or an exponent, else decimal. -/
def parseMagnitude? : List Char → Option Number
  | '0' :: 'x' :: digits | '0' :: 'X' :: digits => (Decimal.unsigned? 16 digits).map integer
  | '0' :: 'b' :: digits | '0' :: 'B' :: digits => (Decimal.unsigned? 2 digits).map integer
  | text =>
    if text.any (fun c => c == '.' || c == 'e' || c == 'E') then
      (Decimal.float? text).map fun x => real (Cell.ofFloat x)
    else (Decimal.unsigned? 10 text).map integer

/-- A literal; every leading minus sign turns its sign. -/
def parse? : List Char → Option Number
  | '-' :: rest => (parse? rest).map neg
  | text => parseMagnitude? text

end Number

end VectorStack
