/-!
Floating-point numbers as their 64 bits. Operations that only move or test bits are done on the
bits, so that a number which is not a number keeps its payload through them; the floored remainder
is computed exactly on integers.
-/

namespace VectorStack.Binary64

/-- The bit that holds the sign. -/
def signBit : UInt64 := 0x8000000000000000

def isNegative (bits : UInt64) : Bool := bits &&& signBit != 0

/-- The bits without the sign. -/
def magnitude (bits : UInt64) : UInt64 := bits &&& 0x7fffffffffffffff

/-- The bits of positive infinity; every larger magnitude is not a number. -/
def infinity : UInt64 := 0x7ff0000000000000

def isNaN (bits : UInt64) : Bool := infinity < magnitude bits

def isInfinite (bits : UInt64) : Bool := magnitude bits == infinity

def isZero (bits : UInt64) : Bool := magnitude bits == 0

/-- Turn the sign, whatever the number. -/
def negate (bits : UInt64) : UInt64 := bits ^^^ signBit

/-- Integer significand of a finite number. -/
def significand (bits : UInt64) : Nat :=
  let fraction := (bits &&& 0x000fffffffffffff).toNat
  if (magnitude bits >>> 52) == 0 then fraction else fraction + 0x10000000000000

/-- Exponent of two that goes with the integer significand. -/
def exponent (bits : UInt64) : Int :=
  let field := (magnitude bits >>> 52).toNat
  (max field 1 : Nat) - 1075

/-- Widen the bits of a single-precision number. -/
def ofSingle (single : UInt32) : UInt64 :=
  if 0x7f800000 < (single &&& 0x7fffffff) then
    let sign : UInt64 := (single >>> 31).toUInt64 <<< 63
    sign ||| 0x7ff8000000000000 ||| ((single &&& 0x007fffff).toUInt64 <<< (29 : UInt64))
  else (Float32.ofBits single).toFloat.toBits

/-- Round to the bits of a single-precision number. -/
def toSingle (bits : UInt64) : UInt32 :=
  if isNaN bits then
    let sign : UInt32 := (bits >>> 63).toUInt32 <<< 31
    sign ||| 0x7fc00000 ||| ((bits >>> (29 : UInt64)).toUInt32 &&& 0x003fffff)
  else (Float.ofBits bits).toFloat32.toBits

/-- The number `significand * 2 ^ exponent`, for a significand that fits a double exactly. -/
def ofParts (negative : Bool) (significand : Nat) (exponent : Int) : Float :=
  let size := (UInt64.ofNat significand).toFloat.scaleB exponent
  if negative then -size else size

/-- Remainder of truncated division, with the sign of the dividend. It is exact. -/
def truncatedRemainder (a b : UInt64) : Float :=
  if isNaN a || isNaN b || isInfinite a || isZero b then 0.0 / 0.0
  else if isInfinite b then Float.ofBits a
  else
    let low := min (exponent a) (exponent b)
    let dividend := significand a <<< (exponent a - low).toNat
    let divisor := significand b <<< (exponent b - low).toNat
    ofParts (isNegative a) (dividend % divisor) low

/-- Remainder of floored division: a nonzero remainder has the sign of the divisor. -/
def flooredRemainder (a b : UInt64) : Float :=
  let r := truncatedRemainder a b
  let divisor := Float.ofBits b
  if r != 0 && (decide (r < 0) != decide (divisor < 0)) then r + divisor else r

/-- The order of two numbers; none when one of them is not a number. -/
def compare (a b : UInt64) : Option Ordering :=
  let x := Float.ofBits a
  let y := Float.ofBits b
  if x < y then some .lt else if y < x then some .gt else if x == y then some .eq else none

end VectorStack.Binary64
