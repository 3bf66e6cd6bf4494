import VectorStack.DataType
import VectorStack.Decimal.Text
/-!
Arithmetic on 64-bit cells. A cell does not know what it holds: the numeric mode decides how its
bits are read, as an unsigned number, a signed number or a floating-point number. The main
statements give the numeric value of the powers, and say that the signed reading is recovered from
the bits it is stored as.
-/

namespace VectorStack

/-- One storage cell of a lane. -/
abbrev Cell := UInt64

namespace Cell

/-- The two's complement reading of a cell. -/
def signed (cell : Cell) : Int :=
  if cell.toNat < 0x8000000000000000 then cell.toNat
  else (cell.toNat : Int) - 0x10000000000000000

/-- The cell whose two's complement reading is congruent to a number. -/
def ofInt (n : Int) : Cell := UInt64.ofNat (n % 0x10000000000000000).toNat

/-- The floating-point reading of a cell. -/
def float (cell : Cell) : Float := Float.ofBits cell

def ofFloat (x : Float) : Cell := x.toBits

/-- A floating-point cell truncated to a signed number, clamped to its range; none is zero. -/
def truncateSigned (cell : Cell) : Cell := cell.float.toInt64.toUInt64

/-- A floating-point cell truncated to an unsigned number, clamped to its range; none is zero. -/
def truncateUnsigned (cell : Cell) : Cell := cell.float.toUInt64

/-- The floating-point cell nearest to a signed one. -/
def floatOfSigned (cell : Cell) : Cell := ofFloat cell.toInt64.toFloat

/-- The floating-point cell nearest to an unsigned one. -/
def floatOfUnsigned (cell : Cell) : Cell := ofFloat cell.toFloat

/-- Power by repeated squaring, wrapping at 64 bits. -/
def power (base : Cell) (exponent : Nat) : Cell :=
  if exponent = 0 then 1
  else
    let rest := power (base * base) (exponent / 2)
    if exponent % 2 = 1 then base * rest else rest
termination_by exponent
decreasing_by omega

theorem toNat_ofInt (n : Int) : ((ofInt n).toNat : Int) = n % 0x10000000000000000 := by
  rw [ofInt, UInt64.toNat_ofNat']
  omega

theorem signed_emod (cell : Cell) : cell.signed % 0x10000000000000000 = cell.toNat := by
  have hlt := cell.toNat_lt
  unfold signed
  omega

theorem signed_bounds (cell : Cell) :
    -0x8000000000000000 ≤ cell.signed ∧ cell.signed < 0x8000000000000000 := by
  have hlt := cell.toNat_lt
  unfold signed
  omega

theorem ofInt_signed (cell : Cell) : ofInt cell.signed = cell := by
  have hcell := signed_emod cell
  have hback := toNat_ofInt cell.signed
  apply UInt64.toNat_inj.1
  omega

theorem signed_ofInt {n : Int} (hlow : -0x8000000000000000 ≤ n) (hhigh : n < 0x8000000000000000) :
    (ofInt n).signed = n := by
  have hmod := toNat_ofInt n
  unfold signed
  omega

theorem toNat_mul (a b : Cell) : (a * b).toNat = a.toNat * b.toNat % 0x10000000000000000 :=
  UInt64.toNat_mul a b

theorem toNat_power (base : Cell) (exponent : Nat) :
    (power base exponent).toNat = Nat.pow base.toNat exponent % 0x10000000000000000 := by
  simp only [Nat.pow_eq]
  induction exponent using Nat.strongRecOn generalizing base with
  | ind exponent ih =>
      rw [power]
      split
      · next hzero => simp [hzero]
      · next hne =>
          have hhalf := ih (exponent / 2) (by omega) (base * base)
          rw [toNat_mul, ← Nat.pow_mod, ← Nat.pow_two, ← Nat.pow_mul] at hhalf
          split
          · next hodd =>
              have hexponent : exponent = 2 * (exponent / 2) + 1 := by omega
              rw [toNat_mul, hhalf, Nat.mul_mod_mod]
              conv => rhs; rw [hexponent, Nat.pow_succ, Nat.mul_comm]
          · next heven =>
              have hexponent : exponent = 2 * (exponent / 2) := by omega
              rw [hhalf]
              conv => rhs; rw [hexponent]

end Cell

namespace Mode

/-- The cell of this mode that stands for what `cell` means in mode `source`. Integer modes share
their bits. -/
def convert (mode : Mode) (cell : Cell) (source : Mode) : Cell :=
  match source, mode with
  | .float, .signed => cell.truncateSigned
  | .float, .unsigned => cell.truncateUnsigned
  | .signed, .float => cell.floatOfSigned
  | .unsigned, .float => cell.floatOfUnsigned
  | _, _ => cell

def toFloat (mode : Mode) (cell : Cell) : Float := (Mode.float.convert cell mode).float

def ofFloat (mode : Mode) (x : Float) : Cell := mode.convert (Cell.ofFloat x) .float

def ofInt (mode : Mode) (n : Int) : Cell := mode.convert (Cell.ofInt n) .signed

/-- A function on bits; floating-point cells go through signed numbers and back. -/
def onBits (mode : Mode) (f : Cell → Cell → Cell) (a b : Cell) : Cell :=
  match mode with
  | .float => (f a.truncateSigned b.truncateSigned).floatOfSigned
  | _ => f a b

def not (mode : Mode) (a : Cell) : Cell := mode.onBits (fun x _ => ~~~x) a 0

def and (mode : Mode) (a b : Cell) : Cell := mode.onBits (· &&& ·) a b

def or (mode : Mode) (a b : Cell) : Cell := mode.onBits (· ||| ·) a b

def xor (mode : Mode) (a b : Cell) : Cell := mode.onBits (· ^^^ ·) a b

/-- Shift left by the low six bits of the amount. -/
def shl (mode : Mode) (a b : Cell) : Cell := mode.onBits (· <<< ·) a b

/-- Shift right by the low six bits of the amount, keeping the sign except in unsigned mode. -/
def shr (mode : Mode) (a b : Cell) : Cell :=
  match mode with
  | .unsigned => a >>> b
  | _ => mode.onBits (fun x y => Cell.ofInt (x.signed >>> (y.toNat % 64))) a b

def add (mode : Mode) (a b : Cell) : Cell :=
  match mode with
  | .float => Cell.ofFloat (a.float + b.float)
  | _ => a + b

def sub (mode : Mode) (a b : Cell) : Cell :=
  match mode with
  | .float => Cell.ofFloat (a.float - b.float)
  | _ => a - b

def mul (mode : Mode) (a b : Cell) : Cell :=
  match mode with
  | .float => Cell.ofFloat (a.float * b.float)
  | _ => a * b

/-- Division truncated toward zero; an integer divided by zero is zero. -/
def div (mode : Mode) (a b : Cell) : Cell :=
  match mode with
  | .unsigned => a / b
  | .signed => Cell.ofInt (a.signed.tdiv b.signed)
  | .float => Cell.ofFloat (a.float / b.float)

/-- Floored remainder, which has the sign of the divisor; an integer remainder by zero is zero. -/
def mod (mode : Mode) (a b : Cell) : Cell :=
  match mode with
  | .unsigned => if b = 0 then 0 else a % b
  | .signed => if b = 0 then 0 else Cell.ofInt (a.signed.fmod b.signed)
  | .float => Cell.ofFloat (Binary64.flooredRemainder a b)

/-- Power; an integer to a negative power is one. -/
def pow (mode : Mode) (a b : Cell) : Cell :=
  match mode with
  | .float => Cell.ofFloat (a.float.pow b.float)
  | _ => a.power b.signed.toNat

def neg (mode : Mode) (a : Cell) : Cell :=
  match mode with
  | .float => Binary64.negate a
  | _ => 0 - a

def abs (mode : Mode) (a : Cell) : Cell :=
  match mode with
  | .unsigned => a
  | .signed => Cell.ofInt a.signed.natAbs
  | .float => Binary64.magnitude a

/-- How two cells compare; `none` only when one of two floating-point cells is not a number. -/
def compare (mode : Mode) (a b : Cell) : Option Ordering :=
  match mode with
  | .unsigned => some (Ord.compare a.toNat b.toNat)
  | .signed => some (Ord.compare a.signed b.signed)
  | .float => Binary64.compare a b

/-- Minus one, zero or one in this mode. -/
def sign (mode : Mode) (a : Cell) : Cell :=
  match mode.compare a 0 with
  | some .lt => mode.ofInt (-1)
  | some .gt => mode.ofInt 1
  | _ => 0

/-- The smaller cell, the first one unless the second is known to be smaller. -/
def min (mode : Mode) (a b : Cell) : Cell := if mode.compare a b = some .gt then b else a

/-- The larger cell, the first one unless the second is known to be larger. -/
def max (mode : Mode) (a b : Cell) : Cell := if mode.compare a b = some .lt then b else a

/-- A cell from 64 random bits: the bits themselves, or a floating-point number in `[0, 1)`. -/
def ofRandomBits (mode : Mode) (bits : UInt64) : Cell :=
  match mode with
  | .float => Cell.ofFloat ((bits >>> 11).toFloat / 9007199254740992.0)
  | _ => bits

/-- The cell as decimal text. -/
def format (mode : Mode) (cell : Cell) : String :=
  match mode with
  | .unsigned => Nat.repr cell.toNat
  | .signed => Int.repr cell.signed
  | .float => Decimal.plain cell

end Mode

end VectorStack
