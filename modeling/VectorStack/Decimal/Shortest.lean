import VectorStack.Binary64
/-!
The shortest decimal of a binary number: the fewest digits that read back as the same number, of
two such decimals the nearer, and of two equally near the larger.
-/

namespace VectorStack.Decimal

/-- A decimal `digits * 10 ^ exponent`. -/
structure Scaled where
  digits : Nat
  exponent : Int
deriving DecidableEq, Repr

/-- A positive binary number `numerator / denominator` with the ends of the interval of numbers
that round to it, over the same denominator. -/
structure Interval where
  low : Nat
  value : Nat
  high : Nat
  denominator : Nat
  /-- Whether the ends themselves round to the number. -/
  closed : Bool
deriving Repr

namespace Interval

/-- The interval around a positive finite double, given by its bits. -/
def ofBits (bits : UInt64) : Interval :=
  let m := Binary64.significand bits
  let q := Binary64.exponent bits
  let up := 1 <<< q.toNat
  -- below a power of two the neighbours are twice as close
  let below := if m = 0x10000000000000 ∧ -1074 < q then 1 else 2
  { low := (4 * m - below) * up
    value := 4 * m * up
    high := (4 * m + 2) * up
    denominator := 4 <<< (-q).toNat
    closed := m % 2 == 0 }

/-- Rescale so that one step of the grid `10 ^ exponent` is the unit. -/
def onGrid (interval : Interval) (exponent : Int) : Interval :=
  let up := Nat.pow 10 (-exponent).toNat
  { interval with
    low := interval.low * up
    value := interval.value * up
    high := interval.high * up
    denominator := interval.denominator * Nat.pow 10 exponent.toNat }

/-- The grid point `d` is a number that rounds to the value. -/
def holds (interval : Interval) (d : Nat) : Bool :=
  let point := d * interval.denominator
  if interval.closed then interval.low ≤ point && point ≤ interval.high
  else interval.low < point && point < interval.high

/-- The point of the unit grid to print, if one of the two neighbours of the value rounds to it. -/
def nearest? (interval : Interval) : Option Nat :=
  let d := interval.value / interval.denominator
  let rest := interval.value % interval.denominator
  match interval.holds d, interval.holds (d + 1) with
  | false, false => none
  | true, false => some d
  | false, true => some (d + 1)
  | true, true => some (if interval.denominator - rest ≤ rest then d + 1 else d)

/-- Try `count` grids, each ten times finer than the one before. -/
def search (interval : Interval) : Nat → Int → Scaled
  | 0, exponent => ⟨0, exponent⟩
  | count + 1, exponent =>
    match (interval.onGrid exponent).nearest? with
    | some d => ⟨d, exponent⟩
    | none => interval.search count (exponent - 1)

/-- An exponent of ten that the value does not exceed, at most one digit above it. -/
def topExponent (interval : Interval) : Int :=
  let whole := interval.value / interval.denominator
  if whole = 0 then
    1 - ((Nat.toDigits 10 (interval.denominator / interval.value)).length : Int)
  else (Nat.toDigits 10 whole).length

end Interval

/-- Most digits a double needs, with the grids on which its leading digit may fall. -/
def searchedGrids : Nat := 20

/-- The shortest decimal of a positive finite double, given by its bits. -/
def shortest (bits : UInt64) : Scaled :=
  let interval := Interval.ofBits bits
  interval.search searchedGrids interval.topExponent

end VectorStack.Decimal
