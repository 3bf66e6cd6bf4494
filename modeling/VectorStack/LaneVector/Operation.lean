import VectorStack.LaneVector
import VectorStack.Opcode
/-!
The operations on lane vectors. Arithmetic is done in the mode of the first input, and every result
lane is then converted to the mode of the output it goes to. Inputs narrower than the output
repeat their lanes.
-/

namespace VectorStack

/-- Type and width of a vector that is still to be computed. -/
structure Shape where
  type : DataType
  width : Nat
deriving DecidableEq, Repr

namespace Shape

/-- Bytes that a vector of this shape takes in memory. -/
def byteLength (shape : Shape) : Nat := shape.type.size * shape.width

/-- The vector of this shape whose lane `l` is `f l`, converted from mode `source`. -/
def fill (shape : Shape) (source : Mode) (f : Nat → Cell) : LaneVector :=
  .tabulate shape.type shape.width fun l => shape.type.mode.convert (f l) source

end Shape

def UnaryOp.apply : UnaryOp → Mode → Cell → Cell
  | .not => Mode.not
  | .neg => Mode.neg
  | .abs => Mode.abs
  | .sign => Mode.sign

def BinaryOp.apply : BinaryOp → Mode → Cell → Cell → Cell
  | .and => Mode.and
  | .or => Mode.or
  | .xor => Mode.xor
  | .shl => Mode.shl
  | .shr => Mode.shr
  | .add => Mode.add
  | .sub => Mode.sub
  | .mul => Mode.mul
  | .div => Mode.div
  | .mod => Mode.mod
  | .pow => Mode.pow
  | .min => Mode.min
  | .max => Mode.max

/-- The operation that a reduction folds with. -/
def Reduction.op : Reduction → BinaryOp
  | .sum => .add
  | .prod => .mul
  | .min => .min
  | .max => .max
  | .all => .and
  | .any => .or

def RealFunction.apply : RealFunction → Float → Float
  | .sqrt => Float.sqrt
  | .exp => Float.exp
  | .ln => Float.log
  | .sin => Float.sin
  | .cos => Float.cos
  | .tan => Float.tan
  | .asin => Float.asin
  | .acos => Float.acos
  | .atan => Float.atan
  | .floor => Float.floor
  | .ceil => Float.ceil
  | .round => Float.round

/-- Whether a comparison with zero satisfies the test; no order satisfies only `nonzero`. -/
def ZeroTest.accepts : ZeroTest → Option Ordering → Bool
  | .zero, order => order == some .eq
  | .nonzero, order => order != some .eq
  | .negative, order => order == some .lt
  | .positive, order => order == some .gt

/-- Whether a comparison satisfies the relation; no order satisfies only `ne`. -/
def Relation.accepts : Relation → Option Ordering → Bool
  | .eq, order => order == some .eq
  | .ne, order => order != some .eq
  | .lt, order => order == some .lt
  | .le, order => order == some .lt || order == some .eq
  | .gt, order => order == some .gt
  | .ge, order => order == some .gt || order == some .eq

namespace LaneVector

/-- Apply a function of mode and cell to every lane. -/
def mapInto (out : Shape) (f : Mode → Cell → Cell) (a : LaneVector) : LaneVector :=
  out.fill a.mode fun l => f a.mode (a.lane l)

/-- Combine two vectors lane by lane, in the mode of the first. -/
def zipInto (out : Shape) (f : Mode → Cell → Cell → Cell) (a b : LaneVector) : LaneVector :=
  out.fill a.mode fun l => f a.mode (a.lane l) (b.lane l)

/-- Fold all lanes into one, from the first lane on. -/
def reduceInto (out : Shape) (f : Mode → Cell → Cell → Cell) (a : LaneVector) : LaneVector :=
  out.fill a.mode fun _ => (a.lanes.drop 1).foldl (f a.mode) (a.lane 0)

/-- Lane `l` of the result is the lane of `a` that lane `l` of `indices` names. -/
def selectInto (out : Shape) (a indices : LaneVector) : LaneVector :=
  out.fill a.mode fun l => a.lane (indices.lane l).toNat

/-- Every lane passes the test against zero. -/
def all (test : ZeroTest) (a : LaneVector) : Bool :=
  a.lanes.all fun cell => test.accepts (a.mode.compare cell 0)

/-- The relation holds on every lane pair, in the mode of the first vector. -/
def allPairs (relation : Relation) (a b : LaneVector) : Bool :=
  (List.range (max a.width b.width)).all fun l =>
    relation.accepts (a.mode.compare (a.lane l) (b.lane l))

end LaneVector

/-- The outputs of an operation that only computes on its inputs. -/
def Opcode.results : Opcode → List LaneVector → List Shape → List LaneVector
  | push, [a], [out] | convert _, [a], [out] => [a.mapInto out fun _ cell => cell]
  | dup, [a], [first, second] =>
    let copy := a.mapInto first fun _ cell => cell
    [copy, copy.mapInto second fun _ cell => cell]
  | swizzle, [a, indices], [out] => [a.selectInto out indices]
  | unary op, [a], [out] => [a.mapInto out op.apply]
  | binary op, [a, b], [out] => [a.zipInto out op.apply b]
  | reduce op, [a], [out] => [a.reduceInto out op.op.apply]
  | real function, [a], [out] =>
    [a.mapInto out fun mode cell => mode.ofFloat (function.apply (mode.toFloat cell))]
  | atan2, [a, b], [out] =>
    [a.zipInto out (fun mode x y => mode.ofFloat (Float.atan2 (mode.toFloat x) (mode.toFloat y))) b]
  | _, _, _ => []

end VectorStack
