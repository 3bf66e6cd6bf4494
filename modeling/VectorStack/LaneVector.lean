import VectorStack.Bytes
import VectorStack.Cell
/-!
Vectors of up to eight lanes of one data type, the unit every operation computes on, and how lanes
lie in memory. The main statements say how long an encoded lane is and that integer lanes come
back from memory reduced to their type.
-/

namespace VectorStack

/-- Copy bit `bits - 1` of a number into all bits above it. -/
def signExtend (bits : Nat) (value : UInt64) : UInt64 :=
  if value.toNat.testBit (bits - 1) then value ||| (0xffffffffffffffff <<< UInt64.ofNat bits)
  else value

namespace DataType

/-- Read one lane from the front of a byte string. -/
def decodeLane (type : DataType) (bytes : Bytes) : Cell :=
  let bits := Bytes.toWord type.size bytes
  match type with
  | f32 => Binary64.ofSingle bits.toUInt32
  | i8 | i16 | i32 => signExtend (type.size * 8) bits
  | _ => bits

/-- The bytes of one lane; an integer keeps only the bits its type has. -/
def encodeLane (type : DataType) (cell : Cell) : Bytes :=
  match type with
  | f32 => Bytes.ofNat 4 (Binary64.toSingle cell).toNat
  | _ => Bytes.ofWord type.size cell

/-- Read consecutive lanes from the front of a byte string. -/
def decodeLanes (type : DataType) : (count : Nat) → Bytes → List Cell
  | 0, _ => []
  | count + 1, bytes => type.decodeLane bytes :: type.decodeLanes count (bytes.drop type.size)

@[simp] theorem length_encodeLane (type : DataType) (cell : Cell) :
    (type.encodeLane cell).length = type.size := by
  cases type <;> simp [encodeLane, size, Bytes.ofWord_eq]

/-- Lane `l` starts `l * type.size` bytes in. -/
theorem decodeLanes_eq (type : DataType) (count : Nat) (bytes : Bytes) :
    type.decodeLanes count bytes =
      (List.range count).map fun l => type.decodeLane (bytes.drop (l * type.size)) := by
  induction count generalizing bytes with
  | zero => rfl
  | succ count ih =>
      rw [decodeLanes, ih, List.range_succ_eq_map, List.map_cons, List.map_map, Nat.zero_mul,
        List.drop_zero]
      congr 1
      refine List.map_congr_left fun l _ => ?_
      rw [List.drop_drop, Function.comp_apply, Nat.succ_mul, Nat.add_comm]

end DataType

/-- Lanes of one type. Cells from `width` on are not lanes. -/
structure LaneVector where
  type : DataType
  width : Nat
  cells : List Cell
deriving DecidableEq, Repr, Inhabited

namespace LaneVector

/-- A vector whose lanes are all zero. -/
def zero (type : DataType) (width : Nat) : LaneVector := ⟨type, width, List.replicate 8 0⟩

/-- The vector whose lane `l` is `f l`. -/
def tabulate (type : DataType) (width : Nat) (f : Nat → Cell) : LaneVector :=
  ⟨type, width, (List.range width).map f⟩

def mode (v : LaneVector) : Mode := v.type.mode

/-- A lane; an index past the last lane starts over, so that narrow vectors repeat. -/
def lane (v : LaneVector) (index : Nat) : Cell := v.cells.getD (index % max v.width 1) 0

/-- Replace one cell. -/
def set (v : LaneVector) (index : Nat) (cell : Cell) : LaneVector :=
  { v with cells := v.cells.set index cell }

/-- Bytes the vector takes in memory. -/
def byteLength (v : LaneVector) : Nat := v.type.size * v.width

def lanes (v : LaneVector) : List Cell := v.cells.take v.width

/-- Read every lane from consecutive bytes. -/
def decode (v : LaneVector) (bytes : Bytes) : LaneVector :=
  { v with cells := v.type.decodeLanes v.width bytes ++ v.cells.drop v.width }

/-- The vector that lies in memory as these bytes. -/
def ofBytes (type : DataType) (width : Nat) (bytes : Bytes) : LaneVector :=
  ⟨type, width, type.decodeLanes width bytes⟩

/-- The lanes as consecutive bytes. -/
def encode (v : LaneVector) : Bytes := v.lanes.flatMap v.type.encodeLane

/-- The lanes as text, in brackets unless there is just one. -/
def format (v : LaneVector) : String :=
  match v.lanes.map v.mode.format with
  | [single] => single
  | many => "[" ++ String.intercalate ", " many ++ "]"

@[simp] theorem lanes_tabulate (type : DataType) (width : Nat) (f : Nat → Cell) :
    (tabulate type width f).lanes = (List.range width).map f := by
  have hlength : ((List.range width).map f).length ≤ width := by simp
  rw [lanes]
  exact List.take_of_length_le hlength

theorem length_encode_tabulate (type : DataType) (width : Nat) (f : Nat → Cell) :
    (tabulate type width f).encode.length = type.size * width := by
  have htype : (tabulate type width f).type = type := rfl
  have hsum : ∀ n : Nat, ((List.range n).map fun _ => type.size).sum = type.size * n := by
    intro n
    induction n with
    | zero => rfl
    | succ n ih =>
        rw [List.range_succ, List.map_append, List.sum_append, ih, Nat.mul_succ]
        rfl
  simp only [encode, htype, lanes_tabulate, List.length_flatMap, List.map_map, Function.comp_def,
    DataType.length_encodeLane, hsum]

end LaneVector

end VectorStack
