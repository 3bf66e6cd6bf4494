import Mathlib.Data.Int.ModEq
import VectorStack.Proofs.Lane
/-!
Lanes of integer types. Such a lane stands for a number in the range of its type, and a cell, which
has 64 bits for every type, for one in the range of 64 bits. Reading a lane gives a cell with the
number of the lane, and writing a cell leaves the number in the range of the type that is congruent
to it.
-/

namespace VectorStack

/-- The number that a cell stands for in an integer mode. -/
def Mode.integer (mode : Mode) (cell : Cell) : Int :=
  match mode with
  | .signed => cell.signed
  | _ => cell.toNat

theorem Cell.signed_eq_bmod (cell : Cell) : cell.signed = Int.bmod cell.toNat (2 ^ 64) := by
  have hlt := cell.toNat_lt
  unfold Cell.signed
  rw [Int.bmod_def]
  omega

theorem Cell.signed_modEq (cell : Cell) : cell.signed ≡ cell.toNat [ZMOD (2 ^ 64 : Nat)] := by
  rw [signed_eq_bmod]
  exact Int.bmod_emod

theorem Cell.ofInt_modEq (n : Int) : ((Cell.ofInt n).toNat : Int) ≡ n [ZMOD (2 ^ 64 : Nat)] := by
  have hlow : n % 0x10000000000000000 ≡ n [ZMOD 0x10000000000000000] := Int.mod_modEq _ _
  rw [toNat_ofInt]
  exact hlow

/-- Whatever the mode, a cell stands for a number with the same remainder. -/
theorem Mode.integer_modEq (mode : Mode) (cell : Cell) :
    mode.integer cell ≡ cell.toNat [ZMOD (2 ^ 64 : Nat)] := by
  cases mode with
  | signed => exact cell.signed_modEq
  | unsigned | float => rfl

namespace DataType

variable {type : DataType}

/-- Types whose lanes are whole numbers. -/
def IsInteger : DataType → Prop
  | f32 | f64 | unsupported => False
  | _ => True

/-- Number of bits in a lane. -/
def bits (type : DataType) : Nat := type.size * 8

/-- The number in the range of an integer type that is congruent to a number: from `-2 ^ (bits - 1)`
to `2 ^ (bits - 1) - 1` for a signed type, else from `0` to `2 ^ bits - 1`. -/
def residue (type : DataType) (n : Int) : Int :=
  match type.mode with
  | .signed => Int.bmod n (2 ^ type.bits)
  | _ => n % (2 ^ type.bits : Nat)

theorem residue_modEq (type : DataType) (n : Int) :
    type.residue n ≡ n [ZMOD (2 ^ type.bits : Nat)] := by
  unfold residue
  split
  · exact Int.bmod_emod
  · exact Int.mod_modEq _ _

theorem residue_eq_iff {first second : Int} :
    type.residue first = type.residue second ↔ first ≡ second [ZMOD (2 ^ type.bits : Nat)] := by
  constructor
  · intro heq
    exact (type.residue_modEq first).symm.trans (heq ▸ type.residue_modEq second)
  · intro hmod
    unfold residue
    split
    · rw [← Int.emod_bmod first, ← Int.emod_bmod second, hmod]
    · exact hmod

theorem residue_residue (type : DataType) (n : Int) :
    type.residue (type.residue n) = type.residue n :=
  residue_eq_iff.mpr (type.residue_modEq n)

theorem pow_size (type : DataType) : Nat.pow 256 type.size = 2 ^ type.bits := by
  rw [bits, Nat.mul_comm, Nat.pow_mul]
  rfl

theorem toNat_take_lt (type : DataType) (bytes : Bytes) :
    Bytes.toNat (bytes.take type.size) < 2 ^ type.bits := by
  have hlt := Bytes.toNat_lt (bytes.take type.size)
  have hle : (bytes.take type.size).length ≤ type.size := List.length_take_le _ _
  rw [← type.pow_size]
  exact Nat.lt_of_lt_of_le hlt (Nat.pow_le_pow_right (by decide) hle)

theorem signed_signExtend {bits : Nat} {value : UInt64} (hpos : 0 < bits) (hlt : bits < 64)
    (hvalue : value.toNat < 2 ^ bits) :
    Cell.signed (signExtend bits value) = Int.bmod value.toNat (2 ^ bits) := by
  have hhalf : 2 ^ bits ≤ 2 ^ 63 := Nat.pow_le_pow_right (by decide) (by omega)
  have hlow := @Int.le_bmod value.toNat _ (Nat.two_pow_pos bits)
  have hhigh := @Int.bmod_lt value.toNat _ (Nat.two_pow_pos bits)
  rw [signExtend_eq hpos hlt hvalue]
  apply Cell.signed_ofInt
  · omega
  · omega

/-- A lane is read as a cell that stands for the number of the lane. -/
theorem integer_decodeLane (hinteger : type.IsInteger) (bytes : Bytes) :
    type.mode.integer (type.decodeLane bytes) =
      type.residue (Bytes.toNat (bytes.take type.size)) := by
  have hlt := type.toNat_take_lt bytes
  have hword : (Bytes.toWord type.size bytes).toNat = Bytes.toNat (bytes.take type.size) := by
    rw [Bytes.toWord_eq]
    apply UInt64.toNat_ofNat_of_lt'
    apply Nat.lt_of_lt_of_le hlt
    exact Nat.pow_le_pow_right (by decide) (Nat.mul_le_mul_right 8 type.size_le)
  rw [← hword] at hlt ⊢
  cases type with
  | f32 | f64 | unsupported => exact hinteger.elim
  | u8 | u16 | u32 | u64 | p24 =>
      exact (Int.emod_eq_of_lt (Int.natCast_nonneg _) (Int.ofNat_lt.mpr hlt)).symm
  | i64 => exact Cell.signed_eq_bmod _
  | i8 | i16 | i32 => exact signed_signExtend (by decide) (by decide) hlt

/-- A lane is written with the number in its range that is congruent to the cell. -/
theorem residue_encodeLane (hinteger : type.IsInteger) (cell : Cell) :
    type.residue (Bytes.toNat (type.encodeLane cell)) = type.residue cell.toNat := by
  have hencode : type.encodeLane cell = Bytes.ofNat type.size cell.toNat := by
    rw [← Bytes.ofWord_eq]
    cases type with
    | f32 => exact hinteger.elim
    | _ => rfl
  rw [hencode, Bytes.toNat_ofNat, type.pow_size, residue_eq_iff, Int.natCast_emod]
  exact Int.mod_modEq _ _

/-- The numbers in the first lanes of a byte string. -/
def integerLanes (type : DataType) : Nat → Bytes → List Int
  | 0, _ => []
  | count + 1, bytes =>
    type.residue (Bytes.toNat (bytes.take type.size)) ::
      type.integerLanes count (bytes.drop type.size)

theorem map_integer_decodeLanes (hinteger : type.IsInteger) (count : Nat) (bytes : Bytes) :
    (type.decodeLanes count bytes).map type.mode.integer = type.integerLanes count bytes := by
  induction count generalizing bytes with
  | zero => rfl
  | succ count ih => rw [decodeLanes, List.map_cons, integer_decodeLane hinteger, ih, integerLanes]

theorem integerLanes_flatMap_encodeLane (hinteger : type.IsInteger) (cells : List Cell) :
    type.integerLanes cells.length (cells.flatMap type.encodeLane) =
      cells.map fun cell => type.residue cell.toNat := by
  induction cells with
  | nil => rfl
  | cons cell rest ih =>
      have hlength := type.length_encodeLane cell
      rw [List.flatMap_cons, List.length_cons, integerLanes, ← hlength, List.take_left,
        List.drop_left, ih, residue_encodeLane hinteger]
      rfl

end DataType

end VectorStack
