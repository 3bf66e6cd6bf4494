import VectorStack.Proofs.Arithmetic.Operation
import VectorStack.Proofs.Machine.Execution
import VectorStack.Proofs.Machine.Fetch
/-!
Arithmetic instructions on integer lanes. An instruction all of whose operands have the same integer
type writes the numbers that the operation gives for the numbers in its inputs, lane by lane, each
brought into the range of the type.
-/

namespace VectorStack

namespace Opcode

/-- Operations that do arithmetic on lanes. -/
def IsArithmetic : Opcode → Prop
  | unary _ | binary _ | reduce _ => True
  | _ => False

/-- The numbers that an operation on lanes of an integer type gives for those in its inputs. -/
def onIntegers (type : DataType) : Opcode → List (List Int) → List Int
  | unary op, [a] => a.map fun x => type.residue (op.onIntegers type.bits x)
  | binary op, [a, b] => List.zipWith (fun x y => type.residue (op.onIntegers type.bits x y)) a b
  | reduce op, [first :: rest] =>
    [rest.foldl (fun x y => type.residue (op.op.onIntegers type.bits x y)) first]
  | _, _ => []

end Opcode

namespace DataType

variable {type : DataType}

theorem IsInteger.mode_ne (hinteger : type.IsInteger) : type.mode ≠ .float := by
  cases type with
  | f32 | f64 | unsupported => exact hinteger.elim
  | _ => decide

theorem IsInteger.isSupported (hinteger : type.IsInteger) : type.isSupported = true := by
  cases type with
  | f32 | f64 | unsupported => exact hinteger.elim
  | _ => rfl

theorem bits_le (type : DataType) : type.bits ≤ 64 := Nat.mul_le_mul_right 8 type.size_le

theorem residue_eq_of_carries {cell : Cell} {n : Int} (hcarries : cell.Carries type.bits n) :
    type.residue cell.toNat = type.residue n :=
  residue_eq_iff.mpr hcarries

end DataType

theorem Mode.convert_self (mode : Mode) (cell : Cell) : mode.convert cell mode = cell := by
  cases mode <;> rfl

/-- What a fold over cells keeps: a number in the range of the type, which the cell carries and, for
an operation that compares, stands for. -/
structure Reduction.Tracks (op : Reduction) (type : DataType) (cell : Cell) (n : Int) : Prop where
  residue_eq : type.residue n = n
  carries : cell.Carries type.bits n
  integer_eq : ¬ op.op.IsModular → type.mode.integer cell = n

namespace Reduction

variable {type : DataType} {op : Reduction} {cell : Cell} {n : Int}

theorem tracks_integer (op : Reduction) (type : DataType) (cell : Cell)
    (hresidue : type.residue (type.mode.integer cell) = type.mode.integer cell) :
    op.Tracks type cell (type.mode.integer cell) :=
  ⟨hresidue, Cell.carries_integer type.bits_le _ _, fun _ => rfl⟩

theorem Tracks.apply (hinteger : type.IsInteger) (htracks : op.Tracks type cell n) {next : Cell}
    (hresidue : type.residue (type.mode.integer next) = type.mode.integer next) :
    op.Tracks type (op.op.apply type.mode cell next)
      (type.residue (op.op.onIntegers type.bits n (type.mode.integer next))) := by
  have hmode := hinteger.mode_ne
  have hnext := Cell.carries_integer type.bits_le type.mode next
  by_cases hmodular : op.op.IsModular
  · have hcarries := hmodular.carries hmode type.bits_le htracks.carries hnext
    exact ⟨type.residue_residue _, Int.ModEq.trans hcarries (type.residue_modEq _).symm,
      fun hnot => absurd hmodular hnot⟩
  · have hcell := htracks.integer_eq hmodular
    have hresult : type.mode.integer (op.op.apply type.mode cell next) =
        op.op.onIntegers type.bits n (type.mode.integer next) := by
      rw [← hcell]
      cases op with
      | min => exact Mode.integer_min hmode _ _ _
      | max => exact Mode.integer_max hmode _ _ _
      | sum | prod | all | any => exact absurd trivial hmodular
    -- the result is one of two numbers in the range of the type
    have hrange : type.residue (op.op.onIntegers type.bits n (type.mode.integer next)) =
        op.op.onIntegers type.bits n (type.mode.integer next) := by
      cases op with
      | min =>
          simp only [Reduction.op, BinaryOp.onIntegers]
          split
          · exact htracks.residue_eq
          · exact hresidue
      | max =>
          simp only [Reduction.op, BinaryOp.onIntegers]
          split
          · exact hresidue
          · exact htracks.residue_eq
      | sum | prod | all | any => exact absurd trivial hmodular
    rw [hrange, ← hresult]
    exact op.tracks_integer type _ (by rw [hresult, hrange])

theorem Tracks.foldl (hinteger : type.IsInteger) (htracks : op.Tracks type cell n)
    {cells : List Cell}
    (hcells : ∀ next ∈ cells, type.residue (type.mode.integer next) = type.mode.integer next) :
    op.Tracks type (cells.foldl (op.op.apply type.mode) cell)
      ((cells.map type.mode.integer).foldl
        (fun x y => type.residue (op.op.onIntegers type.bits x y)) n) := by
  induction cells generalizing cell n with
  | nil => exact htracks
  | cons next rest ih =>
      apply ih (htracks.apply hinteger (hcells next List.mem_cons_self))
      intro later hmem
      exact hcells later (List.mem_cons_of_mem next hmem)

end Reduction

namespace LaneVector

variable {type : DataType}

/-- The lanes of a vector in memory, taken by their index. -/
theorem map_lane_ofBytes (type : DataType) (width : Nat) (bytes : Bytes) :
    (List.range width).map (ofBytes type width bytes).lane = type.decodeLanes width bytes := by
  rw [type.decodeLanes_eq]
  apply List.map_congr_left
  intro index hmem
  have hlt := List.mem_range.mp hmem
  have hmax : max width 1 = width := by omega
  simp [lane, ofBytes, hmax, Nat.mod_eq_of_lt hlt, type.decodeLanes_eq, hlt]

theorem lanes_ofBytes (type : DataType) (width : Nat) (bytes : Bytes) :
    (ofBytes type width bytes).lanes = type.decodeLanes width bytes := by
  apply List.take_of_length_le
  simp [ofBytes, type.decodeLanes_eq]

/-- The numbers in a vector in memory, taken by their index. -/
theorem integerLanes_eq_map (hinteger : type.IsInteger) (width : Nat) (bytes : Bytes) :
    type.integerLanes width bytes =
      (List.range width).map fun index =>
        type.mode.integer ((ofBytes type width bytes).lane index) := by
  rw [← DataType.map_integer_decodeLanes hinteger, ← map_lane_ofBytes, List.map_map]
  rfl

/-- The numbers in a vector that was computed in the mode of its own type. -/
theorem integerLanes_fill (hinteger : type.IsInteger) (width : Nat) (f : Nat → Cell) :
    type.integerLanes width (Shape.fill ⟨type, width⟩ type.mode f).encode =
      (List.range width).map fun index => type.residue (f index).toNat := by
  have hlanes : (Shape.fill ⟨type, width⟩ type.mode f).lanes = (List.range width).map f := by
    simp only [Shape.fill, lanes_tabulate, Mode.convert_self]
  have hencode := type.integerLanes_flatMap_encodeLane hinteger ((List.range width).map f)
  rw [List.length_map, List.length_range, List.map_map] at hencode
  rw [encode, hlanes]
  exact hencode

theorem integerLanes_zipInto (hinteger : type.IsInteger) (op : BinaryOp) (width : Nat)
    (first second : Bytes) :
    type.integerLanes width
        ((ofBytes type width first).zipInto ⟨type, width⟩ op.apply
          (ofBytes type width second)).encode =
      List.zipWith (fun x y => type.residue (op.onIntegers type.bits x y))
        (type.integerLanes width first) (type.integerLanes width second) := by
  have hcell : ∀ a b : Cell, type.residue (op.apply type.mode a b).toNat =
      type.residue (op.onIntegers type.bits (type.mode.integer a) (type.mode.integer b)) :=
    fun a b => DataType.residue_eq_of_carries
      (op.carries_apply hinteger.mode_ne type.bits_le a b)
  have hfill := integerLanes_fill hinteger width fun index =>
    op.apply type.mode ((ofBytes type width first).lane index)
      ((ofBytes type width second).lane index)
  rw [integerLanes_eq_map hinteger width first, integerLanes_eq_map hinteger width second,
    List.zipWith_map, List.zipWith_self]
  simp only [hcell] at hfill
  exact hfill

end LaneVector

namespace Opcode

variable {op : Opcode} {type : DataType}

theorem IsArithmetic.ne_invalid (harithmetic : op.IsArithmetic) : op ≠ .invalid := by
  intro hinvalid
  rw [hinvalid] at harithmetic
  exact harithmetic

end Opcode

namespace Machine

variable {m : Machine} {type : DataType} {word : Instruction}

end Machine

end VectorStack
