import VectorStack.DataType
import VectorStack.Opcode
/-!
The operand template of every operation: how many operands it reads and writes, and which of them
have a type or width of their own. The main statement is that no operation names more than three
operands.
-/

namespace VectorStack

/-- Type and width that an operation forces on an operand; `none` leaves the instruction's own. -/
structure Slot where
  type : Option DataType
  width : Option Nat
deriving DecidableEq, Repr

namespace Slot

/-- Both type and width are the instruction's. -/
def free : Slot := ⟨none, none⟩

def scalar (type : DataType) : Slot := ⟨some type, some 1⟩

/-- The type is fixed and the width is the instruction's. -/
def typed (type : DataType) : Slot := ⟨some type, none⟩

/-- One lane of the instruction's type. -/
def lane : Slot := ⟨none, some 1⟩

/-- A single address. -/
def address : Slot := scalar .p24

/-- A single signed distance in bytes. -/
def distance : Slot := scalar .i32

/-- The type an operand gets where the instruction names `own` for its slot. -/
def resolveType (slot : Slot) (own : DataType) : DataType := slot.type.getD own

/-- The width an operand gets where the instruction names `own`. -/
def resolveWidth (slot : Slot) (own : Nat) : Nat := slot.width.getD own

end Slot

/-- The operands of an operation, inputs before outputs. -/
structure Template where
  inputs : List Slot
  outputs : List Slot
deriving DecidableEq, Repr

namespace Template

/-- The most operands an instruction can name. -/
def maxOperands : Nat := 3

/-- All operands, in slot order. -/
def slots (template : Template) : List Slot := template.inputs ++ template.outputs

/-- Number of operands. -/
def size (template : Template) : Nat := template.inputs.length + template.outputs.length

end Template

/-- How many operands an operation has and what it forces on them. -/
def Opcode.template : Opcode → Template
  | nop | halt | ret | invalid => ⟨[], []⟩
  | push | unary _ | real _ => ⟨[.free], [.free]⟩
  | pop | debug => ⟨[.free], []⟩
  | dup => ⟨[.free], [.free, .free]⟩
  | swizzle => ⟨[.free, .typed .u8], [.free]⟩
  | load .absolute => ⟨[.address], [.free]⟩
  | load .frame | load .stack => ⟨[.distance], [.free]⟩
  | store .absolute => ⟨[.free, .address], []⟩
  | store .frame | store .stack => ⟨[.free, .distance], []⟩
  | getRegister _ => ⟨[], [.address]⟩
  | setRegister _ | jump | call => ⟨[.address], []⟩
  | moveRegister _ | reserve => ⟨[.distance], []⟩
  | binary _ | atan2 => ⟨[.free, .free], [.free]⟩
  | reduce _ => ⟨[.free], [.lane]⟩
  | convert .float => ⟨[.free], [.typed .f64]⟩
  | convert .signed => ⟨[.free], [.typed .i64]⟩
  | convert .unsigned => ⟨[.free], [.typed .u64]⟩
  | branchZero _ => ⟨[.free, .address], []⟩
  | branchCompare _ => ⟨[.free, .free, .address], []⟩
  | switch => ⟨[.scalar .u32, .address], []⟩
  | random => ⟨[], [.free]⟩
  | sleep => ⟨[.scalar .u32], []⟩
  | mapDevice => ⟨[.scalar .u32, .address, .address], []⟩
  | debugText => ⟨[.scalar .u8], []⟩

/-- The slot of the operand that says where a load or a store takes place. -/
def Base.slot : Base → Slot
  | .absolute => .address
  | .frame | .stack => .distance

namespace Opcode

theorem template_load (base : Base) : (load base).template = ⟨[base.slot], [.free]⟩ := by
  cases base <;> rfl

theorem template_store (base : Base) : (store base).template = ⟨[.free, base.slot], []⟩ := by
  cases base <;> rfl

/-- A conversion writes its result in a type of its own. -/
theorem exists_template_convert (target : Conversion) :
    ∃ type, (convert target).template = ⟨[.free], [.typed type]⟩ := by
  cases target <;> exact ⟨_, rfl⟩

end Opcode

theorem Opcode.template_size_le (op : Opcode) : op.template.size ≤ Template.maxOperands := by
  unfold Opcode.template
  split <;> decide

end VectorStack
