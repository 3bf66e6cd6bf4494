import VectorStack.Instruction
import VectorStack.LaneVector.Operation
import VectorStack.Machine.State
/-!
Where the operands of an instruction are. An operand is on the stack unless the instruction gives
its slot one of the addresses that follow the word; such an address is that of the operand, or is
itself the operand. Inputs on the stack are popped last operand first, and outputs are pushed in
slot order.
-/

namespace VectorStack

/-- Where an operand lies. -/
inductive Place where
  | stack
  | memory (address : Nat)
deriving DecidableEq, Repr

/-- An operand of an instruction: its shape and where it lies. -/
structure Operand where
  shape : Shape
  place : Place
deriving DecidableEq, Repr

/-- An input as the operation sees it. -/
structure Input where
  address : Nat
  lanes : LaneVector
deriving Repr

namespace Instruction

/-- Number of addresses that slots before this one take. -/
def addressesBefore (i : Instruction) (slot : Nat) : Nat := (List.range slot).countP i.isImmediate

/-- Where the address of a slot is written, for an instruction that starts at `start`. -/
def addressField (i : Instruction) (start slot : Nat) : Nat :=
  Address.move start (wordBytes + i.addressesBefore slot * Address.byteCount : Nat)

/-- Shape of the operand in a slot. -/
def shape (i : Instruction) (slot : Nat) (template : Slot) : Shape :=
  ⟨template.resolveType (i.typeAt slot), template.resolveWidth i.width⟩

/-- Number of slots whose places are looked for: all that an instruction can have, also those that
the operation does not use, but none behind the first one whose type has no meaning. -/
def locatedSlots (i : Instruction) : Nat :=
  if i.opcode = .invalid then 0
  else
    match (i.opcode.template.slots.mapIdx i.shape).findIdx? (!·.type.isSupported) with
    | some slot => slot + 1
    | none => Template.maxOperands

end Instruction

namespace Machine

/-- Place of the operand in a slot, for an instruction that starts at `start`. -/
def place (m : Machine) (i : Instruction) (start slot : Nat) : Place :=
  if i.isImmediate slot then
    let field := i.addressField start slot
    if i.isInlined slot then .memory field
    else .memory (Address.wrap (m.memory.readNat field Address.byteCount))
  else .stack

/-- The machine after the place of a slot was found, for which an address may have been read. -/
def afterPlace (m : Machine) (i : Instruction) (start slot : Nat) : Machine :=
  if i.isImmediate slot && !i.isInlined slot then
    m.afterRead (i.addressField start slot) Address.byteCount
  else m

/-- The machine after the places of `count` slots from one on were found. -/
def afterPlaces (m : Machine) (i : Instruction) (start : Nat) : (slot count : Nat) → Machine
  | _, 0 => m
  | slot, count + 1 => (m.afterPlace i start slot).afterPlaces i start (slot + 1) count

/-- Operands for consecutive slots of a template. -/
def operandsFrom (m : Machine) (i : Instruction) (start : Nat) : Nat → List Slot → List Operand
  | _, [] => []
  | slot, template :: rest =>
    ⟨i.shape slot template, m.place i start slot⟩ ::
      (m.afterPlace i start slot).operandsFrom i start (slot + 1) rest

/-- Input operands of an instruction that starts at `start`. -/
def inputs (m : Machine) (i : Instruction) (start : Nat) : List Operand :=
  m.operandsFrom i start 0 i.opcode.template.inputs

/-- Output operands of an instruction that starts at `start`, which are found behind the inputs. -/
def outputs (m : Machine) (i : Instruction) (start : Nat) : List Operand :=
  let count := i.opcode.template.inputs.length
  (m.afterPlaces i start 0 count).operandsFrom i start count i.opcode.template.outputs

/-- Pop the inputs that are on the stack, the last one first. The result is the stack pointer
after it and the address of every input. -/
def popInputs (sp : Nat) : List Operand → Nat × List Nat
  | [] => (sp, [])
  | operand :: rest =>
    let (sp, addresses) := popInputs sp rest
    match operand.place with
    | .stack => (Address.move sp operand.shape.byteLength, sp :: addresses)
    | .memory address => (sp, address :: addresses)

/-- Read an input at an address. -/
def readInput (m : Machine) (operand : Operand) (address : Nat) : Input where
  address
  lanes := .ofBytes operand.shape.type operand.shape.width
    (m.memory.read address operand.shape.byteLength)

/-- Read the inputs in slot order, each at its address. -/
def readInputs (m : Machine) : List Operand → List Nat → List Input
  | operand :: operands, address :: addresses =>
    m.readInput operand address ::
      (m.afterRead address operand.shape.byteLength).readInputs operands addresses
  | _, _ => []

/-- The machine after these inputs were read. -/
def afterInputs (m : Machine) : List Operand → List Nat → Machine
  | operand :: operands, address :: addresses =>
    (m.afterRead address operand.shape.byteLength).afterInputs operands addresses
  | _, _ => m

/-- Write an output where it lies, pushing it when that is the stack. -/
def writeOutput (m : Machine) (operand : Operand) (lanes : LaneVector) : Machine :=
  match operand.place with
  | .stack =>
    let sp := Address.move m.sp (-(operand.shape.byteLength : Int))
    { m.withSp sp with memory := m.memory.write sp lanes.encode }
  | .memory address => { m with memory := m.memory.write address lanes.encode }

/-- Write outputs in slot order. -/
def writeOutputs (m : Machine) : List Operand → List LaneVector → Machine
  | operand :: operands, lanes :: rest => (m.writeOutput operand lanes).writeOutputs operands rest
  | _, _ => m

@[simp] theorem length_operandsFrom (m : Machine) (i : Instruction) (start slot : Nat)
    (slots : List Slot) : (m.operandsFrom i start slot slots).length = slots.length := by
  induction slots generalizing m slot with
  | nil => rfl
  | cons _ _ ih => simp [operandsFrom, ih]

@[simp] theorem length_popInputs (sp : Nat) (operands : List Operand) :
    (popInputs sp operands).2.length = operands.length := by
  induction operands with
  | nil => rfl
  | cons operand rest ih =>
      unfold popInputs
      cases operand.place <;> simp [ih]

theorem length_readInputs (m : Machine) {operands : List Operand} {addresses : List Nat}
    (hlength : addresses.length = operands.length) :
    (m.readInputs operands addresses).length = operands.length := by
  induction operands generalizing m addresses with
  | nil => simp [readInputs]
  | cons operand rest ih =>
      obtain ⟨address, others, rfl⟩ := List.exists_cons_of_length_eq_add_one hlength
      simp [readInputs, ih _ (Nat.succ.inj hlength)]

end Machine

end VectorStack
