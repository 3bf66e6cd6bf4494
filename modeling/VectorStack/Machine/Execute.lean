import VectorStack.Machine.Operand
import VectorStack.Text.Utf8
/-!
What each operation does once its inputs are popped and read. Operations on lanes only compute
their outputs; all others change registers, memory, the sleep counter, the random numbers or the
printed lines.
-/

namespace VectorStack

namespace LaneVector

/-- The address that an operand holds. -/
def address (v : LaneVector) : Nat := Address.wrap (v.lane 0).toNat

/-- The signed distance that an operand holds. -/
def distance (v : LaneVector) : Int := (v.lane 0).signed

/-- The unsigned number that an operand holds. -/
def number (v : LaneVector) : Nat := (v.lane 0).toNat

end LaneVector

namespace Machine

/-- Bytes of the saved frame pointer and return address that a call pushes. -/
def frameBytes : Nat := 2 * Address.byteCount

def readRegister (m : Machine) : Register → Nat
  | .frame => m.fp
  | .stack => m.sp

def writeRegister (m : Machine) : Register → Nat → Machine
  | .frame => m.withFp
  | .stack => m.withSp

/-- The address that a load or store operand stands for. -/
def effectiveAddress (m : Machine) : Base → LaneVector → Nat
  | .absolute, v => v.address
  | .frame, v => Address.move m.fp v.distance
  | .stack, v => Address.move m.sp v.distance

/-- Read an address from memory. -/
def readAddress (m : Machine) (address : Nat) : Nat :=
  Address.wrap (m.memory.readNat address Address.byteCount)

/-- Go on at an address when a condition holds. -/
def branch (m : Machine) (taken : Bool) (target : Nat) : Machine :=
  if taken then m.withPc target else m

/-- Push frame pointer and return address, make them the frame, and go on at the target. -/
def enter (m : Machine) (target : Nat) : Machine :=
  let frame := Address.move m.sp (-(frameBytes : Int))
  let memory := m.memory.writeNat frame Address.byteCount m.fp
  let memory := memory.writeNat (Address.move frame Address.byteCount) Address.byteCount m.pc
  { m with memory, registers := ⟨target, frame, frame⟩ }

/-- Drop the frame and all above it, and restore frame pointer and program counter from it. -/
def leave (m : Machine) : Machine :=
  let frame := m.fp
  let fp := m.readAddress frame
  let m := m.afterRead frame Address.byteCount
  let saved := Address.move frame Address.byteCount
  let pc := m.readAddress saved
  let m := m.afterRead saved Address.byteCount
  { m with registers := ⟨pc, fp, Address.move frame frameBytes⟩ }

/-- The text at an address, which starts with its length in one byte, and the machine after it was
read. -/
def textAt (m : Machine) (address : Nat) : String × Machine :=
  let length := m.memory.readNat address 1
  let m := m.afterRead address 1
  let start := Address.move address 1
  (String.ofList (Text.decodeLossy (m.memory.read start length)), m.afterRead start length)

/-- Perform an operation on inputs already popped; the second part holds its outputs. -/
def execute (m : Machine) : Opcode → List Input → List Shape → Machine × List LaneVector
  | .halt, _, _ => (m.setSleep halted, [])
  | .load base, [a], [out] =>
    let address := m.effectiveAddress base a.lanes
    let bytes := m.memory.read address out.byteLength
    (m.afterRead address out.byteLength, [.ofBytes out.type out.width bytes])
  | .store base, [a, target], _ =>
    let address := m.effectiveAddress base target.lanes
    ({ m with memory := m.memory.write address a.lanes.encode }, [])
  | .getRegister register, _, [out] =>
    (m, [.tabulate out.type out.width fun _ => UInt64.ofNat (m.readRegister register)])
  | .setRegister register, [a], _ => (m.writeRegister register a.lanes.address, [])
  | .moveRegister register, [a], _ =>
    (m.writeRegister register (Address.move (m.readRegister register) a.lanes.distance), [])
  | .jump, [a], _ => (m.withPc a.lanes.address, [])
  | .branchZero test, [a, target], _ => (m.branch (a.lanes.all test) target.lanes.address, [])
  | .branchCompare relation, [a, b, target], _ =>
    (m.branch (a.lanes.allPairs relation b.lanes) target.lanes.address, [])
  | .switch, [index, table], _ =>
    let entry := Address.move table.lanes.address (index.lanes.number * Address.byteCount : Nat)
    ((m.afterRead entry Address.byteCount).withPc (m.readAddress entry), [])
  | .call, [a], _ => (m.enter a.lanes.address, [])
  | .reserve, [a], _ => (m.withSp (Address.move m.fp (-a.lanes.distance)), [])
  | .ret, _, _ => (m.leave, [])
  | .random, _, [out] =>
    let (bits, generator) := m.generator.drawMany out.width
    ({ m with generator },
      [.tabulate out.type out.width fun l => out.type.mode.ofRandomBits (bits.getD l 0)])
  | .sleep, [a], _ => (m.setSleep a.lanes.number, [])
  | .mapDevice, [device, address, length], _ =>
    let mapped := m.memory.map? address.lanes.address device.lanes.number 0 length.lanes.number
    ({ m with memory := mapped.getD m.memory }, [])
  | .debug, [a], _ => (m.print a.lanes.format, [])
  | .debugText, [a], _ =>
    let (text, m) := m.textAt a.address
    (m.print text, [])
  | op, inputs, outputs => (m, op.results (inputs.map Input.lanes) outputs)

end Machine

end VectorStack
