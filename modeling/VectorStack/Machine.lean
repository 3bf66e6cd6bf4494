import VectorStack.Machine.Execute
/-!
The machine's step: wait while asleep, else fetch the instruction at the program counter, pop and
read its inputs, perform it and write its outputs. An instruction that names no operation or uses a
type without a meaning is passed over: beside the program counter nothing changes but devices that
were read.
-/

namespace VectorStack.Machine

/-- The operation exists and every operand it uses has a type with a meaning. -/
def isRunnable (i : Instruction) (operands : List Operand) : Bool :=
  i.opcode != .invalid && operands.all fun operand => operand.shape.type.isSupported

/-- Perform a runnable instruction whose operands were found, with the program counter already past
it. -/
def perform (m : Machine) (i : Instruction) (inputs outputs : List Operand) : Machine :=
  let (sp, addresses) := popInputs m.sp inputs
  let popped := m.withSp sp
  let values := popped.readInputs inputs addresses
  let supplied := popped.afterInputs inputs addresses
  let (after, results) := supplied.execute i.opcode values (outputs.map Operand.shape)
  after.writeOutputs outputs results

/-- The instruction at the program counter. -/
def fetch (m : Machine) : Instruction :=
  Instruction.decode (UInt64.ofNat (m.memory.readNat m.pc Instruction.wordBytes))

/-- One step of a machine that is neither asleep nor halted. -/
def advance (m : Machine) : Outcome × Machine :=
  let start := m.pc
  let i := m.fetch
  let next := (m.afterRead start Instruction.wordBytes).withPc (Address.move start i.size)
  let inputs := next.inputs i start
  let outputs := next.outputs i start
  let located := next.afterPlaces i start 0 i.locatedSlots
  if isRunnable i (inputs ++ outputs) then (.executed i.opcode, located.perform i inputs outputs)
  else (.skipped, located)

/-- One step. -/
def step (m : Machine) : Outcome × Machine :=
  if m.sleep = halted then (.halted, m)
  else if 0 < m.sleep then (.sleeping, m.setSleep (m.sleep - 1))
  else m.advance

/-- Step at most `count` times, stopping once halted, after `taken` steps already taken. -/
def runFrom (taken : Nat) (m : Machine) : Nat → Nat × Machine
  | 0 => (taken, m)
  | count + 1 =>
    match m.step with
    | (.halted, m) => (taken, m)
    | (_, m) => runFrom (taken + 1) m count

/-- Step at most `count` times, stopping once halted; also the number of steps taken. -/
def run (m : Machine) (count : Nat) : Nat × Machine := m.runFrom 0 count

/-- The lane of a type at an address. -/
def readLane (m : Machine) (address : Nat) (type : DataType) : Cell :=
  type.decodeLane (m.memory.read address type.size)

end VectorStack.Machine
