import VectorStack.Memory
import VectorStack.Opcode
/-!
The state of a machine: memory, registers, the sleep counter, the source of random numbers and the
lines printed so far. Registers set from outside are brought into the address space.
-/

namespace VectorStack

/-- A source of random 64-bit numbers. -/
structure Generator where
  state : Nat
  next : Nat → UInt64 × Nat

namespace Generator

/-- A number and the source after it. -/
def draw (generator : Generator) : UInt64 × Generator :=
  let (bits, state) := generator.next generator.state
  (bits, { generator with state })

/-- Several numbers in order, and the source after them. -/
def drawMany (generator : Generator) : Nat → List UInt64 × Generator
  | 0 => ([], generator)
  | count + 1 =>
    let (bits, generator) := generator.draw
    let (rest, generator) := generator.drawMany count
    (bits :: rest, generator)

/-- A linear congruential source over 64 bits, which answers its new state. -/
def linear (multiplier increment : UInt64) (seed : UInt64) : Generator where
  state := seed.toNat
  next state :=
    let new := UInt64.ofNat state * multiplier + increment
    (new, new.toNat)

instance : Inhabited Generator := ⟨linear 1 1 0⟩

@[simp] theorem length_drawMany (generator : Generator) (count : Nat) :
    (generator.drawMany count).1.length = count := by
  induction count generalizing generator with
  | zero => rfl
  | succ count ih => simp [drawMany, ih]

end Generator

/-- The program counter, the frame pointer and the stack pointer. -/
structure Registers where
  pc : Nat
  fp : Nat
  sp : Nat
deriving DecidableEq, Repr, Inhabited

/-- A machine between two steps. -/
structure Machine where
  memory : Memory
  registers : Registers
  /-- Steps to sleep before the next fetch; `halted` never counts down. -/
  sleep : Nat
  generator : Generator
  /-- Where a reset puts the registers. -/
  start : Registers
  /-- Lines printed since they were last taken, in order. -/
  output : Array String
deriving Inhabited

/-- What a step did. -/
inductive Outcome where
  | executed (opcode : Opcode)
  /-- The machine sleeps; nothing was fetched. -/
  | sleeping
  | halted
  /-- The instruction cannot run and was passed over. -/
  | skipped
deriving DecidableEq, Repr

namespace Machine

/-- The sleep counter of a machine that has stopped for good. -/
def halted : Nat := 0xffffffffffffffff

/-- A machine over empty memory, with its registers as configured. -/
def new (start : Registers) (generator : Generator) : Machine :=
  ⟨.ofRam .full, start, 0, generator, start, #[]⟩

/-- Put the registers back and forget printed lines; memory stays. -/
def reset (m : Machine) : Machine := { m with registers := m.start, sleep := 0, output := #[] }

def pc (m : Machine) : Nat := m.registers.pc

def fp (m : Machine) : Nat := m.registers.fp

def sp (m : Machine) : Nat := m.registers.sp

/-- Set the program counter without bringing it into the address space. -/
def withPc (m : Machine) (pc : Nat) : Machine := { m with registers := { m.registers with pc } }

def withFp (m : Machine) (fp : Nat) : Machine := { m with registers := { m.registers with fp } }

def withSp (m : Machine) (sp : Nat) : Machine := { m with registers := { m.registers with sp } }

def setPc (m : Machine) (pc : Nat) : Machine := m.withPc (Address.wrap pc)

def setFp (m : Machine) (fp : Nat) : Machine := m.withFp (Address.wrap fp)

def setSp (m : Machine) (sp : Nat) : Machine := m.withSp (Address.wrap sp)

def setSleep (m : Machine) (sleep : Nat) : Machine := { m with sleep }

def isHalted (m : Machine) : Bool := m.sleep == halted

/-- The machine after `count` bytes from an address on were read. -/
def afterRead (m : Machine) (address count : Nat) : Machine :=
  { m with memory := m.memory.afterRead address count }

/-- The printed lines, and the machine without them. -/
def takeOutput (m : Machine) : Array String × Machine := (m.output, { m with output := #[] })

def print (m : Machine) (line : String) : Machine := { m with output := m.output.push line }

end Machine

end VectorStack
