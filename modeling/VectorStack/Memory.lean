import VectorStack.Address
import VectorStack.Memory.Ram
/-!
The memory of the machine: main memory, devices that can be attached to it, and address ranges
routed to them. A later range hides an earlier one. Reading leaves main memory alone, but a device
may change when it is read.
-/

namespace VectorStack

/-- Something that answers reads and takes writes at its own addresses, one byte at a time. What
they do to it is its own affair. -/
structure Device where
  /-- What the device keeps: a block of bytes of any size, with a meaning of its own. -/
  state : Ram
  /-- The byte that a read answers, and what the device keeps then. -/
  read : Ram → Nat → UInt8 × Ram
  /-- What the device keeps after a write. -/
  write : Ram → Nat → UInt8 → Ram

/-- `length` addresses from `start` on, routed to consecutive addresses of a device. -/
structure Mapping where
  start : Nat
  length : Nat
  device : Nat
  offset : Nat
deriving DecidableEq, Repr

namespace Device

/-- A block of bytes that is read and written as main memory is. -/
def ofRam (block : Ram) : Device where
  state := block
  read block offset := (block.get offset, block)
  write := Ram.set

/-- The byte that the device answers at an address. -/
def get (device : Device) (offset : Nat) : UInt8 := (device.read device.state offset).1

/-- The device after it was read at an address. -/
def afterGet (device : Device) (offset : Nat) : Device :=
  { device with state := (device.read device.state offset).2 }

/-- The device after a byte was written to an address. -/
def set (device : Device) (offset : Nat) (value : UInt8) : Device :=
  { device with state := device.write device.state offset value }

variable (block : Ram) (offset : Nat)

@[simp] theorem state_ofRam : (ofRam block).state = block := rfl

@[simp] theorem get_ofRam : (ofRam block).get offset = block.get offset := rfl

@[simp] theorem afterGet_ofRam : (ofRam block).afterGet offset = ofRam block := rfl

@[simp] theorem set_ofRam (value : UInt8) :
    (ofRam block).set offset value = ofRam (block.set offset value) := rfl

end Device

namespace Mapping

/-- How far inside the range an address lies. -/
def distance? (mapping : Mapping) (address : Nat) : Option Nat :=
  let distance := Address.move address (-(mapping.start : Int))
  if distance < mapping.length then some distance else none

/-- The device and the address on it that an address is routed to. -/
def target? (mapping : Mapping) (address : Nat) : Option (Nat × Nat) :=
  (mapping.distance? address).map fun distance =>
    (mapping.device, Address.wrap (mapping.offset + distance))

end Mapping

/-- Main memory overlaid with ranges of devices. -/
structure Memory where
  ram : Ram
  /-- Attached devices, numbered from zero. -/
  devices : Array Device
  /-- Ranges, the latest first. -/
  mappings : List Mapping
deriving Inhabited

namespace Memory

/-- Main memory without devices. -/
def ofRam (ram : Ram) : Memory := ⟨ram, #[], []⟩

/-- Attach a device; it is not visible until a range is mapped to it. -/
def attach (memory : Memory) (device : Device) : Memory :=
  { memory with devices := memory.devices.push device }

/-- Route a range to a device; none if there is no such device. -/
def map? (memory : Memory) (address device offset length : Nat) : Option Memory :=
  if device < memory.devices.size then
    let mapping : Mapping := ⟨Address.wrap address, length, device, offset⟩
    some { memory with mappings := mapping :: memory.mappings }
  else none

/-- Remove every range; devices stay attached. -/
def unmapAll (memory : Memory) : Memory := { memory with mappings := [] }

/-- The device that the latest range around an address routes it to. -/
def route (memory : Memory) (address : Nat) : Option (Nat × Nat) :=
  memory.mappings.findSome? (·.target? address)

/-- The byte at an address. Without mappings the address goes to main memory as it is. -/
def get (memory : Memory) (address : Nat) : UInt8 :=
  if memory.mappings.isEmpty then memory.ram.get address
  else
    match memory.route (Address.wrap address) with
    | none => memory.ram.get (Address.wrap address)
    | some (device, offset) => (memory.devices[device]?.map (·.get offset)).getD 0

/-- The memory after the byte at an address was read. -/
def afterGet (memory : Memory) (address : Nat) : Memory :=
  if memory.mappings.isEmpty then memory
  else
    match memory.route (Address.wrap address) with
    | none => memory
    | some (device, offset) =>
      { memory with devices := memory.devices.modify device (·.afterGet offset) }

/-- Set the byte at an address. -/
def set (memory : Memory) (address : Nat) (value : UInt8) : Memory :=
  if memory.mappings.isEmpty then { memory with ram := memory.ram.set address value }
  else
    match memory.route (Address.wrap address) with
    | none => { memory with ram := memory.ram.set (Address.wrap address) value }
    | some (device, offset) =>
      { memory with devices := memory.devices.modify device (·.set offset value) }

/-- `count` bytes read one after another from an address on, through the mappings. -/
def readMapped (memory : Memory) (address : Nat) : (count : Nat) → Bytes
  | 0 => []
  | count + 1 => memory.get address :: (memory.afterGet address).readMapped (address + 1) count

/-- The memory after these bytes were read. -/
def afterReadMapped (memory : Memory) (address : Nat) : (count : Nat) → Memory
  | 0 => memory
  | count + 1 => (memory.afterGet address).afterReadMapped (address + 1) count

/-- `count` bytes from an address on. -/
def read (memory : Memory) (address count : Nat) : Bytes :=
  if memory.mappings.isEmpty then memory.ram.read address count
  else memory.readMapped address count

/-- The memory after `count` bytes from an address on were read. -/
def afterRead (memory : Memory) (address count : Nat) : Memory :=
  if memory.mappings.isEmpty then memory else memory.afterReadMapped address count

/-- Write bytes in order from an address on, through the mappings. -/
def writeMapped (memory : Memory) (address : Nat) : Bytes → Memory
  | [] => memory
  | byte :: rest => (memory.set address byte).writeMapped (address + 1) rest

/-- Write bytes in order from an address on. -/
def write (memory : Memory) (address : Nat) (bytes : Bytes) : Memory :=
  if memory.mappings.isEmpty then { memory with ram := memory.ram.write address bytes }
  else memory.writeMapped address bytes

/-- The little-endian number in `count` bytes. -/
def readNat (memory : Memory) (address count : Nat) : Nat := Bytes.toNat (memory.read address count)

/-- Write the low `count` bytes of a number. -/
def writeNat (memory : Memory) (address count value : Nat) : Memory :=
  memory.write address (Bytes.ofNat count value)

@[simp] theorem mappings_afterGet (memory : Memory) (address : Nat) :
    (memory.afterGet address).mappings = memory.mappings := by
  unfold afterGet
  repeat' split
  all_goals rfl

@[simp] theorem read_zero (memory : Memory) (address : Nat) : memory.read address 0 = [] := by
  unfold read
  split <;> rfl

@[simp] theorem afterRead_zero (memory : Memory) (address : Nat) :
    memory.afterRead address 0 = memory := by
  unfold afterRead
  split <;> rfl

/-- Bytes are read one after another. -/
theorem read_succ (memory : Memory) (address count : Nat) :
    memory.read address (count + 1) =
      memory.get address :: (memory.afterGet address).read (address + 1) count := by
  unfold read
  rw [mappings_afterGet]
  split
  · next hempty =>
      have hshift (i : Nat) : address + 1 + i = address + (i + 1) := by omega
      simp [Ram.read_eq, List.range_succ_eq_map, get, afterGet, hempty, hshift]
  · rfl

theorem afterRead_succ (memory : Memory) (address count : Nat) :
    memory.afterRead address (count + 1) =
      (memory.afterGet address).afterRead (address + 1) count := by
  unfold afterRead
  rw [mappings_afterGet]
  split
  · next hempty => rw [afterGet, if_pos hempty]
  · rfl

theorem afterGet_eq_self {memory : Memory} (hempty : memory.mappings = []) (address : Nat) :
    memory.afterGet address = memory := by
  rw [afterGet, hempty]
  rfl

/-- Without mappings, reading changes nothing. -/
theorem afterRead_eq_self {memory : Memory} (hempty : memory.mappings = [])
    (address count : Nat) : memory.afterRead address count = memory := by
  rw [afterRead, hempty]
  rfl

theorem read_eq {memory : Memory} (hempty : memory.mappings = []) (address count : Nat) :
    memory.read address count = (List.range count).map fun i => memory.get (address + i) := by
  unfold read get
  rw [hempty, Ram.read_eq]
  rfl

@[simp] theorem length_read (memory : Memory) (address count : Nat) :
    (memory.read address count).length = count := by
  induction count generalizing memory address with
  | zero => simp
  | succ count ih => simp [read_succ, ih]

@[simp] theorem mappings_set (memory : Memory) (address : Nat) (value : UInt8) :
    (memory.set address value).mappings = memory.mappings := by
  unfold set
  repeat' split
  all_goals rfl

@[simp] theorem write_nil (memory : Memory) (address : Nat) : memory.write address [] = memory := by
  unfold write
  split <;> rfl

/-- Bytes are written one after another. -/
theorem write_cons (memory : Memory) (address : Nat) (byte : UInt8) (rest : Bytes) :
    memory.write address (byte :: rest) = (memory.set address byte).write (address + 1) rest := by
  unfold write
  rw [mappings_set]
  split
  · next hempty => simp [set, hempty, Ram.write]
  · rfl

@[simp] theorem mappings_write (memory : Memory) (address : Nat) (bytes : Bytes) :
    (memory.write address bytes).mappings = memory.mappings := by
  induction bytes generalizing memory address with
  | nil => simp
  | cons byte rest ih => simp [write_cons, ih]

end Memory

end VectorStack
