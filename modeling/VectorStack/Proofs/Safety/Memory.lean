import VectorStack.Memory
import VectorStack.Proofs.Machine.Step
import VectorStack.Proofs.Safety.Guard
/-!
Memory with guards. Addresses are added up in 64 bits, main memory is an array whose elements are
found by the lowest bits of an address, and a range leads to an element of the attached devices. No
guard fails in a memory that came about by attaching and mapping devices, whatever it holds.
-/

namespace VectorStack

open Address (space wrap)

/-- The place of an address in a block: its lowest bits, as the size is a power of two. -/
def Ram.guardedPlace (ram : Ram) (address : Nat) : Guarded Nat := do
  let last ← Guard.unsigned 64 ((ram.size : Int) - 1)
  Guard.index ram.size (address &&& last)

namespace Memory

/-- Where the latest range around an address routes it to. -/
def guardedRoute (memory : Memory) (address : Nat) : Guarded (Option (Nat × Nat)) :=
  memory.mappings.findSomeM? fun mapping =>
    match mapping.distance? address with
    | none => pure none
    | some distance => do
      let offset ← Guard.unsigned 64 ((mapping.offset + distance : Nat) : Int)
      pure (some (mapping.device, wrap offset))

/-- A device that a range leads to. -/
def guardedDevice (memory : Memory) (device : Nat) : Guarded Device :=
  match memory.devices[device]? with
  | some device => pure device
  | none => throw .bounds

/-- The byte some places behind an address, and the memory after it was read. -/
def guardedGet (memory : Memory) (address distance : Nat) : Guarded (UInt8 × Memory) := do
  let address ← Guard.unsigned 64 ((address + distance : Nat) : Int)
  if memory.mappings.isEmpty then
    let place ← memory.ram.guardedPlace address
    pure (memory.ram.get place, memory)
  else
    match ← memory.guardedRoute (wrap address) with
    | none =>
      let place ← memory.ram.guardedPlace (wrap address)
      pure (memory.ram.get place, memory)
    | some (device, offset) =>
      let found ← memory.guardedDevice device
      pure (found.get offset,
        { memory with devices := memory.devices.modify device (·.afterGet offset) })

/-- Set the byte some places behind an address. -/
def guardedSet (memory : Memory) (address distance : Nat) (value : UInt8) : Guarded Memory := do
  let address ← Guard.unsigned 64 ((address + distance : Nat) : Int)
  if memory.mappings.isEmpty then
    let place ← memory.ram.guardedPlace address
    pure { memory with ram := memory.ram.set place value }
  else
    match ← memory.guardedRoute (wrap address) with
    | none =>
      let place ← memory.ram.guardedPlace (wrap address)
      pure { memory with ram := memory.ram.set place value }
    | some (device, offset) =>
      let _ ← memory.guardedDevice device
      pure { memory with devices := memory.devices.modify device (·.set offset value) }

/-- Read bytes in order, the first of them some places behind an address. -/
def guardedReadFrom (memory : Memory) (address distance : Nat) :
    (count : Nat) → Guarded (Bytes × Memory)
  | 0 => pure ([], memory)
  | count + 1 => do
    let (byte, memory) ← memory.guardedGet address distance
    let (rest, memory) ← memory.guardedReadFrom address (distance + 1) count
    pure (byte :: rest, memory)

def guardedRead (memory : Memory) (address count : Nat) : Guarded (Bytes × Memory) :=
  memory.guardedReadFrom address 0 count

/-- Write bytes in order, the first of them some places behind an address. -/
def guardedWriteFrom (memory : Memory) (address distance : Nat) : Bytes → Guarded Memory
  | [] => pure memory
  | byte :: rest => do
    let memory ← memory.guardedSet address distance byte
    memory.guardedWriteFrom address (distance + 1) rest

def guardedWrite (memory : Memory) (address : Nat) (bytes : Bytes) : Guarded Memory :=
  memory.guardedWriteFrom address 0 bytes

/-- The number in some of the eight bytes of a word. -/
def guardedReadNat (memory : Memory) (address count : Nat) : Guarded (Nat × Memory) := do
  let count ← Guard.part 8 count
  let (bytes, memory) ← memory.guardedRead address count
  pure (Bytes.toNat bytes, memory)

/-- Write some of the eight bytes of a word. -/
def guardedWriteNat (memory : Memory) (address count value : Nat) : Guarded Memory := do
  let count ← Guard.part 8 count
  memory.guardedWrite address (Bytes.ofNat count value)

/-- Main memory covers the address space, and every range leads to an attached device, where it
starts at an address of 32 bits. -/
structure Sound (memory : Memory) : Prop where
  size_eq : memory.ram.size = space
  routed : ∀ mapping ∈ memory.mappings,
    mapping.device < memory.devices.size ∧ mapping.offset < 2 ^ 32

variable {memory : Memory} {address distance count : Nat}

theorem Sound.later {after : Memory} (hsound : memory.Sound) (hlater : memory.Later after) :
    after.Sound := by
  obtain ⟨added, hmappings, hadded⟩ := hlater.mappings_eq
  constructor
  · rw [hlater.size_eq, hsound.size_eq]
  · intro mapping hmem
    rw [hmappings] at hmem
    rw [hlater.devices_eq]
    rcases List.mem_append.mp hmem with hmem | hmem
    · obtain ⟨-, hdevice, hoffset⟩ := hadded mapping hmem
      exact ⟨hdevice, by rw [hoffset]; decide⟩
    · exact hsound.routed mapping hmem

theorem guardedPlace_eq {ram : Ram} (hsize : ram.size = space) (address : Nat) :
    ram.guardedPlace address = .ok (address % ram.size) := by
  have hlast : ((ram.size : Int) - 1) = ((2 ^ 24 - 1 : Nat) : Int) := by
    rw [hsize]
    rfl
  have hsize' : ram.size = 2 ^ 24 := hsize
  rw [Ram.guardedPlace, hlast, Guard.unsigned_eq (by decide), Guarded.ok_bind,
    Nat.and_two_pow_sub_one_eq_mod, ← hsize']
  exact Guard.index_eq (Nat.mod_lt _ ram.size_pos)

theorem distance_lt {mapping : Mapping} (hdistance : mapping.distance? address = some distance) :
    distance < space := by
  simp only [Mapping.distance?, Option.ite_none_right_eq_some, Option.some.injEq] at hdistance
  rw [← hdistance.2]
  exact Address.move_lt _ _

theorem Sound.guardedRoute_eq (hsound : memory.Sound) (address : Nat) :
    memory.guardedRoute address = .ok (memory.route address) := by
  have hrouted := hsound.routed
  unfold guardedRoute route
  generalize memory.mappings = mappings at hrouted ⊢
  induction mappings with
  | nil => rfl
  | cons mapping rest ih =>
      have hrest := ih fun other hmem => hrouted other (List.mem_cons_of_mem mapping hmem)
      have hoffset := (hrouted mapping List.mem_cons_self).2
      cases hdistance : mapping.distance? address with
      | none =>
          have htarget : mapping.target? address = none := by
            rw [Mapping.target?, hdistance]
            rfl
          rw [List.findSome?_cons, htarget, List.findSomeM?_cons, hdistance]
          exact hrest
      | some distance =>
          have hspace : distance < 0x1000000 := distance_lt hdistance
          have hsum : mapping.offset + distance < 2 ^ 64 := by omega
          have htarget : mapping.target? address =
              some (mapping.device, wrap (mapping.offset + distance)) := by
            rw [Mapping.target?, hdistance]
            rfl
          rw [List.findSome?_cons, htarget, List.findSomeM?_cons, hdistance]
          simp only [Guard.unsigned_eq hsum, Guarded.ok_bind, Guarded.pure_eq]

/-- A range around an address leads to an attached device. -/
theorem Sound.guardedDevice_eq (hsound : memory.Sound) {device offset : Nat}
    (hroute : memory.route address = some (device, offset)) :
    ∃ found, memory.devices[device]? = some found ∧ memory.guardedDevice device = .ok found := by
  obtain ⟨mapping, hmem, htarget⟩ := List.exists_of_findSome?_eq_some hroute
  obtain ⟨found, -, htarget⟩ := Option.map_eq_some_iff.mp htarget
  cases htarget
  have hdevice := Array.getElem?_eq_getElem (hsound.routed mapping hmem).1
  refine ⟨_, hdevice, ?_⟩
  rw [guardedDevice, hdevice]
  rfl

theorem Sound.guardedGet_eq (hsound : memory.Sound) (hlt : address + distance < 2 ^ 64) :
    memory.guardedGet address distance =
      .ok (memory.get (address + distance), memory.afterGet (address + distance)) := by
  have hplace := guardedPlace_eq hsound.size_eq
  have hroute := hsound.guardedRoute_eq (wrap (address + distance))
  rw [guardedGet, get, afterGet, Guard.unsigned_eq hlt, Guarded.ok_bind]
  by_cases hempty : memory.mappings.isEmpty = true
  · rw [if_pos hempty, if_pos hempty, if_pos hempty, hplace]
    simp only [Guarded.ok_bind, Guarded.pure_eq, Ram.get_mod_size]
  · rw [if_neg hempty, if_neg hempty, if_neg hempty, hroute, Guarded.ok_bind]
    cases htarget : memory.route (wrap (address + distance)) with
    | none => simp only [hplace, Guarded.ok_bind, Guarded.pure_eq, Ram.get_mod_size]
    | some target =>
        obtain ⟨found, hfound, hguarded⟩ := hsound.guardedDevice_eq htarget
        simp only [hfound, hguarded, Guarded.ok_bind, Guarded.pure_eq]
        rfl

theorem Sound.guardedSet_eq (hsound : memory.Sound) (hlt : address + distance < 2 ^ 64)
    (value : UInt8) :
    memory.guardedSet address distance value = .ok (memory.set (address + distance) value) := by
  have hplace := guardedPlace_eq hsound.size_eq
  have hroute := hsound.guardedRoute_eq (wrap (address + distance))
  have hset : ∀ place, memory.ram.set (place % memory.ram.size) value =
      memory.ram.set place value := by
    intro place
    simp only [Ram.set, Nat.mod_mod]
  rw [guardedSet, set, Guard.unsigned_eq hlt, Guarded.ok_bind]
  by_cases hempty : memory.mappings.isEmpty = true
  · rw [if_pos hempty, if_pos hempty, hplace]
    simp only [Guarded.ok_bind, Guarded.pure_eq, hset]
  · rw [if_neg hempty, if_neg hempty, hroute, Guarded.ok_bind]
    cases htarget : memory.route (wrap (address + distance)) with
    | none => simp only [hplace, Guarded.ok_bind, Guarded.pure_eq, hset]
    | some target =>
        obtain ⟨found, hfound, hguarded⟩ := hsound.guardedDevice_eq htarget
        simp only [hguarded, Guarded.ok_bind, Guarded.pure_eq]

theorem Sound.observed {after : Memory} (hsound : memory.Sound)
    (hobserved : memory.Observed after) : after.Sound :=
  hsound.later hobserved.later

theorem Sound.guardedReadFrom_eq (hsound : memory.Sound)
    (hlt : address + distance + count ≤ 2 ^ 64) :
    memory.guardedReadFrom address distance count =
      .ok (memory.read (address + distance) count,
        memory.afterRead (address + distance) count) := by
  induction count generalizing memory distance with
  | zero => simp [guardedReadFrom]
  | succ count ih =>
      have hget := hsound.guardedGet_eq (by omega : address + distance < 2 ^ 64)
      have hnext := hsound.observed (memory.observed_afterGet (address + distance))
      have hrest := ih hnext (by omega : address + (distance + 1) + count ≤ 2 ^ 64)
      simp only [guardedReadFrom, hget, Guarded.ok_bind, hrest, Guarded.pure_eq, read_succ,
        afterRead_succ, Nat.add_assoc]

theorem Sound.guardedRead_eq (hsound : memory.Sound) (hlt : address + count ≤ 2 ^ 64) :
    memory.guardedRead address count =
      .ok (memory.read address count, memory.afterRead address count) :=
  hsound.guardedReadFrom_eq hlt

theorem Sound.guardedWriteFrom_eq (hsound : memory.Sound) {bytes : Bytes}
    (hlt : address + distance + bytes.length ≤ 2 ^ 64) :
    memory.guardedWriteFrom address distance bytes =
      .ok (memory.write (address + distance) bytes) := by
  induction bytes generalizing memory distance with
  | nil => simp [guardedWriteFrom]
  | cons byte rest ih =>
      rw [List.length_cons] at hlt
      have hset := hsound.guardedSet_eq (by omega : address + distance < 2 ^ 64) byte
      have hnext := hsound.later (memory.later_set (address + distance) byte)
      rw [guardedWriteFrom, hset, Guarded.ok_bind, write_cons]
      exact ih hnext (by omega)

theorem Sound.guardedWrite_eq (hsound : memory.Sound) {bytes : Bytes}
    (hlt : address + bytes.length ≤ 2 ^ 64) :
    memory.guardedWrite address bytes = .ok (memory.write address bytes) :=
  hsound.guardedWriteFrom_eq hlt

theorem Sound.guardedReadNat_eq (hsound : memory.Sound) (hlt : address < 2 ^ 32)
    (hcount : count ≤ 8) :
    memory.guardedReadNat address count =
      .ok (memory.readNat address count, memory.afterRead address count) := by
  rw [guardedReadNat, Guard.part_eq hcount, Guarded.ok_bind, hsound.guardedRead_eq (by omega)]
  rfl

theorem Sound.guardedWriteNat_eq (hsound : memory.Sound) (hlt : address < 2 ^ 32)
    (hcount : count ≤ 8) (value : Nat) :
    memory.guardedWriteNat address count value = .ok (memory.writeNat address count value) := by
  rw [guardedWriteNat, Guard.part_eq hcount, Guarded.ok_bind]
  apply hsound.guardedWrite_eq
  rw [Bytes.length_ofNat]
  omega

end Memory

end VectorStack
