import VectorStack.Program
import VectorStack.Proofs.Machine.Execution
/-!
Machines in the hands of a host. A host steps and runs a machine, sets its registers, loads programs
and changes memory, and attaches, maps and unmaps devices, in any order. Whatever it asks for, the
registers stay addresses and every range stays routed to an attached device.
-/

namespace VectorStack

open Address (space)

/-- What a host can do with a machine. -/
inductive Request where
  | step
  | run (count : Nat)
  | reset
  | setPc (pc : Nat)
  | setFp (fp : Nat)
  | setSp (sp : Nat)
  | setSleep (sleep : Nat)
  | takeOutput
  | load (program : Program)
  /-- Read bytes, which may go to a device that changes by it. -/
  | read (address count : Nat)
  | write (address : Nat) (bytes : Bytes)
  /-- Write main memory, whatever is mapped over it. -/
  | writeRam (address : Nat) (bytes : Bytes)
  | clearRam
  | attach (device : Device)
  /-- Put another device in the place of an attached one, such as one that has changed by itself. -/
  | change (device : Nat) (other : Device)
  | map (address device offset length : Nat)
  | unmapAll

namespace Machine

/-- The machine after a request. -/
def handle (m : Machine) : Request → Machine
  | .step => m.step.2
  | .run count => (m.run count).2
  | .reset => m.reset
  | .setPc pc => m.setPc pc
  | .setFp fp => m.setFp fp
  | .setSp sp => m.setSp sp
  | .setSleep sleep => m.setSleep sleep
  | .takeOutput => m.takeOutput.2
  | .load program => { m with memory := program.load m.memory }
  | .read address count => m.afterRead address count
  | .write address bytes => { m with memory := m.memory.write address bytes }
  | .writeRam address bytes =>
    { m with memory := { m.memory with ram := m.memory.ram.write address bytes } }
  | .clearRam => { m with memory := { m.memory with ram := m.memory.ram.clear } }
  | .attach device => { m with memory := m.memory.attach device }
  | .change device other =>
    { m with memory :=
        { m.memory with devices := m.memory.devices.setIfInBounds device other } }
  | .map address device offset length =>
    { m with memory := (m.memory.map? address device offset length).getD m.memory }
  | .unmapAll => { m with memory := m.memory.unmapAll }

/-- The machine after several requests, one after another. -/
def handleAll (m : Machine) (requests : List Request) : Machine := requests.foldl handle m

end Machine

/-- Every range starts in the address space and is routed to an attached device. -/
def Memory.Routed (memory : Memory) : Prop :=
  ∀ mapping ∈ memory.mappings, mapping.start < space ∧ mapping.device < memory.devices.size

/-- Ranges stay routed as long as no device goes. -/
theorem Memory.Routed.of_size_le {memory after : Memory} (hrouted : memory.Routed)
    (hmappings : after.mappings = memory.mappings)
    (hsize : memory.devices.size ≤ after.devices.size) : after.Routed := by
  intro mapping hmem
  rw [hmappings] at hmem
  obtain ⟨hstart, hdevice⟩ := hrouted mapping hmem
  exact ⟨hstart, Nat.lt_of_lt_of_le hdevice hsize⟩

theorem Memory.Routed.later {memory after : Memory} (hrouted : memory.Routed)
    (hlater : memory.Later after) : after.Routed := by
  obtain ⟨added, hmappings, hadded⟩ := hlater.mappings_eq
  intro mapping hmem
  rw [hlater.devices_eq]
  rw [hmappings] at hmem
  rcases List.mem_append.mp hmem with hmem | hmem
  · obtain ⟨hstart, hdevice, -⟩ := hadded mapping hmem
    exact ⟨hstart, hdevice⟩
  · exact hrouted mapping hmem

/-- A range is only added when its device is there. -/
theorem Memory.Routed.map {memory : Memory} (hrouted : memory.Routed)
    (address device offset length : Nat) :
    ((memory.map? address device offset length).getD memory).Routed := by
  cases hmap : memory.map? address device offset length with
  | none => exact hrouted
  | some mapped =>
      obtain ⟨hdevice, rfl⟩ := map?_eq_some hmap
      intro mapping hmem
      rcases List.mem_cons.mp hmem with rfl | hmem
      · exact ⟨Address.wrap_lt _, hdevice⟩
      · exact hrouted mapping hmem

theorem Program.later_load (program : Program) (memory : Memory) :
    memory.Later (program.load memory) := by
  obtain ⟨segments⟩ := program
  induction segments generalizing memory with
  | nil => exact .refl memory
  | cons segment rest ih => exact (memory.later_write segment.address segment.bytes).trans (ih _)

namespace Machine

/-- The registers are addresses, also the ones that a reset puts back, and every range is routed to
an attached device. -/
structure Addressed (m : Machine) : Prop where
  registers : m.registers.Below space
  start : m.start.Below space
  routed : m.memory.Routed

variable {m : Machine}

theorem Effect.start_eq {after : Machine} {op : Opcode} (heffect : Effect m op after) :
    after.start = m.start := by
  cases heffect with
  | @setRegister register _ _ | @moveRegister register _ _ => cases register <;> rfl
  | debugText hobserved =>
      obtain ⟨memory, -, rfl⟩ := hobserved
      rfl
  | none | load | halt | sleep | store | reserve | jump | switch | call | ret | random | mapDevice
  | debug => rfl

theorem start_step (m : Machine) : m.step.2.start = m.start := by
  have hstepped := m.stepped_step
  generalize m.step.1 = outcome, m.step.2 = after at hstepped ⊢
  cases hstepped with
  | halted | sleeping => rfl
  | skipped =>
      obtain ⟨memory, -, hlocated⟩ := m.exists_located 0 m.fetch.locatedSlots
      rw [hlocated]
  | executed =>
      obtain ⟨memory, -, hsupplied⟩ := m.exists_supplied
      have hperformed := m.effect_performed.start_eq
      rw [hsupplied] at hperformed
      rw [writeOutputs_performed]
      exact hperformed

theorem Addressed.step (haddressed : m.Addressed) : m.step.2.Addressed where
  registers := below_step (Nat.le_refl _) haddressed.registers
  start := by
    rw [start_step]
    exact haddressed.start
  routed := haddressed.routed.later m.later_step

/-- No request takes a register or a range out of the address space. -/
theorem Addressed.handle (haddressed : m.Addressed) (request : Request) :
    (m.handle request).Addressed := by
  obtain ⟨hregisters, hstart, hrouted⟩ := haddressed
  cases request with
  | step => exact Addressed.step ⟨hregisters, hstart, hrouted⟩
  | run count => exact runFrom_keeps (fun _ => Addressed.step) ⟨hregisters, hstart, hrouted⟩ 0 count
  | reset => exact ⟨hstart, hstart, hrouted⟩
  | setPc pc => exact ⟨⟨Address.wrap_lt pc, hregisters.fp_lt, hregisters.sp_lt⟩, hstart, hrouted⟩
  | setFp fp => exact ⟨⟨hregisters.pc_lt, Address.wrap_lt fp, hregisters.sp_lt⟩, hstart, hrouted⟩
  | setSp sp => exact ⟨⟨hregisters.pc_lt, hregisters.fp_lt, Address.wrap_lt sp⟩, hstart, hrouted⟩
  | setSleep | takeOutput | writeRam | clearRam => exact ⟨hregisters, hstart, hrouted⟩
  | load program => exact ⟨hregisters, hstart, hrouted.later (program.later_load m.memory)⟩
  | read address count =>
      exact ⟨hregisters, hstart, hrouted.later (m.memory.observed_afterRead address count).later⟩
  | write address bytes =>
      exact ⟨hregisters, hstart, hrouted.later (m.memory.later_write address bytes)⟩
  | attach device =>
      have hsize : m.memory.devices.size ≤ (m.memory.devices.push device).size := by simp
      exact ⟨hregisters, hstart, hrouted.of_size_le rfl hsize⟩
  | change device other =>
      have hsize : m.memory.devices.size ≤ (m.memory.devices.setIfInBounds device other).size := by
        simp
      exact ⟨hregisters, hstart, hrouted.of_size_le rfl hsize⟩
  | map address device offset length =>
      exact ⟨hregisters, hstart, hrouted.map address device offset length⟩
  | unmapAll => exact ⟨hregisters, hstart, fun _ hmem => absurd hmem List.not_mem_nil⟩

theorem Addressed.handleAll (haddressed : m.Addressed) (requests : List Request) :
    (m.handleAll requests).Addressed := by
  induction requests generalizing m with
  | nil => exact haddressed
  | cons request rest ih => exact ih (haddressed.handle request)

theorem addressed_new {start : Registers} (hstart : start.Below space) (generator : Generator) :
    (new start generator).Addressed :=
  ⟨hstart, hstart, fun _ hmem => absurd hmem List.not_mem_nil⟩

/-- Whatever a host does with a machine that it made with addresses in the registers, the registers
are addresses, and every range starts at an address and is routed to an attached device. -/
theorem addressed_of_requests {start : Registers} (hstart : start.Below space)
    (generator : Generator) (requests : List Request) :
    ((new start generator).handleAll requests).Addressed :=
  (addressed_new hstart generator).handleAll requests

/-- Values from outside of the address space, a jump, a range for a device that is not there, and a
step over what a device answers. -/
theorem addressed_of_requests_outside :
    let jump : Instruction := ⟨.jump, 1, 1, (.p24, .u8, .u8), 1, 1⟩
    let requests : List Request :=
      [.setPc 0x1000040, .setSp 0xffffffff, .write 0x1000040 (Bytes.ofWord 8 jump.encode),
        .write 0x48 [0xff, 0xff, 0xff], .step, .attach .counter, .map 0xfffffff0 0 0xffffffff 32,
        .map 0 7 0 1, .read 0x1000000 3, .write 0xffffff [0], .step]
    let m := (new ⟨0, 0xffffff, 0⟩ default).handleAll requests
    m.Addressed ∧ m.registers = ⟨7, 0xffffff, 0xffffff⟩ ∧
      m.memory.mappings = [⟨0xfffff0, 32, 0, 0xffffffff⟩] ∧
      m.memory.devices[0]?.map (·.get 0) = some 14 := by
  intro jump requests m
  have hstart : Registers.Below space ⟨0, 0xffffff, 0⟩ := ⟨by decide, by decide, by decide⟩
  refine ⟨addressed_of_requests hstart default requests, ?_⟩
  decide +kernel

end Machine

end VectorStack
