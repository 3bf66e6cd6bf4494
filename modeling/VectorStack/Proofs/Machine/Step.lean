import Mathlib.Algebra.Ring.Nat
import VectorStack.Proofs.Machine.Reading
import VectorStack.Proofs.Program.Loading
/-!
What a step can do. Every operation has one of a few effects beside its outputs, and from these
follows what steps keep: main memory keeps its size, no device comes or goes, and ranges are only
added, each of them routed to an attached device.
-/

namespace VectorStack

open Address (space wrap)

namespace Memory

/-- Memory after some instructions: main memory has the size it had, no device has come or gone,
and ranges that were added have their start in the address space and their device attached. -/
structure Later (before after : Memory) : Prop where
  size_eq : after.ram.size = before.ram.size
  devices_eq : after.devices.size = before.devices.size
  mappings_eq : ∃ added, after.mappings = added ++ before.mappings ∧
    ∀ mapping ∈ added,
      mapping.start < space ∧ mapping.device < before.devices.size ∧ mapping.offset = 0

theorem Later.refl (memory : Memory) : memory.Later memory :=
  ⟨rfl, rfl, [], rfl, by simp⟩

theorem Later.trans {first second third : Memory} (hfirst : first.Later second)
    (hsecond : second.Later third) : first.Later third := by
  obtain ⟨added, hadded, hproper⟩ := hfirst.mappings_eq
  obtain ⟨more, hmore, hproper'⟩ := hsecond.mappings_eq
  refine ⟨hsecond.size_eq.trans hfirst.size_eq, hsecond.devices_eq.trans hfirst.devices_eq,
    more ++ added, by rw [hmore, hadded, List.append_assoc], ?_⟩
  intro mapping hmem
  rcases List.mem_append.mp hmem with hmem | hmem
  · rw [← hfirst.devices_eq]
    exact hproper' mapping hmem
  · exact hproper mapping hmem

theorem Observed.later {before after : Memory} (hobserved : before.Observed after) :
    before.Later after :=
  ⟨by rw [hobserved.ram_eq], hobserved.devices_eq, [], hobserved.mappings_eq, nofun⟩

theorem later_set (memory : Memory) (address : Nat) (value : UInt8) :
    memory.Later (memory.set address value) := by
  unfold set
  repeat' split
  all_goals exact ⟨rfl, by simp, [], rfl, by simp⟩

theorem later_write (memory : Memory) (address : Nat) (bytes : Bytes) :
    memory.Later (memory.write address bytes) := by
  induction bytes generalizing memory address with
  | nil =>
      rw [write_nil]
      exact .refl memory
  | cons byte rest ih =>
      rw [write_cons]
      exact (memory.later_set address byte).trans (ih _ _)

/-- A range can be routed to an attached device only. -/
theorem map?_eq_some {memory mapped : Memory} {address device offset length : Nat}
    (hmap : memory.map? address device offset length = some mapped) :
    device < memory.devices.size ∧
      mapped = { memory with
        mappings := ⟨wrap address, length, device, offset⟩ :: memory.mappings } := by
  unfold map? at hmap
  split at hmap
  · next hdevice =>
      cases hmap
      exact ⟨hdevice, rfl⟩
  · cases hmap

theorem later_map? {memory mapped : Memory} {address device length : Nat}
    (hmap : memory.map? address device 0 length = some mapped) : memory.Later mapped := by
  obtain ⟨hdevice, rfl⟩ := map?_eq_some hmap
  refine ⟨rfl, rfl, [_], rfl, ?_⟩
  intro mapping hmem
  rw [List.mem_singleton.mp hmem]
  exact ⟨Address.wrap_lt _, hdevice, rfl⟩

end Memory

namespace Opcode

/-- Operations that only compute. -/
def Computes : Opcode → Prop
  | nop | pop | push | dup | swizzle | unary _ | binary _ | reduce _ | convert _ | real _ | atan2 =>
    True
  | _ => False

theorem Computes.execute_eq {op : Opcode} (hcomputes : op.Computes) (m : Machine)
    (inputs : List Input) (outputs : List Shape) :
    m.execute op inputs outputs = (m, op.results (inputs.map Input.lanes) outputs) := by
  cases op with
  | nop | pop | push | dup | swizzle | unary | binary | reduce | convert | real | atan2 => rfl
  | _ => exact hcomputes.elim

/-- Operations that may go on somewhere else than behind themselves and leave no frame. -/
def jumps : Opcode → Prop
  | jump | branchZero _ | branchCompare _ | switch => True
  | _ => False

end Opcode

/-- Everything in a decoded word fits its field. -/
theorem Instruction.decode_fits (word : UInt64) : (Instruction.decode word).Fits where
  width_pos := Nat.le_add_left 1 _
  width_le := Nat.mod_lt (word.toNat / 128) (by decide : 8 > 0)
  immediateCount_lt := Nat.mod_lt _ (by decide)
  immediate_lt := Nat.mod_lt _ (by decide)
  inlined_lt := Nat.mod_lt _ (by decide)

namespace Machine

theorem fetch_fits (m : Machine) : m.fetch.Fits := Instruction.decode_fits _

/-- What an operation does to the machine beside its outputs. -/
inductive Effect (m : Machine) : Opcode → Machine → Prop
  /-- An operation that only computes, or a branch that is not taken. -/
  | none {op : Opcode} : Effect m op m
  | load {base : Base} (address count : Nat) : Effect m (.load base) (m.afterRead address count)
  | halt : Effect m .halt (m.setSleep halted)
  | sleep {count : Nat} (hlt : count < 2 ^ 64) : Effect m .sleep (m.setSleep count)
  | store {base : Base} (address : Nat) (bytes : Bytes) :
      Effect m (.store base) { m with memory := m.memory.write address bytes }
  | setRegister {register : Register} {value : Nat} (hlt : value < space) :
      Effect m (.setRegister register) (m.writeRegister register value)
  | moveRegister {register : Register} {value : Nat} (hlt : value < space) :
      Effect m (.moveRegister register) (m.writeRegister register value)
  | reserve {value : Nat} (hlt : value < space) : Effect m .reserve (m.withSp value)
  | jump {op : Opcode} {target : Nat} (hjumps : op.jumps) (hlt : target < space) :
      Effect m op (m.withPc target)
  | switch {address count target : Nat} (hlt : target < space) :
      Effect m .switch ((m.afterRead address count).withPc target)
  | call {target : Nat} (hlt : target < space) : Effect m .call (m.enter target)
  | ret : Effect m .ret m.leave
  | random (generator : Generator) : Effect m .random { m with generator }
  | mapDevice {address device length : Nat} {memory : Memory}
      (hmap : m.memory.map? address device 0 length = some memory) :
      Effect m .mapDevice { m with memory }
  | debug (line : String) : Effect m .debug (m.print line)
  | debugText {after : Machine} (hobserved : m.Observed after) (line : String) :
      Effect m .debugText (after.print line)

theorem effect_branch (m : Machine) (op : Opcode) (hjumps : op.jumps) (taken : Bool)
    {target : Nat} (hlt : target < space) : Effect m op (m.branch taken target) := by
  unfold branch
  split
  · exact .jump hjumps hlt
  · exact .none

/-- Every operation has one of the effects. -/
theorem effect_execute (m : Machine) (op : Opcode) (inputs : List Input) (outputs : List Shape) :
    Effect m op (m.execute op inputs outputs).1 := by
  unfold execute
  split
  · exact .halt
  · exact .load _ _
  · exact .store _ _
  · exact .none
  · exact .setRegister (Address.wrap_lt _)
  · exact .moveRegister (Address.move_lt _ _)
  · exact .jump trivial (Address.wrap_lt _)
  · exact m.effect_branch (.branchZero _) trivial _ (Address.wrap_lt _)
  · exact m.effect_branch (.branchCompare _) trivial _ (Address.wrap_lt _)
  · exact .switch (Address.wrap_lt _)
  · exact .call (Address.wrap_lt _)
  · exact .reserve (Address.move_lt _ _)
  · exact .ret
  · exact .random _
  · exact .sleep (UInt64.toNat_lt _)
  · next device address length =>
      cases hmap : m.memory.map? address.lanes.address device.lanes.number 0 length.lanes.number
      · exact .none
      · exact .mapDevice hmap
  · exact .debug _
  · exact .debugText (m.observed_textAt _) _
  · exact .none

theorem later_enter (m : Machine) (target : Nat) : m.memory.Later (m.enter target).memory :=
  (m.memory.later_write _ _).trans (Memory.later_write _ _ _)

theorem Effect.later {m after : Machine} {op : Opcode} (heffect : Effect m op after) :
    m.memory.Later after.memory := by
  cases heffect with
  | store address bytes => exact m.memory.later_write address bytes
  | mapDevice hmap => exact Memory.later_map? hmap
  | call hlt => exact m.later_enter _
  | @setRegister register _ _ | @moveRegister register _ _ =>
      cases register <;> exact .refl m.memory
  | load | switch => exact (m.memory.observed_afterRead _ _).later
  | ret => exact m.memory_observed_leave.later
  | debugText hobserved => exact hobserved.memory.later
  | none | halt | sleep | reserve | jump | random | debug => exact .refl m.memory

theorem later_writeOutput (m : Machine) (operand : Operand) (lanes : LaneVector) :
    m.memory.Later (m.writeOutput operand lanes).memory := by
  unfold writeOutput
  cases operand.place with
  | stack => exact m.memory.later_write _ _
  | memory address => exact m.memory.later_write _ _

theorem later_writeOutputs (m : Machine) (operands : List Operand) (results : List LaneVector) :
    m.memory.Later (m.writeOutputs operands results).memory := by
  induction operands generalizing m results with
  | nil => exact .refl m.memory
  | cons operand rest ih =>
      cases results with
      | nil => exact .refl m.memory
      | cons lanes results =>
          exact (m.later_writeOutput operand lanes).trans (ih (m.writeOutput operand lanes) results)

theorem later_perform (m : Machine) (i : Instruction) (inputs outputs : List Operand) :
    m.memory.Later (m.perform i inputs outputs).memory := by
  let popped := m.withSp (popInputs m.sp inputs).1
  let addresses := (popInputs m.sp inputs).2
  have hread : m.memory.Later (popped.afterInputs inputs addresses).memory :=
    (popped.observed_afterInputs inputs addresses).memory.later
  have hexecuted := ((popped.afterInputs inputs addresses).effect_execute i.opcode
    (popped.readInputs inputs addresses) (outputs.map Operand.shape)).later
  exact (hread.trans hexecuted).trans (later_writeOutputs _ outputs _)

theorem later_step (m : Machine) : m.memory.Later m.step.2.memory := by
  unfold step
  split
  · exact .refl m.memory
  · split
    · exact .refl m.memory
    · unfold advance
      have hfetched := (m.memory.observed_afterRead m.pc Instruction.wordBytes).later
      have hlocated (count : Nat) := hfetched.trans
        (observed_afterPlaces ((m.afterRead m.pc Instruction.wordBytes).withPc
          (Address.move m.pc m.fetch.size)) m.fetch m.pc 0 count).memory.later
      dsimp only
      split
      · exact (hlocated _).trans (later_perform _ _ _ _)
      · exact hlocated _

/-- What every step keeps is kept by every run. -/
theorem runFrom_keeps {P : Machine → Prop} (hstep : ∀ m, P m → P m.step.2) {m : Machine}
    (hm : P m) (taken count : Nat) : P (m.runFrom taken count).2 := by
  induction count generalizing taken m with
  | zero => exact hm
  | succ count ih =>
      have hnext := hstep m hm
      unfold runFrom
      split
      · next after hhalted =>
          rw [hhalted] at hnext
          exact hnext
      · next outcome after _ hafter =>
          rw [hafter] at hnext
          exact ih hnext (taken + 1)

/-- Memory after a run is memory after some instructions. -/
theorem later_run (m : Machine) (count : Nat) : m.memory.Later (m.run count).2.memory :=
  runFrom_keeps (P := fun after => m.memory.Later after.memory)
    (fun after hlater => hlater.trans after.later_step) (.refl m.memory) 0 count

end Machine

end VectorStack
