import VectorStack.Proofs.Machine.Step
/-!
A step taken apart. What a step does is one of four things, and an instruction that is executed has
its operands, the addresses where they lie and the results of its operation. There is a result for
every output, with the shape of the output, and writing them leaves all but memory and the stack
pointer alone.
-/

namespace VectorStack

/-- Registers that are all below a bound. -/
structure Registers.Below (bound : Nat) (registers : Registers) : Prop where
  pc_lt : registers.pc < bound
  fp_lt : registers.fp < bound
  sp_lt : registers.sp < bound

namespace LaneVector

/-- A vector with the type and the width of a shape, and with no cells but its lanes. -/
structure HasShape (shape : Shape) (v : LaneVector) : Prop where
  type_eq : v.type = shape.type
  width_eq : v.width = shape.width
  length_eq : v.cells.length = v.width

theorem hasShape_tabulate (shape : Shape) (f : Nat → Cell) :
    HasShape shape (tabulate shape.type shape.width f) :=
  ⟨rfl, rfl, by simp [tabulate]⟩

theorem hasShape_ofBytes (shape : Shape) (bytes : Bytes) :
    HasShape shape (ofBytes shape.type shape.width bytes) :=
  ⟨rfl, rfl, by simp [ofBytes, shape.type.decodeLanes_eq]⟩

theorem HasShape.length_encode {shape : Shape} {v : LaneVector} (hshape : HasShape shape v) :
    v.encode.length = shape.byteLength := by
  have hlanes : v.lanes.length = shape.width := by
    rw [lanes, ← hshape.length_eq, List.take_length, hshape.length_eq, hshape.width_eq]
  simp only [encode, List.length_flatMap, DataType.length_encodeLane, List.map_const',
    List.sum_replicate_nat, hlanes, hshape.type_eq, Shape.byteLength, Nat.mul_comm]

end LaneVector

open Address (space)
open LaneVector (HasShape hasShape_tabulate hasShape_ofBytes)

namespace Opcode

theorem results_eq_nil {op : Opcode} (hnone : op.template.outputs = [])
    (inputs : List LaneVector) (outputs : List Shape) : op.results inputs outputs = [] := by
  cases op with
  | push | dup | swizzle | unary | binary | reduce | real | atan2 => cases hnone
  | convert target => cases target <;> cases hnone
  | _ => rfl

/-- Operations that only compute give a result of the right shape for every output. -/
theorem Computes.hasShape_results {op : Opcode} (hcomputes : op.Computes)
    {inputs : List LaneVector} {outputs : List Shape}
    (hinputs : inputs.length = op.template.inputs.length)
    (houtputs : outputs.length = op.template.outputs.length) :
    List.Forall₂ HasShape outputs (op.results inputs outputs) := by
  cases op with
  | nop | pop =>
      cases List.length_eq_zero_iff.mp houtputs
      exact .nil
  | convert target =>
      obtain ⟨type, htemplate⟩ := exists_template_convert target
      rw [htemplate] at hinputs houtputs
      obtain ⟨a, rfl⟩ := List.length_eq_one_iff.mp hinputs
      obtain ⟨out, rfl⟩ := List.length_eq_one_iff.mp houtputs
      exact .cons (hasShape_tabulate out _) .nil
  | push | unary op | real function | reduce op =>
      obtain ⟨a, rfl⟩ := List.length_eq_one_iff.mp hinputs
      obtain ⟨out, rfl⟩ := List.length_eq_one_iff.mp houtputs
      exact .cons (hasShape_tabulate out _) .nil
  | dup =>
      obtain ⟨a, rfl⟩ := List.length_eq_one_iff.mp hinputs
      obtain ⟨first, second, rfl⟩ := List.length_eq_two.mp houtputs
      exact .cons (hasShape_tabulate first _) (.cons (hasShape_tabulate second _) .nil)
  | swizzle | binary op | atan2 =>
      obtain ⟨a, b, rfl⟩ := List.length_eq_two.mp hinputs
      obtain ⟨out, rfl⟩ := List.length_eq_one_iff.mp houtputs
      exact .cons (hasShape_tabulate out _) .nil
  | _ => exact hcomputes.elim

end Opcode

namespace Memory

/-- Write runs of bytes one after another. -/
def writeAll (memory : Memory) (writes : List (Nat × Bytes)) : Memory :=
  writes.foldl (fun memory write => memory.write write.1 write.2) memory

@[simp] theorem mappings_writeAll (memory : Memory) (writes : List (Nat × Bytes)) :
    (memory.writeAll writes).mappings = memory.mappings := by
  induction writes generalizing memory with
  | nil => rfl
  | cons write rest ih => exact (ih _).trans (memory.mappings_write write.1 write.2)

end Memory

namespace Machine

/-- The machine gone on past the instruction at its program counter. -/
def passed (m : Machine) : Machine :=
  (m.afterRead m.pc Instruction.wordBytes).withPc (Address.move m.pc m.fetch.size)

/-- Input operands of the instruction at the program counter. -/
def inputOperands (m : Machine) : List Operand := m.passed.inputs m.fetch m.pc

/-- Output operands of the instruction at the program counter. -/
def outputOperands (m : Machine) : List Operand := m.passed.outputs m.fetch m.pc

/-- Where the inputs lie. -/
def inputAddresses (m : Machine) : List Nat := (popInputs m.sp m.inputOperands).2

/-- The machine once the places of all slots are found and the inputs that are on the stack are
popped. -/
def popped (m : Machine) : Machine :=
  (m.passed.afterPlaces m.fetch m.pc 0 Template.maxOperands).withSp
    (popInputs m.sp m.inputOperands).1

/-- What is read at the addresses of the inputs. -/
def inputValues (m : Machine) : List Input := m.popped.readInputs m.inputOperands m.inputAddresses

/-- The bytes that are read at the addresses of the inputs. -/
def inputBytes (m : Machine) : List Bytes := m.popped.readBytes m.inputOperands m.inputAddresses

/-- The machine once the inputs are read. -/
def supplied (m : Machine) : Machine := m.popped.afterInputs m.inputOperands m.inputAddresses

/-- What the operation does, and its results. -/
def performed (m : Machine) : Machine × List LaneVector :=
  m.supplied.execute m.fetch.opcode m.inputValues (m.outputOperands.map Operand.shape)

/-- Push the outputs that go on the stack, the first one first. The result is the stack pointer
after it and the address of every output. -/
def pushOutputs (sp : Nat) : List Operand → Nat × List Nat
  | [] => (sp, [])
  | operand :: rest =>
    match operand.place with
    | .stack =>
      let address := Address.move sp (-(operand.shape.byteLength : Int))
      let (sp, addresses) := pushOutputs address rest
      (sp, address :: addresses)
    | .memory address =>
      let (sp, addresses) := pushOutputs sp rest
      (sp, address :: addresses)

/-- Where the outputs are written. -/
def outputAddresses (m : Machine) : List Nat :=
  (pushOutputs m.performed.1.sp m.outputOperands).2

/-- What a step can do. -/
inductive Stepped (m : Machine) : Outcome → Machine → Prop
  | halted (hsleep : m.sleep = halted) : Stepped m .halted m
  | sleeping (hawake : m.sleep ≠ halted) (hpos : 0 < m.sleep) :
      Stepped m .sleeping (m.setSleep (m.sleep - 1))
  | skipped (hsleep : m.sleep = 0)
      (hnot : isRunnable m.fetch (m.inputOperands ++ m.outputOperands) = false) :
      Stepped m .skipped (m.passed.afterPlaces m.fetch m.pc 0 m.fetch.locatedSlots)
  | executed (hsleep : m.sleep = 0)
      (hrunnable : isRunnable m.fetch (m.inputOperands ++ m.outputOperands) = true) :
      Stepped m (.executed m.fetch.opcode)
        (m.performed.1.writeOutputs m.outputOperands m.performed.2)

/-- The machine that has found the places of some slots has gone on, and else has only read. -/
theorem exists_located (m : Machine) (slot count : Nat) :
    ∃ memory, m.memory.Observed memory ∧ m.passed.afterPlaces m.fetch m.pc slot count =
      { m with memory, registers := ⟨Address.move m.pc m.fetch.size, m.fp, m.sp⟩ } := by
  obtain ⟨memory, hmemory, hlocated⟩ := m.passed.observed_afterPlaces m.fetch m.pc slot count
  exact ⟨memory, (m.memory.observed_afterRead m.pc Instruction.wordBytes).trans hmemory, hlocated⟩

/-- The machine that has popped the inputs has changed by reading, beside its registers. -/
theorem exists_popped (m : Machine) :
    ∃ memory, m.memory.Observed memory ∧ m.popped = { m with
      memory
      registers :=
        ⟨Address.move m.pc m.fetch.size, m.fp, (popInputs m.sp m.inputOperands).1⟩ } := by
  obtain ⟨memory, hmemory, hlocated⟩ := m.exists_located 0 Template.maxOperands
  refine ⟨memory, hmemory, ?_⟩
  rw [popped, hlocated]
  rfl

/-- So has the machine that performs the operation. -/
theorem exists_supplied (m : Machine) :
    ∃ memory, m.memory.Observed memory ∧ m.supplied = { m with
      memory
      registers :=
        ⟨Address.move m.pc m.fetch.size, m.fp, (popInputs m.sp m.inputOperands).1⟩ } := by
  obtain ⟨memory, hmemory, hpopped⟩ := m.exists_popped
  obtain ⟨later, hlater, hsupplied⟩ :=
    m.popped.observed_afterInputs m.inputOperands m.inputAddresses
  rw [hpopped] at hlater hsupplied
  refine ⟨later, hmemory.trans hlater, ?_⟩
  rw [supplied, hpopped, hsupplied]

theorem registers_popped (m : Machine) : m.popped.registers =
    ⟨Address.move m.pc m.fetch.size, m.fp, (popInputs m.sp m.inputOperands).1⟩ := by
  obtain ⟨memory, -, hpopped⟩ := m.exists_popped
  rw [hpopped]

theorem registers_supplied (m : Machine) : m.supplied.registers =
    ⟨Address.move m.pc m.fetch.size, m.fp, (popInputs m.sp m.inputOperands).1⟩ := by
  obtain ⟨memory, -, hsupplied⟩ := m.exists_supplied
  rw [hsupplied]

theorem sp_popped (m : Machine) : m.popped.sp = (popInputs m.sp m.inputOperands).1 := by
  rw [sp, registers_popped]

theorem fp_popped (m : Machine) : m.popped.fp = m.fp := by rw [fp, registers_popped]

theorem sp_supplied (m : Machine) : m.supplied.sp = m.popped.sp := by
  rw [sp_popped, sp, registers_supplied]

theorem fp_supplied (m : Machine) : m.supplied.fp = m.fp := by
  rw [fp, registers_supplied]

theorem observed_popped (m : Machine) : m.memory.Observed m.popped.memory := by
  obtain ⟨memory, hmemory, hpopped⟩ := m.exists_popped
  rw [hpopped]
  exact hmemory

theorem observed_supplied (m : Machine) : m.memory.Observed m.supplied.memory := by
  obtain ⟨memory, hmemory, hsupplied⟩ := m.exists_supplied
  rw [hsupplied]
  exact hmemory

section Unmapped

variable {m : Machine} (hempty : m.memory.mappings = [])

include hempty

theorem passed_eq : m.passed = m.withPc (Address.move m.pc m.fetch.size) := by
  rw [passed, afterRead_eq_self hempty]

theorem located_eq (slot count : Nat) : m.passed.afterPlaces m.fetch m.pc slot count =
    m.withPc (Address.move m.pc m.fetch.size) := by
  obtain ⟨memory, hmemory, hlocated⟩ := m.exists_located slot count
  rw [hlocated, hmemory.eq_of_unmapped hempty]
  rfl

theorem popped_eq : m.popped = m.passed.withSp (popInputs m.sp m.inputOperands).1 := by
  obtain ⟨memory, hmemory, hpopped⟩ := m.exists_popped
  rw [hpopped, passed_eq hempty, hmemory.eq_of_unmapped hempty]
  rfl

theorem memory_popped : m.popped.memory = m.memory := m.observed_popped.eq_of_unmapped hempty

theorem supplied_eq : m.supplied = m.popped := by
  refine afterInputs_eq_self ?_ _ _
  rw [memory_popped hempty, hempty]

theorem inputBytes_eq : m.inputBytes = m.inputOperands.zipWith
    (fun operand address => m.memory.read address operand.shape.byteLength) m.inputAddresses := by
  have hmemory := memory_popped hempty
  rw [inputBytes, readBytes_eq (by rw [hmemory, hempty]), hmemory]

theorem inputValues_eq : m.inputValues = m.inputOperands.zipWith m.readInput m.inputAddresses := by
  have hmemory := memory_popped hempty
  rw [inputValues, readInputs_eq (by rw [hmemory, hempty])]
  have hread : m.popped.readInput = m.readInput := by
    funext operand address
    rw [readInput, hmemory, readInput]
  rw [hread]

theorem performed_eq : m.performed = m.popped.execute m.fetch.opcode
    (m.inputOperands.zipWith m.readInput m.inputAddresses)
    (m.outputOperands.map Operand.shape) := by
  rw [performed, supplied_eq hempty, inputValues_eq hempty]

end Unmapped

theorem stepped_step (m : Machine) : Stepped m m.step.1 m.step.2 := by
  unfold step
  split
  · next hsleep => exact .halted hsleep
  · next hawake =>
      split
      · next hpos => exact .sleeping hawake hpos
      · next hpos =>
          have hsleep : m.sleep = 0 := Nat.eq_zero_of_not_pos hpos
          unfold advance
          dsimp only
          split
          · next hrunnable =>
              have hsp : (m.passed.afterPlaces m.fetch m.pc 0 Template.maxOperands).sp = m.sp := by
                rw [sp, (m.passed.observed_afterPlaces _ _ _ _).registers_eq]
                rfl
              have hperform : (m.passed.afterPlaces m.fetch m.pc 0 m.fetch.locatedSlots).perform
                  m.fetch m.inputOperands m.outputOperands =
                    m.performed.1.writeOutputs m.outputOperands m.performed.2 := by
                rw [m.passed.locatedSlots_of_isRunnable m.fetch m.pc hrunnable, perform, hsp]
                rfl
              have hexecuted := Stepped.executed hsleep hrunnable
              rw [← hperform] at hexecuted
              exact hexecuted
          · next hnot => exact .skipped hsleep (Bool.eq_false_iff.mpr hnot)

theorem step_eq_of_fst {m : Machine} {outcome : Outcome} (houtcome : m.step.1 = outcome) :
    m.step = (outcome, m.step.2) := by
  rw [← houtcome]

theorem stepped_of_step {m after : Machine} {outcome : Outcome}
    (hstep : m.step = (outcome, after)) : Stepped m outcome after := by
  have hstepped := m.stepped_step
  rw [hstep] at hstepped
  exact hstepped

/-- A machine that is awake at an instruction whose operands all have a meaning executes it. -/
theorem step_eq_executed {m : Machine} (hsleep : m.sleep = 0) (hopcode : m.fetch.opcode ≠ .invalid)
    (hoperands : ∀ operand ∈ m.inputOperands ++ m.outputOperands,
      operand.shape.type.isSupported = true) :
    m.step = (.executed m.fetch.opcode,
      m.performed.1.writeOutputs m.outputOperands m.performed.2) := by
  have hrunnable : isRunnable m.fetch (m.inputOperands ++ m.outputOperands) = true := by
    rw [isRunnable, Bool.and_eq_true, List.all_eq_true]
    exact ⟨bne_iff_ne.mpr hopcode, hoperands⟩
  have hstepped := m.stepped_step
  generalize m.step = stepped at hstepped ⊢
  obtain ⟨outcome, after⟩ := stepped
  cases hstepped with
  | halted hhalted =>
      rw [hsleep] at hhalted
      exact absurd hhalted (by decide)
  | sleeping _ hpos => omega
  | skipped _ hnot => exact absurd (hnot.symm.trans hrunnable) Bool.false_ne_true
  | executed => rfl

@[simp] theorem length_pushOutputs (sp : Nat) (operands : List Operand) :
    (pushOutputs sp operands).2.length = operands.length := by
  induction operands generalizing sp with
  | nil => rfl
  | cons operand rest ih =>
      unfold pushOutputs
      cases operand.place <;> simp [ih]

/-- Popping and pushing keep the stack pointer below every bound that all addresses are below. -/
theorem popInputs_lt_of_lt {bound sp : Nat} (hbound : space ≤ bound) (hsp : sp < bound)
    (operands : List Operand) : (popInputs sp operands).1 < bound := by
  induction operands with
  | nil => exact hsp
  | cons operand rest ih =>
      unfold popInputs
      cases operand.place with
      | stack =>
          dsimp only
          exact Nat.lt_of_lt_of_le (Address.move_lt _ _) hbound
      | memory address => exact ih

theorem pushOutputs_lt {bound sp : Nat} (hbound : space ≤ bound) (hsp : sp < bound)
    (operands : List Operand) : (pushOutputs sp operands).1 < bound := by
  induction operands generalizing sp with
  | nil => exact hsp
  | cons operand rest ih =>
      unfold pushOutputs
      cases operand.place with
      | stack => exact ih (Nat.lt_of_lt_of_le (Address.move_lt _ _) hbound)
      | memory address => exact ih hsp

/-- Writing outputs changes memory where they go, and the stack pointer. -/
theorem writeOutputs_eq (m : Machine) {operands : List Operand} {results : List LaneVector}
    (hlength : operands.length = results.length) :
    m.writeOutputs operands results =
      { m.withSp (pushOutputs m.sp operands).1 with
        memory := m.memory.writeAll
          ((pushOutputs m.sp operands).2.zip (results.map LaneVector.encode)) } := by
  induction operands generalizing m results with
  | nil =>
      cases List.length_eq_zero_iff.mp hlength.symm
      rfl
  | cons operand rest ih =>
      obtain ⟨lanes, others, rfl⟩ := List.exists_cons_of_length_eq_add_one hlength.symm
      rw [writeOutputs, ih _ (Nat.succ.inj hlength), pushOutputs, writeOutput]
      cases operand.place <;> rfl

/-- Operations without outputs have no results. -/
theorem results_execute_eq_nil (m : Machine) {op : Opcode} (hnone : op.template.outputs = [])
    (inputs : List Input) (outputs : List Shape) : (m.execute op inputs outputs).2 = [] := by
  unfold execute
  split
  all_goals try rfl
  · next base _ _ => cases base <;> cases hnone
  · cases hnone
  · cases hnone
  · rw [Opcode.results_eq_nil hnone]

/-- There is a result of the right shape for every output of an operation. -/
theorem hasShape_execute (m : Machine) {op : Opcode} {inputs : List Input} {outputs : List Shape}
    (hinputs : inputs.length = op.template.inputs.length)
    (houtputs : outputs.length = op.template.outputs.length) :
    List.Forall₂ HasShape outputs (m.execute op inputs outputs).2 := by
  have hlanes : (inputs.map Input.lanes).length = op.template.inputs.length := by
    rw [List.length_map, hinputs]
  have hnil (hnone : op.template.outputs = []) :
      List.Forall₂ HasShape outputs (m.execute op inputs outputs).2 := by
    rw [hnone] at houtputs
    rw [m.results_execute_eq_nil hnone, List.length_eq_zero_iff.mp houtputs]
    exact .nil
  cases op with
  | nop | pop | push | dup | swizzle | unary | binary | reduce | convert | real | atan2 =>
      exact Opcode.Computes.hasShape_results (by trivial) hlanes houtputs
  | load base =>
      rw [Opcode.template_load] at hinputs houtputs
      obtain ⟨a, rfl⟩ := List.length_eq_one_iff.mp hinputs
      obtain ⟨out, rfl⟩ := List.length_eq_one_iff.mp houtputs
      exact .cons (hasShape_ofBytes out _) .nil
  | getRegister register | random =>
      obtain ⟨out, rfl⟩ := List.length_eq_one_iff.mp houtputs
      exact .cons (hasShape_tabulate out _) .nil
  | store base => exact hnil (by rw [Opcode.template_store])
  | halt | setRegister | moveRegister | jump | branchZero | branchCompare | switch | call
  | reserve | ret | sleep | mapDevice | debug | debugText | invalid => exact hnil rfl

variable {m : Machine}

theorem length_inputOperands (m : Machine) :
    m.inputOperands.length = m.fetch.opcode.template.inputs.length :=
  length_operandsFrom _ _ _ _ _

theorem length_outputOperands (m : Machine) :
    m.outputOperands.length = m.fetch.opcode.template.outputs.length :=
  length_operandsFrom _ _ _ _ _

theorem length_inputAddresses (m : Machine) : m.inputAddresses.length = m.inputOperands.length :=
  length_popInputs _ _

theorem length_inputValues (m : Machine) :
    m.inputValues.length = m.fetch.opcode.template.inputs.length := by
  rw [inputValues, length_readInputs _ m.length_inputAddresses, length_inputOperands]

/-- The results of the instruction at the program counter have the shapes of its outputs. -/
theorem hasShape_performed (m : Machine) :
    List.Forall₂ (fun operand result => HasShape operand.shape result) m.outputOperands
      m.performed.2 := by
  have hcount : (m.outputOperands.map Operand.shape).length =
      m.fetch.opcode.template.outputs.length := by
    rw [List.length_map, m.length_outputOperands]
  exact List.forall₂_map_left_iff.mp (m.supplied.hasShape_execute m.length_inputValues hcount)

theorem length_performed (m : Machine) : m.outputOperands.length = m.performed.2.length :=
  m.hasShape_performed.length_eq

/-- What the operation at the program counter does to the machine. -/
theorem effect_performed (m : Machine) : Effect m.supplied m.fetch.opcode m.performed.1 :=
  effect_execute _ _ _ _

/-- The machine behind an instruction that was executed. -/
theorem writeOutputs_performed (m : Machine) :
    m.performed.1.writeOutputs m.outputOperands m.performed.2 =
      { m.performed.1.withSp (pushOutputs m.performed.1.sp m.outputOperands).1 with
        memory := m.performed.1.memory.writeAll
          (m.outputAddresses.zip (m.performed.2.map LaneVector.encode)) } :=
  writeOutputs_eq _ m.length_performed

/-- An operation leaves addresses in the registers that it changes. -/
theorem Effect.below {after : Machine} {op : Opcode} (heffect : Effect m op after) {bound : Nat}
    (hbound : space ≤ bound) (hbelow : m.registers.Below bound) : after.registers.Below bound := by
  have hwrap (n : Nat) : Address.wrap n < bound := Nat.lt_of_lt_of_le (Address.wrap_lt n) hbound
  have hmove (base : Nat) (distance : Int) : Address.move base distance < bound :=
    Nat.lt_of_lt_of_le (Address.move_lt base distance) hbound
  cases heffect with
  | @setRegister register _ hlt | @moveRegister register _ hlt =>
      have hvalue := Nat.lt_of_lt_of_le hlt hbound
      cases register with
      | frame => exact ⟨hbelow.pc_lt, hvalue, hbelow.sp_lt⟩
      | stack => exact ⟨hbelow.pc_lt, hbelow.fp_lt, hvalue⟩
  | reserve hlt => exact ⟨hbelow.pc_lt, hbelow.fp_lt, Nat.lt_of_lt_of_le hlt hbound⟩
  | jump _ hlt | switch hlt => exact ⟨Nat.lt_of_lt_of_le hlt hbound, hbelow.fp_lt, hbelow.sp_lt⟩
  | call hlt => exact ⟨Nat.lt_of_lt_of_le hlt hbound, hmove _ _, hmove _ _⟩
  | ret => exact ⟨hwrap _, hwrap _, hmove m.fp frameBytes⟩
  | debugText hobserved =>
      rw [← hobserved.registers_eq] at hbelow
      exact hbelow
  | none | load | halt | sleep | store | random | mapDevice | debug => exact hbelow

/-- A step leaves registers below every bound that all addresses are below. -/
theorem below_step {bound : Nat} (hbound : space ≤ bound) (hbelow : m.registers.Below bound) :
    m.step.2.registers.Below bound := by
  have hpassed : m.passed.registers.Below bound :=
    ⟨Nat.lt_of_lt_of_le (Address.move_lt m.pc m.fetch.size) hbound, hbelow.fp_lt, hbelow.sp_lt⟩
  have hstepped := m.stepped_step
  generalize m.step.1 = outcome, m.step.2 = after at hstepped ⊢
  cases hstepped with
  | halted | sleeping => exact hbelow
  | skipped =>
      rw [(m.passed.observed_afterPlaces _ _ _ _).registers_eq]
      exact hpassed
  | executed =>
      have hsupplied : m.supplied.registers.Below bound := by
        rw [registers_supplied]
        exact ⟨hpassed.pc_lt, hpassed.fp_lt, popInputs_lt_of_lt hbound hbelow.sp_lt _⟩
      have hperformed := m.effect_performed.below hbound hsupplied
      rw [writeOutputs_performed]
      exact ⟨hperformed.pc_lt, hperformed.fp_lt, pushOutputs_lt hbound hperformed.sp_lt _⟩

end Machine

end VectorStack
