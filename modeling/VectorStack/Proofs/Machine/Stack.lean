import VectorStack.Proofs.Machine.Execution
import VectorStack.Proofs.Machine.Fetch
/-!
How instructions use the stack. The inputs of an instruction that are on the stack lie in one piece
from the stack pointer on, with the last of them on top, and so do its outputs afterwards. In
between the stack pointer moves by what was popped and pushed, unless the operation sets it itself.
-/

namespace VectorStack

open Address (space wrap)

/-- Operations that say themselves where the stack pointer goes. -/
def Opcode.SetsStackPointer : Opcode → Prop
  | setRegister .stack | moveRegister .stack | call | reserve | ret => True
  | _ => False

/-- Operations that set the stack pointer have no outputs. -/
theorem Opcode.SetsStackPointer.outputs_eq_nil {op : Opcode} (hop : op.SetsStackPointer) :
    op.template.outputs = [] := by
  cases op with
  | setRegister | moveRegister | call | reserve | ret => rfl
  | _ => exact hop.elim

namespace Machine

/-- Operands lie on a stack whose top is at `sp`: the last one on it starts at `sp`, and every
other one where the next one ends. The first one ends at `above`. -/
inductive Stacked (sp : Nat) : List Operand → List Nat → (above : Nat) → Prop
  | nil : Stacked sp [] [] sp
  | stack {operand : Operand} {rest : List Operand} {addresses : List Nat} {above : Nat}
      (hplace : operand.place = .stack) (hrest : Stacked sp rest addresses above) :
      Stacked sp (operand :: rest) (above :: addresses)
        (Address.move above operand.shape.byteLength)
  | memory {operand : Operand} {rest : List Operand} {addresses : List Nat} {above address : Nat}
      (hplace : operand.place = .memory address) (hrest : Stacked sp rest addresses above) :
      Stacked sp (operand :: rest) (address :: addresses) above

/-- The bytes of all operands that are on the stack. -/
def stackBytes (operands : List Operand) : Nat :=
  ((operands.filter fun operand => operand.place = .stack).map fun operand =>
    operand.shape.byteLength).sum

theorem stackBytes_cons_of_stack {operand : Operand} (hplace : operand.place = .stack)
    (rest : List Operand) :
    stackBytes (operand :: rest) = operand.shape.byteLength + stackBytes rest := by
  simp [stackBytes, hplace]

theorem stackBytes_cons_of_memory {operand : Operand} {address : Nat}
    (hplace : operand.place = .memory address) (rest : List Operand) :
    stackBytes (operand :: rest) = stackBytes rest := by
  simp [stackBytes, hplace]

/-- What lies on a stack takes the bytes of its operands. -/
theorem Stacked.wrap_above {sp above : Nat} {operands : List Operand} {addresses : List Nat}
    (hstacked : Stacked sp operands addresses above) :
    wrap above = wrap (sp + stackBytes operands) := by
  induction hstacked with
  | nil => rfl
  | stack hplace hrest ih =>
      rw [stackBytes_cons_of_stack hplace, Address.move_ofNat]
      unfold wrap space at *
      omega
  | memory hplace hrest ih => rw [stackBytes_cons_of_memory hplace, ih]

theorem stacked_popInputs (sp : Nat) (operands : List Operand) :
    Stacked sp operands (popInputs sp operands).2 (popInputs sp operands).1 := by
  induction operands with
  | nil => exact .nil
  | cons operand rest ih =>
      unfold popInputs
      cases hplace : operand.place with
      | stack => exact .stack hplace ih
      | memory address => exact .memory hplace ih

/-- Outputs lie on the stack in the order in which they were pushed, and the first of them ends
where the stack pointer was. -/
theorem stacked_pushOutputs (sp : Nat) (operands : List Operand) :
    ∃ above, Stacked (pushOutputs sp operands).1 operands (pushOutputs sp operands).2 above ∧
      wrap above = wrap sp ∧ (sp < space → above = sp) := by
  induction operands generalizing sp with
  | nil => exact ⟨sp, .nil, rfl, fun _ => rfl⟩
  | cons operand rest ih =>
      unfold pushOutputs
      cases hplace : operand.place with
      | stack =>
          let address := Address.move sp (-(operand.shape.byteLength : Int))
          obtain ⟨above, hstacked, -, habove⟩ := ih address
          cases habove (Address.move_lt _ _)
          have hback : Address.move address operand.shape.byteLength = wrap sp := by
            rw [Address.move_move, Int.add_left_neg]
            exact Address.move_ofNat sp 0
          refine ⟨_, .stack hplace hstacked, ?_, ?_⟩
          · rw [hback, Address.wrap_wrap]
          · intro hlt
            rw [hback, Address.wrap_eq_self hlt]
      | memory address =>
          obtain ⟨above, hstacked, hwrap, habove⟩ := ih sp
          exact ⟨above, .memory hplace hstacked, hwrap, habove⟩

/-- Where the stack pointer is behind an instruction that has popped and pushed some bytes. -/
inductive LeavesStackPointer (m : Machine) (popped pushed : Nat) :
    Opcode → List Input → Nat → Prop
  /-- It moves by what was popped and pushed, and stays an address. -/
  | counted {op : Opcode} {values : List Input} {sp : Nat} (hop : ¬ op.SetsStackPointer)
      (hwrap : wrap sp = Address.move m.sp ((popped : Int) - pushed))
      (hlt : m.sp < space → sp < space) : LeavesStackPointer m popped pushed op values sp
  | set (a : Input) :
      LeavesStackPointer m popped pushed (.setRegister .stack) [a] a.lanes.address
  | move (a : Input) : LeavesStackPointer m popped pushed (.moveRegister .stack) [a]
      (Address.move m.sp (popped + a.lanes.distance))
  | call (a : Input) : LeavesStackPointer m popped pushed .call [a]
      (Address.move m.sp ((popped : Int) - frameBytes))
  | reserve (a : Input) : LeavesStackPointer m popped pushed .reserve [a]
      (Address.move m.fp (-a.lanes.distance))
  | ret : LeavesStackPointer m popped pushed .ret [] (Address.move m.fp frameBytes)

variable {m after : Machine} {op : Opcode}

theorem Effect.sp_eq (heffect : Effect m op after) (hop : ¬ op.SetsStackPointer) :
    after.sp = m.sp := by
  cases heffect with
  | @setRegister register _ _ | @moveRegister register _ _ =>
      cases register with
      | frame => rfl
      | stack => exact absurd trivial hop
  | reserve | call | ret => exact absurd trivial hop
  | debugText hobserved => exact congrArg Registers.sp hobserved.registers_eq
  | none | load | halt | sleep | store | jump | switch | random | mapDevice | debug => rfl

/-- How an instruction that was executed has used the stack. -/
structure StackUse (m : Machine) (op : Opcode) (after : Machine) : Prop where
  /-- Every operand has the type and the width that the template leaves to the instruction. -/
  operands : ∀ index : Nat, (m.inputOperands ++ m.outputOperands)[index]? =
    op.template.slots[index]?.map fun slot =>
      ⟨⟨slot.resolveType (m.fetch.typeAt index), slot.resolveWidth m.fetch.width⟩,
        (m.passed.afterPlaces m.fetch m.pc 0 index).place m.fetch m.pc index⟩
  length_inputs : m.inputOperands.length = op.template.inputs.length
  inputs : Stacked m.sp m.inputOperands m.inputAddresses m.popped.sp
  /-- The inputs are read where they lie, one after another, each with all its bytes. -/
  values : ∀ index : Nat, m.inputValues[index]? =
    (m.inputOperands.zip m.inputAddresses)[index]?.map fun placed =>
      (m.popped.afterInputs (m.inputOperands.take index)
        (m.inputAddresses.take index)).readInput placed.1 placed.2
  /-- Without mapped ranges, reading changes nothing on the way. -/
  unmapped : m.memory.mappings = [] →
    (∀ index : Nat, (m.inputOperands ++ m.outputOperands)[index]? =
      op.template.slots[index]?.map fun slot =>
        ⟨⟨slot.resolveType (m.fetch.typeAt index), slot.resolveWidth m.fetch.width⟩,
          m.passed.place m.fetch m.pc index⟩) ∧
    m.inputValues = m.inputOperands.zipWith (fun operand address =>
      ⟨address, .ofBytes operand.shape.type operand.shape.width
        (m.memory.read address operand.shape.byteLength)⟩) m.inputAddresses
  outputs : ∃ above, Stacked after.sp m.outputOperands m.outputAddresses above ∧
    wrap above = wrap m.performed.1.sp
  /-- The results are written where the outputs lie, each with all its bytes. -/
  memory : after.memory = m.performed.1.memory.writeAll
    (m.outputAddresses.zip (m.performed.2.map LaneVector.encode))
  results : List.Forall₂ (fun output result => result.encode.length = output.shape.byteLength)
    m.outputOperands m.performed.2
  sp : LeavesStackPointer m (stackBytes m.inputOperands) (stackBytes m.outputOperands) op
    m.inputValues after.sp

theorem wrap_sp_popped (m : Machine) :
    wrap m.popped.sp = wrap (m.sp + stackBytes m.inputOperands) := by
  rw [sp_popped]
  exact (stacked_popInputs m.sp m.inputOperands).wrap_above

/-- A distance from the stack pointer counts from above the operands that are popped. -/
theorem move_sp_popped (m : Machine) (distance : Int) :
    Address.move m.popped.sp distance =
      Address.move m.sp (stackBytes m.inputOperands + distance) := by
  have hpopped := m.wrap_sp_popped
  unfold wrap Address.move space at *
  omega

theorem wrap_pushOutputs (sp : Nat) (operands : List Operand) :
    wrap ((pushOutputs sp operands).1 + stackBytes operands) = wrap sp := by
  obtain ⟨above, hstacked, hwrap, -⟩ := stacked_pushOutputs sp operands
  rw [← hstacked.wrap_above, hwrap]

/-- An operation that leaves the stack pointer to its operands moves it by their bytes. -/
theorem leavesStackPointer_counted (hop : ¬ m.fetch.opcode.SetsStackPointer) :
    LeavesStackPointer m (stackBytes m.inputOperands) (stackBytes m.outputOperands)
      m.fetch.opcode m.inputValues (pushOutputs m.performed.1.sp m.outputOperands).1 := by
  have hpopped := m.wrap_sp_popped
  have hpushed := wrap_pushOutputs m.performed.1.sp m.outputOperands
  rw [m.effect_performed.sp_eq hop, sp_supplied] at hpushed ⊢
  refine .counted hop ?_ ?_
  · unfold wrap Address.move space at *
    omega
  · intro hsp
    rw [sp_popped]
    exact pushOutputs_lt (Nat.le_refl _) (popInputs_lt_of_lt (Nat.le_refl _) hsp _) _

/-- Where an operation that sets the stack pointer itself puts it. -/
theorem leavesStackPointer_set (hop : m.fetch.opcode.SetsStackPointer) (pushed : Nat) :
    LeavesStackPointer m (stackBytes m.inputOperands) pushed m.fetch.opcode m.inputValues
      m.performed.1.sp := by
  have hlength := m.length_inputValues
  rw [performed]
  cases hopcode : m.fetch.opcode with
  | setRegister register =>
      rw [hopcode] at hop hlength
      cases register with
      | frame => exact hop.elim
      | stack =>
          obtain ⟨a, hvalues⟩ := List.length_eq_one_iff.mp hlength
          rw [hvalues]
          exact .set a
  | moveRegister register =>
      rw [hopcode] at hop hlength
      cases register with
      | frame => exact hop.elim
      | stack =>
          obtain ⟨a, hvalues⟩ := List.length_eq_one_iff.mp hlength
          have hmoved : LeavesStackPointer m (stackBytes m.inputOperands) pushed _ _ _ := .move a
          rw [← move_sp_popped, ← sp_supplied] at hmoved
          rw [hvalues]
          exact hmoved
  | call =>
      rw [hopcode] at hlength
      obtain ⟨a, hvalues⟩ := List.length_eq_one_iff.mp hlength
      have hcalled : LeavesStackPointer m (stackBytes m.inputOperands) pushed _ _ _ := .call a
      rw [Int.sub_eq_add_neg, ← move_sp_popped, ← sp_supplied] at hcalled
      rw [hvalues]
      exact hcalled
  | reserve =>
      rw [hopcode] at hlength
      obtain ⟨a, hvalues⟩ := List.length_eq_one_iff.mp hlength
      have hreserved : LeavesStackPointer m (stackBytes m.inputOperands) pushed _ _ _ := .reserve a
      rw [← m.fp_supplied] at hreserved
      rw [hvalues]
      exact hreserved
  | ret =>
      rw [hopcode] at hlength
      have hreturned : LeavesStackPointer m (stackBytes m.inputOperands) pushed _ _ _ := .ret
      rw [← m.fp_supplied] at hreturned
      rw [List.length_eq_zero_iff.mp hlength]
      exact hreturned
  | _ =>
      rw [hopcode] at hop
      exact hop.elim

/-- An instruction that is executed pops its inputs from the stack, the last one first, and pushes
its outputs, the first one first, so that each of them lies directly above the next one. The stack
pointer moves by their bytes, except where the operation sets it. -/
theorem stackUse_of_step (hstep : m.step = (.executed op, after)) : StackUse m op after := by
  cases stepped_of_step hstep with
  | executed hsleep hrunnable =>
      rw [writeOutputs_performed]
      have hinputs : Stacked m.sp m.inputOperands m.inputAddresses m.popped.sp := by
        rw [sp_popped]
        exact stacked_popInputs m.sp m.inputOperands
      refine ⟨getElem?_operands m.passed m.fetch m.pc, m.length_inputOperands, hinputs,
        m.popped.getElem?_readInputs _ _, fun hempty => ⟨fun index => ?_, inputValues_eq hempty⟩,
        ?_, rfl, ?_, ?_⟩
      · have hpassed : m.passed.memory.mappings = [] := by rw [passed_eq hempty]; exact hempty
        exact getElem?_operands_of_unmapped m.fetch m.pc hpassed index
      · obtain ⟨above, hstacked, hwrap, -⟩ :=
          stacked_pushOutputs m.performed.1.sp m.outputOperands
        exact ⟨above, hstacked, hwrap⟩
      · exact m.hasShape_performed.imp fun _ _ hshape => hshape.length_encode
      · by_cases hop : m.fetch.opcode.SetsStackPointer
        · have hnone : m.outputOperands = [] := by
            apply List.length_eq_zero_iff.mp
            rw [m.length_outputOperands, hop.outputs_eq_nil]
            rfl
          have hset := leavesStackPointer_set hop (stackBytes m.outputOperands)
          rw [hnone] at hset ⊢
          exact hset
        · exact leavesStackPointer_counted hop

/-- Two lanes of two bytes around the end of memory, doubled on the stack. -/
theorem stackUse_of_step_dup :
    let m : Machine := { Machine.new ⟨0, 0, 0xfffffe⟩ default with
      memory := (Memory.ofRam .full).write 0
        (Bytes.ofWord 8 (Instruction.encode ⟨.dup, 2, 0, (.i16, .i16, .i16), 0, 0⟩)) }
    m.step.1 = .executed .dup ∧ StackUse m .dup m.step.2 ∧ m.inputAddresses = [0xfffffe] ∧
      m.outputAddresses = [0xfffffe, 0xfffffa] ∧ m.step.2.sp = 0xfffffa := by
  intro m
  have hexecuted : m.step.1 = .executed .dup := by decide +kernel
  refine ⟨hexecuted, stackUse_of_step (step_eq_of_fst hexecuted), ?_⟩
  decide +kernel

end Machine

end VectorStack
