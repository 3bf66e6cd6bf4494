import VectorStack.Proofs.Machine.CallReturn
import VectorStack.Proofs.Machine.Execution
/-!
What a step leaves alone. In a machine without mapped devices a step writes to the outputs of its
instruction, to the range of a store and to the frame of a call, and every part of the machine
beside memory changes only where the instruction is one that is there to change it.
-/

namespace VectorStack

open Address (space wrap wrap_eq_self)

namespace Opcode

/-- Operations that can change the frame pointer. -/
def SetsFramePointer : Opcode → Prop
  | setRegister .frame | moveRegister .frame | call | ret => True
  | _ => False

/-- Operations that can go on somewhere else than behind themselves. -/
def SetsProgramCounter : Opcode → Prop
  | jump | branchZero _ | branchCompare _ | switch | call | ret => True
  | _ => False

theorem jumps.setsProgramCounter {op : Opcode} (hjumps : op.jumps) : op.SetsProgramCounter := by
  cases op with
  | jump | branchZero | branchCompare | switch => trivial
  | _ => exact hjumps.elim

end Opcode

namespace Memory

/-- Main memory differs in the bytes of some spans at most, and devices do not differ. -/
structure KeptOutside (spans : List Span) (before after : Memory) : Prop where
  get_eq : ∀ address < space, (∀ span ∈ spans, ¬ span.Covers address) →
    after.ram.get address = before.ram.get address
  devices_eq : after.devices = before.devices

variable {memory : Memory}

theorem KeptOutside.refl (memory : Memory) : KeptOutside [] memory memory :=
  ⟨fun _ _ _ => rfl, rfl⟩

theorem KeptOutside.trans {spans more : List Span} {first second third : Memory}
    (hfirst : KeptOutside spans first second) (hsecond : KeptOutside more second third) :
    KeptOutside (spans ++ more) first third := by
  refine ⟨?_, hsecond.devices_eq.trans hfirst.devices_eq⟩
  intro address hlt hfree
  rw [hsecond.get_eq address hlt fun span hmem => hfree span (List.mem_append_right _ hmem),
    hfirst.get_eq address hlt fun span hmem => hfree span (List.mem_append_left _ hmem)]

theorem Plain.get_eq (hplain : memory.Plain) (address : Nat) :
    memory.get address = memory.ram.get address :=
  if_pos hplain.isEmpty_mappings

/-- A write changes the bytes that it covers. -/
theorem Plain.keptOutside_write (hplain : memory.Plain) (address : Nat) (bytes : Bytes) :
    KeptOutside [⟨address, bytes.length⟩] memory (memory.write address bytes) := by
  have hwritten := hplain.write address bytes
  have hwrite : memory.write address bytes =
      { memory with ram := memory.ram.write address bytes } := if_pos hplain.isEmpty_mappings
  refine ⟨?_, by rw [hwrite]⟩
  intro other hlt hfree
  have hother : wrap other ∉ addressesOf (address, bytes) := by
    rw [wrap_eq_self hlt, mem_addressesOf]
    exact hfree _ List.mem_cons_self
  have hkept : (memory.write address bytes).get other = memory.get other := by
    rw [write_eq_setAll]
    exact get_setAll_of_not_mem hplain hother
  rw [hwritten.get_eq, hplain.get_eq] at hkept
  exact hkept

theorem Plain.writeAll (hplain : memory.Plain) (writes : List (Nat × Bytes)) :
    (memory.writeAll writes).Plain := by
  induction writes generalizing memory with
  | nil => exact hplain
  | cons write rest ih => exact ih (hplain.write write.1 write.2)

theorem Plain.keptOutside_writeAll (hplain : memory.Plain) (writes : List (Nat × Bytes)) :
    KeptOutside (writes.map fun write => ⟨write.1, write.2.length⟩) memory
      (memory.writeAll writes) := by
  induction writes generalizing memory with
  | nil => exact .refl memory
  | cons write rest ih =>
      exact (hplain.keptOutside_write write.1 write.2).trans (ih (hplain.write write.1 write.2))

end Memory

namespace Machine

/-- The range of memory that an operation itself writes: that of a store, as long as what it
stores, and the frame of a call. -/
def storedSpans (m : Machine) : Opcode → List Input → List Span
  | .store base, [a, target] => [⟨m.effectiveAddress base target.lanes, a.lanes.byteLength⟩]
  | .call, _ => [⟨Address.move m.sp (-(frameBytes : Int)), frameBytes⟩]
  | _, _ => []

/-- The ranges of memory that the instruction at the program counter writes: those of its operation
and its outputs. -/
def writtenSpans (m : Machine) : List Span :=
  m.popped.storedSpans m.fetch.opcode m.inputValues ++
    m.outputAddresses.zipWith (fun address output => ⟨address, output.shape.byteLength⟩)
      m.outputOperands

variable {m after : Machine} {op : Opcode}

theorem Effect.fp_eq (heffect : Effect m op after) (hop : ¬ op.SetsFramePointer) :
    after.fp = m.fp := by
  cases heffect with
  | @setRegister register _ _ | @moveRegister register _ _ =>
      cases register with
      | frame => exact absurd trivial hop
      | stack => rfl
  | call | ret => exact absurd trivial hop
  | debugText hobserved =>
      obtain ⟨memory, -, rfl⟩ := hobserved
      rfl
  | none | load | halt | sleep | store | reserve | jump | switch | random | mapDevice | debug =>
      rfl

theorem Effect.pc_eq (heffect : Effect m op after) (hop : ¬ op.SetsProgramCounter) :
    after.pc = m.pc := by
  cases heffect with
  | @setRegister register _ _ | @moveRegister register _ _ => cases register <;> rfl
  | jump hjumps => exact absurd hjumps.setsProgramCounter hop
  | switch | call | ret => exact absurd trivial hop
  | debugText hobserved =>
      obtain ⟨memory, -, rfl⟩ := hobserved
      rfl
  | none | load | halt | sleep | store | reserve | random | mapDevice | debug => rfl

theorem Effect.sleep_eq (heffect : Effect m op after) (hhalt : op ≠ .halt) (hop : op ≠ .sleep) :
    after.sleep = m.sleep := by
  cases heffect with
  | @setRegister register _ _ | @moveRegister register _ _ => cases register <;> rfl
  | halt => exact absurd rfl hhalt
  | sleep => exact absurd rfl hop
  | debugText hobserved =>
      obtain ⟨memory, -, rfl⟩ := hobserved
      rfl
  | none | load | store | reserve | jump | switch | call | ret | random | mapDevice | debug => rfl

theorem Effect.output_eq (heffect : Effect m op after) (hdebug : op ≠ .debug)
    (htext : op ≠ .debugText) : after.output = m.output := by
  cases heffect with
  | @setRegister register _ _ | @moveRegister register _ _ => cases register <;> rfl
  | debug => exact absurd rfl hdebug
  | debugText => exact absurd rfl htext
  | none | load | halt | sleep | store | reserve | jump | switch | call | ret | random
  | mapDevice => rfl

theorem Effect.mappings_eq (heffect : Effect m op after) (hop : op ≠ .mapDevice) :
    after.memory.mappings = m.memory.mappings := by
  cases heffect with
  | @setRegister register _ _ | @moveRegister register _ _ => cases register <;> rfl
  | load | switch => exact (m.memory.observed_afterRead _ _).mappings_eq
  | store address bytes => exact m.memory.mappings_write address bytes
  | call => exact (Memory.mappings_write _ _ _).trans (m.memory.mappings_write _ _)
  | ret => exact m.memory_observed_leave.mappings_eq
  | mapDevice => exact absurd rfl hop
  | debugText hobserved => exact hobserved.memory.mappings_eq
  | none | halt | sleep | reserve | jump | random | debug => rfl

/-- Only stores and calls write memory themselves. -/
theorem Effect.keptOutside_nil (heffect : Effect m op after) (hempty : m.memory.mappings = [])
    (hstore : ∀ base, op ≠ .store base) (hcall : op ≠ .call) :
    Memory.KeptOutside [] m.memory after.memory := by
  have hread {memory : Memory} (hobserved : m.memory.Observed memory) :
      Memory.KeptOutside [] m.memory memory := by
    rw [hobserved.eq_of_unmapped hempty]
    exact .refl m.memory
  cases heffect with
  | @setRegister register _ _ | @moveRegister register _ _ => cases register <;> exact .refl _
  | load | switch => exact hread (m.memory.observed_afterRead _ _)
  | store => exact absurd rfl (hstore _)
  | call => exact absurd rfl hcall
  | ret => exact hread m.memory_observed_leave
  | mapDevice hmap =>
      obtain ⟨-, rfl⟩ := Memory.map?_eq_some hmap
      exact ⟨fun _ _ _ => rfl, rfl⟩
  | debugText hobserved => exact hread hobserved.memory
  | none | halt | sleep | reserve | jump | random | debug => exact .refl _

/-- What is read for an input has all bytes of its lanes. -/
theorem length_encode_of_mem_inputValues {input : Input} (hmem : input ∈ m.inputValues) :
    input.lanes.encode.length = input.lanes.byteLength := by
  obtain ⟨index, hindex, rfl⟩ := List.mem_iff_getElem.mp hmem
  have hread := m.popped.getElem?_readInputs m.inputOperands m.inputAddresses index
  rw [← inputValues, List.getElem?_eq_getElem hindex] at hread
  obtain ⟨placed, -, hinput⟩ := Option.map_eq_some_iff.mp hread.symm
  rw [← hinput]
  exact (LaneVector.hasShape_ofBytes placed.1.shape _).length_encode

theorem keptOutside_performed (hplain : m.memory.Plain) :
    Memory.KeptOutside (m.popped.storedSpans m.fetch.opcode m.inputValues) m.memory
      m.performed.1.memory := by
  have hmemory := memory_popped hplain.mappings_eq
  have hpopped : m.popped.memory.Plain := by rw [hmemory]; exact hplain
  have hlength := m.length_inputValues
  have heffect := m.effect_performed
  rw [performed, supplied_eq hplain.mappings_eq] at heffect ⊢
  rw [← hmemory]
  cases hopcode : m.fetch.opcode with
  | store base =>
      rw [hopcode, Opcode.template_store] at hlength
      obtain ⟨a, target, hvalues⟩ := List.length_eq_two.mp hlength
      have hmem : a ∈ m.inputValues := by
        rw [hvalues]
        exact List.mem_cons_self
      have hwrite := hpopped.keptOutside_write (m.popped.effectiveAddress base target.lanes)
        a.lanes.encode
      rw [length_encode_of_mem_inputValues hmem] at hwrite
      rw [hvalues]
      exact hwrite
  | call =>
      rw [hopcode] at hlength
      obtain ⟨a, hvalues⟩ := List.length_eq_one_iff.mp hlength
      have hwrite := hpopped.keptOutside_write (m.popped.enter a.lanes.address).fp
        (savedFrame m.popped.fp m.popped.pc)
      rw [length_savedFrame] at hwrite
      have hframe := memory_enter hpopped a.lanes.address
      rw [hvalues]
      change Memory.KeptOutside _ _ (m.popped.enter a.lanes.address).memory
      rw [hframe]
      exact hwrite
  | _ =>
      rw [hopcode] at heffect
      exact heffect.keptOutside_nil hpopped.mappings_eq (by simp) (by simp)

/-- Without ranges before the step there are none for the outputs, or there are no outputs. -/
theorem plain_performed (hplain : m.memory.Plain) (hop : m.fetch.opcode ≠ .mapDevice) :
    m.performed.1.memory.Plain := by
  have heffect := m.effect_performed
  have hread := m.observed_supplied
  exact ⟨((heffect.mappings_eq hop).trans hread.mappings_eq).trans hplain.mappings_eq,
    (heffect.later.size_eq.trans hread.later.size_eq).trans hplain.size_eq⟩

/-- The spans of writes that have the bytes of their outputs. -/
theorem map_span_zip {operands : List Operand} {results : List LaneVector}
    (hresults : List.Forall₂ (fun operand result => LaneVector.HasShape operand.shape result)
      operands results) (addresses : List Nat) :
    (addresses.zip (results.map LaneVector.encode)).map
        (fun write => (⟨write.1, write.2.length⟩ : Span)) =
      addresses.zipWith (fun address output => ⟨address, output.shape.byteLength⟩) operands := by
  induction hresults generalizing addresses with
  | nil => simp
  | cons hshape hrest ih =>
      cases addresses with
      | nil => rfl
      | cons address others =>
          simp only [List.map_cons, List.zip_cons_cons, List.zipWith_cons_cons, ih,
            hshape.length_encode]

/-- An instruction that is executed writes memory only in its spans. -/
theorem keptOutside_writeOutputs (hplain : m.memory.Plain) :
    Memory.KeptOutside m.writtenSpans m.memory
      (m.performed.1.writeOutputs m.outputOperands m.performed.2).memory := by
  rw [writeOutputs_performed, writtenSpans, ← map_span_zip m.hasShape_performed]
  refine (keptOutside_performed hplain).trans ?_
  by_cases hop : m.fetch.opcode = .mapDevice
  · have hnone : m.outputAddresses = [] := by
      apply List.length_eq_zero_iff.mp
      rw [outputAddresses, length_pushOutputs, length_outputOperands, hop]
      rfl
    rw [hnone]
    exact .refl _
  · exact (plain_performed hplain hop).keptOutside_writeAll _

/-- An instruction that prints adds one line. -/
theorem exists_line_performed (hop : m.fetch.opcode = .debug ∨ m.fetch.opcode = .debugText) :
    ∃ line, m.performed.1.output = m.output.push line := by
  obtain ⟨memory, -, hsupplied⟩ := m.exists_supplied
  have houtput : m.supplied.output = m.output := by rw [hsupplied]
  have hlength := m.length_inputValues
  rw [performed, ← houtput]
  rcases hop with hop | hop
  all_goals
    rw [hop] at hlength ⊢
    obtain ⟨a, hvalues⟩ := List.length_eq_one_iff.mp hlength
    rw [hvalues]
    exact ⟨_, rfl⟩

/-- What a step leaves alone. -/
structure Framed (m : Machine) (outcome : Outcome) (after : Machine) : Prop where
  /-- A byte changes only in a span of an instruction that is executed. -/
  memory : ∀ address < space,
    (∀ op, outcome = .executed op → ∀ span ∈ m.writtenSpans, ¬ span.Covers address) →
      after.memory.ram.get address = m.memory.ram.get address
  devices : after.memory.devices = m.memory.devices
  mappings : outcome ≠ .executed .mapDevice → after.memory.mappings = m.memory.mappings
  fp : (∀ op, outcome = .executed op → ¬ op.SetsFramePointer) → after.fp = m.fp
  sleep : outcome = .sleeping ∧ m.sleep = after.sleep + 1 ∨
    outcome = .executed .halt ∨ outcome = .executed .sleep ∨ after.sleep = m.sleep
  output : (outcome = .executed .debug ∨ outcome = .executed .debugText) ∧
      (∃ line, after.output = m.output.push line) ∨
    outcome ≠ .executed .debug ∧ outcome ≠ .executed .debugText ∧ after.output = m.output
  pc_of_waiting : outcome = .sleeping ∨ outcome = .halted → after.pc = m.pc
  pc_of_fetched : (outcome = .skipped ∨ ∃ op, outcome = .executed op ∧ ¬ op.SetsProgramCounter) →
    after.pc = Address.move m.pc m.fetch.size

/-- A step that executes no instruction changes the program counter or the sleep counter at most. -/
theorem framed_of_not_executed {outcome : Outcome} (hnot : ∀ op, outcome ≠ .executed op)
    (hmemory : after.memory = m.memory) (hfp : after.fp = m.fp)
    (hsleep : outcome = .sleeping ∧ m.sleep = after.sleep + 1 ∨ after.sleep = m.sleep)
    (houtput : after.output = m.output)
    (hwaiting : outcome = .sleeping ∨ outcome = .halted → after.pc = m.pc)
    (hskipped : outcome = .skipped → after.pc = Address.move m.pc m.fetch.size) :
    Framed m outcome after where
  memory _ _ _ := by rw [hmemory]
  devices := by rw [hmemory]
  mappings _ := by rw [hmemory]
  fp _ := hfp
  sleep := hsleep.imp_right fun hsleep => .inr (.inr hsleep)
  output := .inr ⟨hnot _, hnot _, houtput⟩
  pc_of_waiting := hwaiting
  pc_of_fetched := by
    rintro (hskip | ⟨op, hop, -⟩)
    · exact hskipped hskip
    · exact absurd hop (hnot op)

/-- An instruction that is executed changes what it is there to change. -/
theorem framed_of_executed (hplain : m.memory.Plain) :
    Framed m (.executed m.fetch.opcode)
      (m.performed.1.writeOutputs m.outputOperands m.performed.2) := by
  obtain ⟨memory, hmemory, hsupplied⟩ := m.exists_supplied
  cases hmemory.eq_of_unmapped hplain.mappings_eq
  have heffect := m.effect_performed
  rw [hsupplied] at heffect
  have hkept := keptOutside_writeOutputs hplain
  have hafter := m.writeOutputs_performed
  generalize m.performed.1.writeOutputs m.outputOperands m.performed.2 = after at hkept hafter ⊢
  have hmappings : after.memory.mappings = m.performed.1.memory.mappings := by
    rw [hafter]
    exact Memory.mappings_writeAll _ _
  have hfp : after.fp = m.performed.1.fp := by rw [hafter]; rfl
  have hpc : after.pc = m.performed.1.pc := by rw [hafter]; rfl
  have hsleep : after.sleep = m.performed.1.sleep := by rw [hafter]; rfl
  have houtput : after.output = m.performed.1.output := by rw [hafter]; rfl
  constructor
  · intro address hlt hfree
    exact hkept.get_eq address hlt (hfree _ rfl)
  · exact hkept.devices_eq
  · intro hop
    rw [hmappings]
    exact heffect.mappings_eq fun heq => hop (by rw [heq])
  · intro hop
    rw [hfp]
    exact heffect.fp_eq (hop _ rfl)
  · by_cases hhalt : m.fetch.opcode = .halt
    · exact .inr (.inl (by rw [hhalt]))
    · by_cases hop : m.fetch.opcode = .sleep
      · exact .inr (.inr (.inl (by rw [hop])))
      · rw [hsleep]
        exact .inr (.inr (.inr (heffect.sleep_eq hhalt hop)))
  · rw [houtput]
    by_cases hprints : m.fetch.opcode = .debug ∨ m.fetch.opcode = .debugText
    · refine .inl ⟨?_, exists_line_performed hprints⟩
      rcases hprints with hop | hop
      · exact .inl (by rw [hop])
      · exact .inr (by rw [hop])
    · rw [not_or] at hprints
      have hdebug : Outcome.executed m.fetch.opcode ≠ .executed .debug :=
        fun heq => hprints.1 (Outcome.executed.inj heq)
      have htext : Outcome.executed m.fetch.opcode ≠ .executed .debugText :=
        fun heq => hprints.2 (Outcome.executed.inj heq)
      exact .inr ⟨hdebug, htext, heffect.output_eq hprints.1 hprints.2⟩
  · rintro (hwaits | hwaits) <;> cases hwaits
  · rintro (hskips | ⟨op, hexecuted, hop⟩)
    · cases hskips
    · cases hexecuted
      rw [hpc]
      exact heffect.pc_eq hop

/-- A step leaves everything alone but what its instruction is there to change. -/
theorem framed_step (hplain : m.memory.Plain) : Framed m m.step.1 m.step.2 := by
  have hstepped := m.stepped_step
  generalize m.step.1 = outcome, m.step.2 = after at hstepped ⊢
  cases hstepped with
  | halted hsleep =>
      exact framed_of_not_executed (by simp) rfl rfl (.inr rfl) rfl (fun _ => rfl) (by simp)
  | sleeping hawake hpos =>
      have hcount : m.sleep = m.sleep - 1 + 1 := (Nat.sub_add_cancel hpos).symm
      exact framed_of_not_executed (by simp) rfl rfl (.inl ⟨rfl, hcount⟩) rfl (fun _ => rfl)
        (by simp)
  | skipped hsleep hnot =>
      rw [located_eq hplain.mappings_eq]
      exact framed_of_not_executed (by simp) rfl rfl (.inr rfl) rfl (by simp) fun _ => rfl
  | executed hsleep hrunnable => exact framed_of_executed hplain

/-- A call whose frame lies around the end of memory. -/
theorem framed_step_call :
    let m : Machine := { Machine.new ⟨0x40, 0xffffff, 2⟩ default with
      memory := (Memory.ofRam .full).write 0x40
        (Bytes.ofWord 8 (Instruction.encode ⟨.call, 1, 1, (.p24, .u8, .u8), 1, 1⟩) ++
          [0x4b, 0, 0]) }
    Framed m m.step.1 m.step.2 ∧ m.step.1 = .executed .call ∧ m.writtenSpans = [⟨0xfffffc, 6⟩] := by
  intro m
  have hplain : m.memory.Plain := Memory.plain_full.write _ _
  refine ⟨framed_step hplain, ?_⟩
  decide +kernel

end Machine

end VectorStack
