import VectorStack.Proofs.Machine.Execution
import VectorStack.Proofs.Safety.Execute
/-!
Steps with guards. Whatever memory and the registers hold, and however devices were attached and
mapped before, a step goes through without a fault and does what it does without guards; so does
every run.
-/

namespace VectorStack

open Address (space wrap)

/-- Memory that came about by attaching, mapping and unmapping devices and by steps of machines,
while what main memory and the devices hold may have changed at any time. -/
inductive Memory.History : Memory → Prop
  | start {ram : Ram} (hsize : ram.size = space) : History (.ofRam ram)
  | change {memory after : Memory} (hhistory : History memory)
      (hsize : after.ram.size = memory.ram.size)
      (hdevices : after.devices.size = memory.devices.size)
      (hmappings : after.mappings = memory.mappings) : History after
  | attach {memory : Memory} (hhistory : History memory) (device : Device) :
      History (memory.attach device)
  | map {memory mapped : Memory} {address device offset length : Nat} (hhistory : History memory)
      (hoffset : offset < 2 ^ 32) (hmap : memory.map? address device offset length = some mapped) :
      History mapped
  | unmapAll {memory : Memory} (hhistory : History memory) : History memory.unmapAll
  | step {m : Machine} (hhistory : History m.memory) : History m.step.2.memory

namespace Machine

def guardedPerform (m : Machine) (i : Instruction) (inputs outputs : List Operand) :
    Guarded Machine := do
  let (sp, addresses) ← guardedPopInputs m.sp inputs
  let popped := m.withSp sp
  let (values, supplied) ← popped.guardedReadInputs inputs addresses
  let (after, results) ← supplied.guardedExecute i.opcode values (outputs.map Operand.shape)
  after.guardedWriteOutputs outputs results

def guardedFetch (m : Machine) : Guarded (Instruction × Machine) := do
  let (word, m) ← m.guardedReadNat m.pc Instruction.wordBytes
  let i ← Instruction.guardedDecode (UInt64.ofNat word)
  pure (i, m)

/-- Perform an instruction that starts at `start`, or pass over it. -/
def guardedDispatch (m : Machine) (i : Instruction) (start : Nat) :
    Guarded (Outcome × Machine) := do
  match ← m.guardedOperands i start with
  | (none, m) => pure (.skipped, m)
  | (some operands, m) =>
    let count := i.opcode.template.inputs.length
    let after ← m.guardedPerform i (operands.take count) (operands.drop count)
    pure (.executed i.opcode, after)

def guardedAdvance (m : Machine) : Guarded (Outcome × Machine) := do
  let (i, fetched) ← m.guardedFetch
  let size ← i.guardedSize
  let next := fetched.withPc (Address.move m.pc size)
  next.guardedDispatch i m.pc

def guardedStep (m : Machine) : Guarded (Outcome × Machine) :=
  if m.sleep = halted then pure (.halted, m)
  else if 0 < m.sleep then do
    let sleep ← Guard.unsigned 64 ((m.sleep : Int) - 1)
    pure (.sleeping, m.setSleep sleep)
  else m.guardedAdvance

def guardedRunFrom (taken : Nat) (m : Machine) : Nat → Guarded (Nat × Machine)
  | 0 => pure (taken, m)
  | count + 1 => do
    match ← m.guardedStep with
    | (.halted, m) => pure (taken, m)
    | (_, m) => guardedRunFrom (taken + 1) m count

end Machine

theorem Memory.History.sound {memory : Memory} (hhistory : memory.History) : memory.Sound := by
  induction hhistory with
  | start hsize => exact ⟨hsize, by simp [ofRam]⟩
  | change hhistory hsize hdevices hmappings hsound =>
      constructor
      · rw [hsize, hsound.size_eq]
      · rw [hmappings, hdevices]
        exact hsound.routed
  | attach hhistory device hsound =>
      refine ⟨hsound.size_eq, ?_⟩
      intro mapping hmem
      obtain ⟨hdevice, hoffset⟩ := hsound.routed mapping hmem
      refine ⟨?_, hoffset⟩
      rw [Memory.attach, Array.size_push]
      omega
  | map hhistory hoffset hmap hsound =>
      obtain ⟨hdevice, rfl⟩ := map?_eq_some hmap
      refine ⟨hsound.size_eq, ?_⟩
      intro mapping hmem
      rcases List.mem_cons.mp hmem with rfl | hmem
      · exact ⟨hdevice, hoffset⟩
      · exact hsound.routed mapping hmem
  | unmapAll hhistory hsound => exact ⟨hsound.size_eq, by simp [Memory.unmapAll]⟩
  | step hhistory hsound => exact hsound.later (Machine.later_step _)

namespace Machine

variable {m : Machine} {i : Instruction} {start slot : Nat}

/-- The inputs that are read for the slots of a template. -/
theorem forall₂_reads (popped : Machine) {op : Opcode} (hfits : i.Fits) {slots : List Slot}
    (hslots : ∀ template ∈ slots, template ∈ op.template.slots) {addresses : List Nat}
    (hlength : addresses.length = slots.length) (hlt : ∀ address ∈ addresses, address < 2 ^ 32) :
    List.Forall₂ (Reads i.width) slots
      (popped.readInputs (m.operandsFrom i start slot slots) addresses) := by
  induction slots generalizing m popped slot addresses with
  | nil => exact .nil
  | cons template rest ih =>
      obtain ⟨address, others, rfl⟩ := List.exists_cons_of_length_eq_add_one hlength
      have hshape : (i.shape slot template).Fits :=
        fits_shape (hslots template List.mem_cons_self) hfits
      refine .cons ⟨hlt address List.mem_cons_self,
        LaneVector.fits_ofBytes _ _ hshape.width_pos hshape.width_le, _, _, rfl⟩ ?_
      exact ih _ (fun other hmem => hslots other (List.mem_cons_of_mem _ hmem))
        (Nat.succ.inj hlength) fun other hmem => hlt other (List.mem_cons_of_mem _ hmem)

/-- The operands of an instruction that can run. -/
theorem guardedOperands_eq (hsound : m.memory.Sound) :
    m.guardedOperands i start =
      .ok (if isRunnable i (m.inputs i start ++ m.outputs i start)
        then some (m.inputs i start ++ m.outputs i start) else none,
        m.afterPlaces i start 0 i.locatedSlots) := by
  have hsize := i.opcode.template_size_le
  have hmax : Template.maxOperands = 3 := rfl
  have hslots : i.opcode.template.slots.length ≤ Template.maxOperands := by
    rw [Template.slots, List.length_append]
    exact hsize
  rw [guardedOperands]
  by_cases hinvalid : i.opcode = .invalid
  · rw [if_pos hinvalid, isRunnable, Instruction.locatedSlots, hinvalid]
    rfl
  · have hoperands : m.guardedOperandsFrom i start 0 Template.maxOperands _ = _ :=
      guardedOperandsFrom_eq hsound hslots (Nat.le_refl _)
    rw [if_neg hinvalid, Guard.unsigned_eq (by omega), Guarded.ok_bind, hoperands,
      operandsFrom_slots, isRunnable, bne_iff_ne.mpr hinvalid, Bool.true_and,
      Instruction.locatedSlots_eq hinvalid]

theorem guardedPerform_eq (hsound : m.memory.Sound) (hregisters : m.Fits) (hfits : i.Fits)
    (hop : i.opcode ≠ .invalid) {next : Machine} :
    m.guardedPerform i (next.inputs i start) (next.outputs i start) =
      .ok (m.perform i (next.inputs i start) (next.outputs i start)) := by
  have hinputs : ∀ operand ∈ next.inputs i start, FitsOperand operand :=
    fitsOperand_of_mem hfits fun _ hmem => List.mem_append_left _ hmem
  have houtputs : ∀ operand ∈ next.outputs i start, FitsOperand operand :=
    fitsOperand_of_mem hfits fun _ hmem => List.mem_append_right _ hmem
  have hshapes : ∀ out ∈ (next.outputs i start).map Operand.shape, out.Fits := by
    intro out hmem
    obtain ⟨operand, hoperand, rfl⟩ := List.mem_map.mp hmem
    exact (houtputs operand hoperand).shape
  obtain ⟨hsp, haddresses⟩ := popInputs_lt hregisters.sp_lt hinputs
  have hlength := length_popInputs m.sp (next.inputs i start)
  have hcount : (next.inputs i start).length = i.opcode.template.inputs.length :=
    next.length_operandsFrom i start 0 _
  have hcount' : ((next.outputs i start).map Operand.shape).length =
      i.opcode.template.outputs.length := by
    rw [List.length_map]
    exact length_operandsFrom _ i start _ _
  let popped := m.withSp (popInputs m.sp (next.inputs i start)).1
  let addresses := (popInputs m.sp (next.inputs i start)).2
  let values := popped.readInputs (next.inputs i start) addresses
  let supplied := popped.afterInputs (next.inputs i start) addresses
  have hobserved : popped.Observed supplied := popped.observed_afterInputs _ _
  have hsupplied : supplied.Fits := (hregisters.withSp hsp).observed hobserved
  have hmemory : supplied.memory.Sound := Memory.Sound.observed hsound hobserved.memory
  have hslots : ∀ template ∈ i.opcode.template.inputs, template ∈ i.opcode.template.slots :=
    fun _ hmem => List.mem_append_left _ hmem
  have hreads : List.Forall₂ (Reads i.width) i.opcode.template.inputs values :=
    forall₂_reads popped hfits hslots (hlength.trans hcount) haddresses
  have hvalues : popped.guardedReadInputs (next.inputs i start) addresses =
      .ok (values, supplied) :=
    guardedReadInputs_eq (m := popped) hsound hinputs hlength haddresses
  obtain ⟨hexecute, hanswers⟩ := guardedExecute_eq hmemory hsupplied hop hreads hcount' hshapes
  have hlanes :
      (supplied.execute i.opcode values ((next.outputs i start).map Operand.shape)).2.length =
        (next.outputs i start).length := by
    rw [hanswers.length_eq, List.length_map]
  have hafter := hmemory.later (supplied.effect_execute i.opcode values
    ((next.outputs i start).map Operand.shape)).later
  have hwrite := guardedWriteOutputs_eq hafter houtputs hlanes hanswers.fits
  simp only [guardedPerform, guardedPopInputs_eq m.sp hinputs, Guarded.ok_bind]
  change (popped.guardedReadInputs _ addresses >>= fun read =>
    read.2.guardedExecute i.opcode read.1 _ >>= _) = _
  rw [hvalues, Guarded.ok_bind, hexecute, Guarded.ok_bind]
  exact hwrite

theorem guardedFetch_eq (hsound : m.memory.Sound) (hregisters : m.Fits) :
    m.guardedFetch = .ok (m.fetch, m.afterRead m.pc Instruction.wordBytes) := by
  rw [guardedFetch, guardedReadNat_eq hsound hregisters.pc_lt (by decide), Guarded.ok_bind]
  simp only [Instruction.guardedDecode_eq, Guarded.ok_bind]
  rfl

theorem guardedDispatch_eq (hsound : m.memory.Sound) (hregisters : m.Fits) (hfits : i.Fits) :
    m.guardedDispatch i start =
      .ok (if isRunnable i (m.inputs i start ++ m.outputs i start) then
        (.executed i.opcode, (m.afterPlaces i start 0 i.locatedSlots).perform i
          (m.inputs i start) (m.outputs i start))
      else (.skipped, m.afterPlaces i start 0 i.locatedSlots)) := by
  have hobserved := m.observed_afterPlaces i start 0 i.locatedSlots
  have hlocated := hsound.observed hobserved.memory
  have hcount : (m.inputs i start).length = i.opcode.template.inputs.length :=
    m.length_operandsFrom i start 0 _
  rw [guardedDispatch, guardedOperands_eq hsound, Guarded.ok_bind]
  by_cases hrunnable : isRunnable i (m.inputs i start ++ m.outputs i start) = true
  · have hvalid : i.opcode ≠ .invalid := by
      rw [isRunnable, Bool.and_eq_true, bne_iff_ne] at hrunnable
      exact hrunnable.1
    simp only [hrunnable, if_true, ← hcount, List.take_left, List.drop_left,
      guardedPerform_eq hlocated (hregisters.observed hobserved) hfits hvalid, Guarded.ok_bind,
      Guarded.pure_eq]
  · simp only [hrunnable]
    rfl

theorem guardedAdvance_eq (hsound : m.memory.Sound) (hregisters : m.Fits) :
    m.guardedAdvance = .ok m.advance := by
  have hobserved := m.observed_afterRead m.pc Instruction.wordBytes
  have hnext : m.passed.Fits :=
    (hregisters.observed hobserved).withPc (lt_of_lt_space (Address.move_lt _ _))
  have hmemory : m.passed.memory.Sound := hsound.observed hobserved.memory
  rw [guardedAdvance, guardedFetch_eq hsound hregisters, Guarded.ok_bind]
  simp only [m.fetch_fits.guardedSize_eq, Guarded.ok_bind]
  exact guardedDispatch_eq hmemory hnext m.fetch_fits

/-- A step with guards is the step. -/
theorem guardedStep_eq (hsound : m.memory.Sound) (hregisters : m.Fits) :
    m.guardedStep = .ok m.step := by
  have hsleep := hregisters.sleep_lt
  rw [guardedStep, step]
  split
  · rfl
  · split
    · next hpos =>
        have hless : (m.sleep : Int) - 1 = ((m.sleep - 1 : Nat) : Int) := by omega
        rw [hless, Guard.unsigned_eq (by omega)]
        rfl
    · exact guardedAdvance_eq hsound hregisters

/-- An operation puts a number of a lane in the sleep counter, if anything. -/
theorem Effect.sleep_lt {after : Machine} {op : Opcode} (heffect : Effect m op after)
    (hsleep : m.sleep < 2 ^ 64) : after.sleep < 2 ^ 64 := by
  cases heffect with
  | halt => exact (by decide : halted < 2 ^ 64)
  | sleep hlt => exact hlt
  | @setRegister register _ _ | @moveRegister register _ _ => cases register <;> exact hsleep
  | debugText hobserved =>
      obtain ⟨memory, -, rfl⟩ := hobserved
      exact hsleep
  | none | load | store | reserve | jump | switch | call | ret | random | mapDevice | debug =>
      exact hsleep

theorem sleep_step_lt (hsleep : m.sleep < 2 ^ 64) : m.step.2.sleep < 2 ^ 64 := by
  have hstepped := m.stepped_step
  generalize m.step.1 = outcome, m.step.2 = after at hstepped ⊢
  cases hstepped with
  | halted => exact hsleep
  | sleeping => exact Nat.lt_of_le_of_lt (Nat.sub_le m.sleep 1) hsleep
  | skipped =>
      obtain ⟨memory, -, hlocated⟩ := m.exists_located 0 m.fetch.locatedSlots
      rw [hlocated]
      exact hsleep
  | executed =>
      obtain ⟨memory, -, hsupplied⟩ := m.exists_supplied
      have hperformed := m.effect_performed.sleep_lt (by rw [hsupplied]; exact hsleep)
      rw [writeOutputs_performed]
      exact hperformed

theorem fits_step (hregisters : m.Fits) : m.step.2.Fits := by
  have hbelow := below_step (by decide : space ≤ 2 ^ 32)
    ⟨hregisters.pc_lt, hregisters.fp_lt, hregisters.sp_lt⟩
  exact ⟨hbelow.pc_lt, hbelow.fp_lt, hbelow.sp_lt, sleep_step_lt hregisters.sleep_lt⟩

/-- A run with guards is the run. -/
theorem guardedRunFrom_eq (hsound : m.memory.Sound) (hregisters : m.Fits) (taken count : Nat) :
    guardedRunFrom taken m count = .ok (runFrom taken m count) := by
  induction count generalizing m taken with
  | zero => rfl
  | succ count ih =>
      have hafter := hsound.later (later_step m)
      have hfits := fits_step hregisters
      rw [guardedRunFrom, guardedStep_eq hsound hregisters, Guarded.ok_bind, runFrom]
      rcases hstep : m.step with ⟨outcome, after⟩
      rw [hstep] at hafter hfits
      cases outcome with
      | halted => rfl
      | executed opcode | sleeping | skipped => exact ih hafter hfits (taken + 1)

/-- Nothing stops the machine in the middle of a run, whatever memory holds, wherever the registers
point, and however devices were attached and mapped. -/
theorem run_never_faults (hhistory : m.memory.History) (hregisters : m.Fits) (count : Nat) :
    guardedRunFrom 0 m count = .ok (m.run count) :=
  guardedRunFrom_eq hhistory.sound hregisters 0 count

/-- Nothing stops the machine in the middle of a step, whatever memory holds, wherever the registers
point, and however devices were attached and mapped. -/
theorem step_never_faults {m : Machine} (hhistory : m.memory.History) (hregisters : m.Fits) :
    m.guardedStep = .ok m.step ∧ m.step.2.memory.History ∧ m.step.2.Fits :=
  ⟨guardedStep_eq hhistory.sound hregisters, hhistory.step, fits_step hregisters⟩

/-- A machine whose registers lie outside of the address space, where a device answers that changes
with every byte that is read of an instruction and its two addresses. -/
theorem step_never_faults_outside :
    let m : Machine := { Machine.new ⟨0xffffffff, 0xfffffffe, 0xfffffffd⟩ default with
      memory := { (Memory.ofRam .full).attach .counter with
        mappings := [⟨0xfffff0, 32, 0, 0xffffffff⟩] } }
    m.guardedStep = .ok m.step ∧ m.memory.readNat m.pc 8 = 0x0706050403020100 ∧
      m.step.2.memory.devices[0]?.map (·.get 0) = some 14 := by
  intro m
  have hstart : (Memory.ofRam .full).History := .start rfl
  have hmap : ((Memory.ofRam .full).attach .counter).map? 0xfffff0 0 0xffffffff 32 =
      some m.memory := rfl
  have hhistory : m.memory.History := (hstart.attach .counter).map (by decide) hmap
  have hregisters : m.Fits :=
    ⟨(by decide : 0xffffffff < 2 ^ 32), (by decide : 0xfffffffe < 2 ^ 32),
      (by decide : 0xfffffffd < 2 ^ 32), (by decide : 0 < 2 ^ 64)⟩
  exact ⟨(step_never_faults hhistory hregisters).1, by decide +kernel, by decide +kernel⟩

end Machine

end VectorStack
