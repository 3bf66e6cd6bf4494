import VectorStack.Proofs.Machine.Delivery
import VectorStack.Proofs.Machine.Stack
/-!
The assembler and the machine agree on instructions. A machine that comes to an instruction as it
was written executes it, with every operand where its way of writing it says.
-/

namespace VectorStack

open Address (wrap)

variable {store : TokenStore} {config : AssemblyConfig} {statements : List Statement}

namespace Machine

/-- A step over an instruction with what its operation is given: the inputs are popped and read
where they lie, the operation is performed on their values by the machine that has gone on, and its
results are written. -/
structure Operates (m : Machine) (op : Opcode) (pc : Nat) (inputs outputs : List Operand)
    (addresses : List Nat) (values : List Input) (sp : Nat) : Prop where
  inputs_eq : m.inputOperands = inputs
  outputs_eq : m.outputOperands = outputs
  length_inputs : inputs.length = op.template.inputs.length
  length_outputs : outputs.length = op.template.outputs.length
  popped : Stacked m.sp inputs addresses sp
  values_eq : values = inputs.zipWith (fun operand address =>
    ⟨address, .ofBytes operand.shape.type operand.shape.width
      (m.memory.read address operand.shape.byteLength)⟩) addresses
  step_eq : m.step = (.executed op,
    let popped : Machine := { m with registers := ⟨pc, m.fp, sp⟩ }
    let (after, results) := popped.execute op values (outputs.map Operand.shape)
    after.writeOutputs outputs results)

/-- What an instruction that is executed does where no range is mapped. -/
theorem operates_of_step {m : Machine} (hempty : m.memory.mappings = [])
    (hstep : m.step = (.executed m.fetch.opcode,
      m.performed.1.writeOutputs m.outputOperands m.performed.2)) :
    m.Operates m.fetch.opcode (Address.move m.pc m.fetch.size) m.inputOperands m.outputOperands
      m.inputAddresses m.inputValues m.popped.sp where
  inputs_eq := rfl
  outputs_eq := rfl
  length_inputs := m.length_inputOperands
  length_outputs := m.length_outputOperands
  popped := by
    rw [sp_popped]
    exact stacked_popInputs m.sp m.inputOperands
  values_eq := inputValues_eq hempty
  step_eq := by
    have hsupplied : m.supplied =
        { m with registers := ⟨Address.move m.pc m.fetch.size, m.fp, m.popped.sp⟩ } := by
      rw [supplied_eq hempty, popped_eq hempty, passed_eq hempty]
      rfl
    rw [hstep, performed, hsupplied]

/-- An input in memory is read at its address. -/
theorem Stacked.getElem?_of_memory {sp above address : Nat} {operands : List Operand}
    {addresses : List Nat} (hstacked : Stacked sp operands addresses above) {index : Nat}
    {shape : Shape} (hoperand : operands[index]? = some ⟨shape, .memory address⟩) :
    addresses[index]? = some address := by
  induction hstacked generalizing index with
  | nil => cases hoperand
  | stack hplace hrest ih =>
      cases index with
      | zero =>
          rw [Option.some.inj hoperand] at hplace
          cases hplace
      | succ index => exact ih hoperand
  | memory hplace hrest ih =>
      cases index with
      | zero =>
          rw [Option.some.inj hoperand] at hplace
          cases hplace
          rfl
      | succ index => exact ih hoperand

/-- The value of an input in memory is what is read there. -/
theorem Operates.value_eq {m : Machine} {op : Opcode} {pc sp address index : Nat}
    {inputs outputs : List Operand} {addresses : List Nat} {values : List Input} {shape : Shape}
    (hoperates : m.Operates op pc inputs outputs addresses values sp)
    (hoperand : inputs[index]? = some ⟨shape, .memory address⟩) :
    values[index]? = m.valueAt shape (.memory address) := by
  rw [hoperates.values_eq, List.getElem?_zipWith, hoperand,
    hoperates.popped.getElem?_of_memory hoperand]
  rfl

/-- A machine that comes to an instruction as it was written executes it. It goes on behind the
instruction, and the operand of every slot has the type and the width that were planned and is
where its way of writing it says. The operation is given these operands: those on the stack are
popped, and the value of every other one is the one that is written. -/
theorem step_of_emitted {tokens : List TokenId} {image : Image}
    (hread : store.statements tokens = .ok statements) (hdefault : config.SupportsDefault)
    (himage : Image.ofStatements store config statements = .ok image)
    {before behind : List Statement} {statement : InstructionStatement}
    (hstatements : statements = before ++ .instruction statement :: behind) :
    ∃ layout pool labels earlier entry later,
      Layout.ofStatements store config statements = .ok layout ∧
      ConstantPool.ofLayout layout store config = .ok pool ∧
      image.program = Image.assemble image.entries pool ∧
      image.entries = earlier ++ entry :: later ∧
      LaidOut store config layout pool 0 before labels earlier entry.address ∧
      entry.token = statement.token ∧
      ∀ m : Machine, m.memory.Plain → m.sleep = 0 → m.pc = entry.address →
        m.memory.Holds entry.address entry.bytes →
        (∀ placed ∈ pool.cells, m.memory.Holds placed.1 placed.2.content.bytes) →
        ∃ inputs outputs addresses values sp,
          m.Operates statement.opcode (wrap (entry.address + entry.length)) inputs outputs
            addresses values sp ∧
          ∀ (index : Nat) (slot : Slot), statement.opcode.template.slots[index]? = some slot →
            ∃ type place, Layout.operandType store config statement index slot = .ok type ∧
              (inputs ++ outputs)[index]? =
                some ⟨⟨type, slot.resolveWidth statement.width⟩, place⟩ ∧
              Delivers store layout m (statement.term? index)
                (decide (statement.opcode.template.inputs.length ≤ index))
                ⟨type, slot.resolveWidth statement.width⟩ values[index]? place := by
  obtain ⟨layout, pool, hlayout, hpool, hprogram, hlaidOut⟩ := Image.exists_laidOut himage
  have hstatement := TokenStore.wellFormed_of_statements hread (.instruction statement)
    (by rw [hstatements]; exact List.mem_append_right _ List.mem_cons_self)
  have hsplit := hlaidOut
  rw [hstatements] at hsplit
  obtain ⟨labels, earlier, entry, later, stop, hentries, hbefore, htoken, hemits⟩ :=
    hsplit.exists_instruction
  refine ⟨layout, pool, labels, earlier, entry, later, hlayout, hpool, hprogram, hentries, hbefore,
    htoken, ?_⟩
  intro m hplain hsleep hpc hholds hcells
  rw [← hpc] at hemits
  have hheld : ∀ held ∈ [entry], m.memory.Holds held.address held.bytes :=
    List.forall_mem_singleton.mpr hholds
  obtain ⟨hopcode, hlength, hoperands⟩ :=
    fetch_of_emits hstatement hlayout hpool hemits hplain hheld hcells
  have hstep := step_of_emits hdefault hstatement hlayout hpool hemits hplain hsleep hheld hcells
  have hoperates := operates_of_step hplain.mappings_eq (by rw [hopcode]; exact hstep)
  rw [hopcode, ← hlength entry List.mem_cons_self, hpc, Address.move_ofNat] at hoperates
  refine ⟨_, _, _, _, _, hoperates, ?_⟩
  intro index slot hslot
  obtain ⟨type, shape, place, htype, rfl, -, hoperand, hdelivers⟩ := hoperands index slot hslot
  refine ⟨type, place, htype, hoperand, hdelivers.of_valueAt ?_⟩
  rintro address hinput rfl
  apply hoperates.value_eq
  rwa [List.getElem?_append_left] at hoperand
  rw [hoperates.length_inputs]
  exact Nat.lt_of_not_le (of_decide_eq_false hinput)

/-- What `push:u8 9` is cut into. -/
def pushedNine : TokenStore where
  sources := #[⟨"push", #['p', 'u', 's', 'h', ':', 'u', '8', ' ', '9'], none⟩]
  tokens := #[⟨.word, 0, 0, 4, none⟩, ⟨.type, 0, 4, 3, none⟩, ⟨.number, 0, 8, 1, none⟩]

/-- What it says. -/
def pushNine : InstructionStatement := ⟨.push, 0, some .u8, 1, [⟨.literal 2 false, 2, 1⟩], []⟩

theorem statements_pushedNine :
    pushedNine.statements [0, 1, 2] = .ok [.instruction pushNine] := by
  decide +kernel

/-- The constant of the push lies right behind it. -/
theorem exists_image_pushedNine : ∃ image,
    Image.ofStatements pushedNine .standard [.instruction pushNine] = .ok image ∧
      image.entries = [⟨0, .single [2, 4, 0, 1, 0, 0, 0, 0, 11, 0, 0], 0, none⟩] ∧
      ∀ layout pool,
        Layout.ofStatements pushedNine .standard [.instruction pushNine] = .ok layout →
        ConstantPool.ofLayout layout pushedNine .standard = .ok pool →
        pool.cells = [(11, ⟨.u8, ⟨[9], 1⟩⟩)] := by
  have hentries : (Image.ofStatements pushedNine .standard [.instruction pushNine]).map
      Image.entries = .ok [⟨0, .single [2, 4, 0, 1, 0, 0, 0, 0, 11, 0, 0], 0, none⟩] := by
    decide +kernel
  have hcells : ((Layout.ofStatements pushedNine .standard [.instruction pushNine]).bind
      fun layout => (ConstantPool.ofLayout layout pushedNine .standard).map ConstantPool.cells) =
        .ok [(11, ⟨.u8, ⟨[9], 1⟩⟩)] := by decide +kernel
  obtain ⟨image, himage, hwritten⟩ := map_eq_ok.mp hentries
  refine ⟨image, himage, hwritten, ?_⟩
  intro layout pool hlayout hpool
  obtain ⟨other, hother, hcells⟩ := bind_eq_ok.mp hcells
  cases hlayout.symm.trans hother
  obtain ⟨found, hfound, hcells⟩ := map_eq_ok.mp hcells
  cases hpool.symm.trans hfound
  exact hcells

/-- A machine over memory that begins with a push and its constant gives the constant to the push,
which leaves it on the stack. -/
theorem step_of_emitted_push :
    let m : Machine := { Machine.new ⟨0, 0, 0⟩ default with
      memory := (Memory.ofRam .full).write 0 [2, 4, 0, 1, 0, 0, 0, 0, 11, 0, 0, 9] }
    m.Operates .push 11 [⟨⟨.u8, 1⟩, .memory 11⟩] [⟨⟨.u8, 1⟩, .stack⟩] [11]
        [⟨11, ⟨.u8, 1, [9]⟩⟩] 0 ∧
      m.step.1 = .executed .push ∧ m.step.2.registers = ⟨11, 0, 0xffffff⟩ ∧
      m.step.2.memory.read 0xffffff 1 = [9] := by
  intro m
  have hdefault : AssemblyConfig.standard.SupportsDefault := by
    intro type htype
    cases htype
    rfl
  obtain ⟨image, himage, hentries, hcells⟩ := exists_image_pushedNine
  obtain ⟨layout, pool, labels, earlier, entry, later, hlayout, hpool, -, hsplit, -, -, hsteps⟩ :=
    step_of_emitted statements_pushedNine hdefault himage (List.nil_append _).symm
  have hentry : entry ∈ image.entries := by
    rw [hsplit]
    exact List.mem_append_right _ List.mem_cons_self
  rw [hentries] at hentry
  cases List.mem_singleton.mp hentry
  have hplain : m.memory.Plain := Memory.plain_full.write 0 _
  have hholds : m.memory.Holds 0 ([2, 4, 0, 1, 0, 0, 0, 0, 11, 0, 0] ++ [9]) :=
    Memory.holds_write Memory.plain_full (by decide)
  obtain ⟨inputs, outputs, addresses, values, sp, hoperates, hdelivers⟩ :=
    hsteps m hplain rfl rfl hholds.left
      (by
        rw [hcells layout pool hlayout hpool]
        exact List.forall_mem_singleton.mpr hholds.right)
  have hinputs : m.inputOperands = [⟨⟨.u8, 1⟩, .memory 11⟩] := by decide +kernel
  have houtputs : m.outputOperands = [⟨⟨.u8, 1⟩, .stack⟩] := by decide +kernel
  cases hoperates.inputs_eq.symm.trans hinputs
  cases hoperates.outputs_eq.symm.trans houtputs
  obtain ⟨rfl, rfl⟩ : addresses = [11] ∧ sp = 0 := by
    cases hoperates.popped with
    | stack hplace => cases hplace
    | memory hplace hrest =>
        cases hplace
        cases hrest
        exact ⟨rfl, rfl⟩
  obtain ⟨type, place, htype, hoperand, hdelivered⟩ := hdelivers 0 _ rfl
  cases htype
  cases hoperand
  have hconstant : Term.IsConstant ⟨.literal 2 false, 2, 1⟩ pushedNine := trivial
  have htext : ¬ Term.IsText ⟨.literal 2 false, 2, 1⟩ := by
    rintro ⟨token, hwritten⟩
    cases hwritten
  have hread : Number.parse? (pushedNine.chars 2) = some (.integer 9) := by decide +kernel
  have hnumber : layout.termNumber pushedNine ⟨.literal 2 false, 2, 1⟩ = .ok (.integer 9) := by
    simp [Layout.termNumber, hread]
  obtain ⟨_, hplace, hinput⟩ := hdelivered.of_constant hconstant htext rfl hnumber
  cases hplace
  have hvalue : values[0]? = some ⟨11, ⟨.u8, 1, [9]⟩⟩ := hinput
  obtain rfl : values = [⟨11, ⟨.u8, 1, [9]⟩⟩] := by
    rw [hoperates.values_eq] at hvalue ⊢
    rw [← Option.some.inj hvalue]
    rfl
  have hstep := hoperates.step_eq
  rw [hstep]
  refine ⟨hoperates, rfl, rfl, ?_⟩
  exact hplain.read_write 0xffffff (show [(9 : UInt8)].length ≤ Address.space by decide)

end Machine

end VectorStack
