import VectorStack.Proofs.Arithmetic.Branches
import VectorStack.Proofs.Machine.Pushed
/-!
Instructions that copy. What is pushed, duplicated, stored or loaded goes through lanes, and still
every byte arrives as it was, for every type but single floats and wherever the operands lie. So a
load finds what a store has put at the same address, after whatever runs in between and writes
nothing there.
-/

namespace VectorStack

open Address (space wrap)

namespace Opcode

/-- Operations that put what they read somewhere else. -/
def Copies : Opcode → Prop
  | push | dup | load _ | store _ => True
  | _ => False

end Opcode

namespace Instruction

/-- Every slot whose type the operation leaves to the word has this type there. -/
def Names (i : Instruction) (type : DataType) : Prop :=
  ∀ slot ∈ i.opcode.template.slots.zipIdx, slot.1.type = none → i.typeAt slot.2 = type

instance (i : Instruction) (type : DataType) : Decidable (i.Names type) :=
  inferInstanceAs (Decidable (∀ slot ∈ i.opcode.template.slots.zipIdx,
    slot.1.type = none → i.typeAt slot.2 = type))

variable {i : Instruction} {type : DataType}

theorem Names.typeAt_eq (hnames : i.Names type) {index : Nat} {slot : Slot}
    (hslot : i.opcode.template.slots[index]? = some slot) (hfree : slot.type = none) :
    i.typeAt index = type :=
  hnames (slot, index) (List.mem_zipIdx_iff_getElem?.mpr hslot) hfree

/-- A copy can run if the type that it names has a meaning. -/
theorem Names.not_isMalformed (hnames : i.Names type) (hcopies : i.opcode.Copies)
    (hsupported : type ≠ .unsupported) : ¬ i.IsMalformed := by
  have hforced : ∀ slot ∈ i.opcode.template.slots, ∀ own, slot.type = some own →
      own ≠ .unsupported := by
    cases hopcode : i.opcode with
    | push | dup => decide
    | load base | store base => cases base <;> decide
    | _ =>
        rw [hopcode] at hcopies
        exact hcopies.elim
  rintro (hinvalid | ⟨⟨slot, index⟩, hslot, htype⟩)
  · rw [hinvalid] at hcopies
    exact hcopies
  · have hlisted := List.mem_zipIdx_iff_getElem?.mp hslot
    rw [Slot.resolveType] at htype
    cases hown : slot.type with
    | none =>
        rw [hown, Option.getD_none, hnames.typeAt_eq hlisted hown] at htype
        exact hsupported htype
    | some own =>
        rw [hown, Option.getD_some] at htype
        exact hforced slot (List.mem_of_getElem? hlisted) own hown htype

end Instruction

namespace Memory

variable {memory : Memory} {bytes : Bytes}

/-- Bytes that are written to several places are at each of them that none of the later places
overlaps. -/
theorem Plain.read_writeAll (hplain : memory.Plain) (hlength : bytes.length ≤ space)
    {targets rest : List Nat} {target : Nat} (hsuffix : target :: rest <:+ targets)
    (hapart : ∀ other ∈ rest, Span.Apart ⟨target, bytes.length⟩ ⟨other, bytes.length⟩) :
    (memory.writeAll (targets.map fun target => (target, bytes))).read target bytes.length =
      bytes := by
  obtain ⟨before, rfl⟩ := hsuffix
  have hbefore := hplain.writeAll (before.map fun target => (target, bytes))
  generalize hbetween : memory.writeAll (before.map fun target => (target, bytes)) = between
    at hbefore
  have hsplit : memory.writeAll ((before ++ target :: rest).map fun target => (target, bytes)) =
      (between.write target bytes).writeAll (rest.map fun target => (target, bytes)) := by
    rw [← hbetween, List.map_append, List.map_cons]
    exact List.foldl_append
  have hwritten := hbefore.write target bytes
  have hspans : ∀ span ∈ (rest.map fun target => (target, bytes)).map
      (fun write => (⟨write.1, write.2.length⟩ : Span)),
      Span.Apart ⟨target, bytes.length⟩ span := by
    rw [List.map_map, List.forall_mem_map]
    exact hapart
  rw [hsplit, read_kept hwritten (hwritten.writeAll _) (hwritten.keptOutside_writeAll _) hspans]
  exact hbefore.read_write target hlength

end Memory

namespace Machine

variable {m after later : Machine} {type : DataType} {base : Base} {span : Span}

/-- Where a load or a store takes place: at the address that is written at its last operand, or at
the signed distance of 32 bits that is written there from the frame pointer, or from the stack
pointer once all operands on the stack are popped. -/
def pointedAt (m : Machine) (base : Base) : Nat :=
  let operand := m.inputAddresses.getLastD 0
  match base with
  | .absolute => wrap (m.memory.readNat operand Address.byteCount)
  | .frame => Address.move m.fp (Int.bmod (m.memory.readNat operand 4) (2 ^ 32))
  | .stack => Address.move m.sp
      (stackBytes m.inputOperands + Int.bmod (m.memory.readNat operand 4) (2 ^ 32))

/-- Where an instruction that copies takes its bytes. -/
def copySource (m : Machine) : Nat :=
  match m.fetch.opcode with
  | .load base => m.pointedAt base
  | _ => m.inputAddresses.headD 0

/-- Where an instruction that copies puts its bytes, in this order. -/
def copyTargets (m : Machine) : List Nat :=
  match m.fetch.opcode with
  | .store base => [m.pointedAt base]
  | _ => m.outputAddresses

theorem copyTargets_store (hop : m.fetch.opcode = .store base) :
    m.copyTargets = [m.pointedAt base] := by
  rw [copyTargets, hop]

/-- The bytes that an instruction on lanes of a type copies. -/
def copied (m : Machine) (type : DataType) : Bytes :=
  m.memory.read m.copySource (type.size * m.fetch.width)

theorem distance_read (m : Machine) (address : Nat) :
    (LaneVector.ofBytes .i32 1 (m.memory.read address 4)).distance =
      Int.bmod (m.memory.readNat address 4) (2 ^ 32) := by
  have hlength : (m.memory.read address 4).length = 4 := m.memory.length_read _ _
  have hlane : (DataType.i32.decodeLane (m.memory.read address 4)).signed =
      Int.bmod (Bytes.toNat ((m.memory.read address 4).take 4)) (2 ^ 32) :=
    @DataType.integer_decodeLane .i32 trivial _
  rw [LaneVector.distance, LaneVector.lane_zero_ofBytes (Nat.le_refl 1), hlane,
    List.take_of_length_le (Nat.le_of_eq hlength)]
  rfl

/-- The machine takes the operand of a load or a store for the place that it points at. -/
theorem effectiveAddress_popped {operand : Nat} (hlast : m.inputAddresses.getLastD 0 = operand)
    (base : Base) (own : DataType) (width : Nat) (place : Place) :
    m.popped.effectiveAddress base
        (m.readInput ⟨⟨base.slot.resolveType own, base.slot.resolveWidth width⟩, place⟩
          operand).lanes =
      m.pointedAt base := by
  cases hlast
  cases base with
  | absolute => exact m.address_read _
  | frame =>
      rw [effectiveAddress, fp_popped]
      exact congrArg (Address.move m.fp) (m.distance_read _)
  | stack =>
      have hdistance := m.distance_read (m.inputAddresses.getLastD 0)
      change Address.move m.popped.sp (LaneVector.ofBytes .i32 1 (m.memory.read _ 4)).distance = _
      rw [hdistance, move_sp_popped]
      rfl

/-- What was read for an operand is written as the bytes at its address. -/
theorem encode_readInput (hfloat : type ≠ .f32) (width : Nat) (place : Place) (address : Nat) :
    (m.readInput ⟨⟨type, width⟩, place⟩ address).lanes.encode =
      m.memory.read address (type.size * width) :=
  @LaneVector.encode_decode ⟨type, width⟩ hfloat _ (m.memory.length_read _ _)

/-- An operand in a free slot has the type that the word names and the width of the word. -/
theorem shape_free {i : Instruction} {slot : Nat} (htype : i.typeAt slot = type) :
    i.shape slot .free = ⟨type, i.width⟩ := by
  rw [Instruction.shape, htype]
  rfl

theorem map_shape_outputOperands (m : Machine) : m.outputOperands.map Operand.shape =
    m.fetch.opcode.template.outputs.mapIdx fun index =>
      m.fetch.shape (m.fetch.opcode.template.inputs.length + index) :=
  map_shape_operandsFrom _ _ _ _ _

theorem outputAddresses_eq_singleton (hone : m.fetch.opcode.template.outputs.length = 1) :
    ∃ target, m.outputAddresses = [target] :=
  List.length_eq_one_iff.mp
    ((length_pushOutputs _ _).trans (m.length_outputOperands.trans hone))

theorem writeAll_performed_push (hempty : m.memory.mappings = []) (hop : m.fetch.opcode = .push)
    (hnames : m.fetch.Names type) (hfloat : type ≠ .f32) :
    m.performed.1.memory.writeAll
        (m.outputAddresses.zip (m.performed.2.map LaneVector.encode)) =
      m.memory.writeAll (m.copyTargets.map fun target => (target, m.copied type)) := by
  have hfirst : m.fetch.typeAt 0 = type := hnames.typeAt_eq (by rw [hop]; rfl) rfl
  have hsecond : m.fetch.typeAt 1 = type := hnames.typeAt_eq (by rw [hop]; rfl) rfl
  have hinputs : m.inputOperands =
      [⟨⟨type, m.fetch.width⟩, m.passed.place m.fetch m.pc 0⟩] := by
    rw [inputOperands, inputs, hop, ← shape_free hfirst]
    rfl
  have hshapes : m.outputOperands.map Operand.shape = [⟨type, m.fetch.width⟩] := by
    rw [map_shape_outputOperands, hop, ← shape_free hsecond]
    rfl
  obtain ⟨source, hsource⟩ := List.length_eq_one_iff.mp
    (m.length_inputAddresses.trans (congrArg List.length hinputs))
  obtain ⟨target, htarget⟩ := outputAddresses_eq_singleton (m := m) (by rw [hop]; rfl)
  have hcopy := @LaneVector.encode_copy ⟨type, m.fetch.width⟩ hfloat _
    (m.memory.length_read source (type.size * m.fetch.width))
  have hperformed : m.performed = (m.popped, [((⟨type, m.fetch.width⟩ : Shape).decode
      (m.memory.read source (type.size * m.fetch.width))).mapInto ⟨type, m.fetch.width⟩
        fun _ cell => cell]) := by
    rw [performed_eq hempty, hop, hinputs, hshapes, hsource]
    rfl
  rw [hperformed, htarget, copyTargets, copied, copySource, hop, hsource, htarget,
    memory_popped hempty]
  exact congrArg (fun bytes => m.memory.write target bytes) hcopy

theorem writeAll_performed_dup (hempty : m.memory.mappings = []) (hop : m.fetch.opcode = .dup)
    (hnames : m.fetch.Names type) (hfloat : type ≠ .f32) :
    m.performed.1.memory.writeAll
        (m.outputAddresses.zip (m.performed.2.map LaneVector.encode)) =
      m.memory.writeAll (m.copyTargets.map fun target => (target, m.copied type)) := by
  have hfirst : m.fetch.typeAt 0 = type := hnames.typeAt_eq (by rw [hop]; rfl) rfl
  have hsecond : m.fetch.typeAt 1 = type := hnames.typeAt_eq (by rw [hop]; rfl) rfl
  have hthird : m.fetch.typeAt 2 = type := hnames.typeAt_eq (by rw [hop]; rfl) rfl
  let shape : Shape := ⟨type, m.fetch.width⟩
  have hinputs : m.inputOperands = [⟨shape, m.passed.place m.fetch m.pc 0⟩] := by
    rw [inputOperands, inputs, hop]
    exact congrArg (fun shape => [Operand.mk shape _]) (shape_free hfirst)
  have hshapes : m.outputOperands.map Operand.shape = [shape, shape] := by
    rw [map_shape_outputOperands, hop]
    exact congrArg₂ (fun first second => [first, second]) (shape_free hsecond) (shape_free hthird)
  obtain ⟨source, hsource⟩ := List.length_eq_one_iff.mp
    (m.length_inputAddresses.trans (congrArg List.length hinputs))
  have hcount : m.outputAddresses.length = 2 := by
    rw [outputAddresses, length_pushOutputs, length_outputOperands, hop]
    rfl
  obtain ⟨first, second, htargets⟩ := List.length_eq_two.mp hcount
  let bytes := m.memory.read source shape.byteLength
  have hcopy : (shape.decode bytes).encode = bytes :=
    LaneVector.encode_decode hfloat (m.memory.length_read source _)
  have hperformed : m.performed = (m.popped, [shape.decode bytes, shape.decode bytes]) := by
    have hmapped := LaneVector.mapInto_copy shape bytes
    rw [performed_eq hempty, hop, hinputs, hshapes, hsource]
    change (m.popped, [(shape.decode bytes).mapInto shape fun _ cell => cell,
      ((shape.decode bytes).mapInto shape fun _ cell => cell).mapInto shape fun _ cell => cell]) = _
    rw [hmapped, hmapped]
  rw [hperformed, copyTargets, copied, copySource, hop, htargets, hsource, memory_popped hempty]
  simp only [List.map_cons, hcopy]
  rfl

theorem writeAll_performed_load (hempty : m.memory.mappings = [])
    (hop : m.fetch.opcode = .load base) (hnames : m.fetch.Names type) (hfloat : type ≠ .f32) :
    m.performed.1.memory.writeAll
        (m.outputAddresses.zip (m.performed.2.map LaneVector.encode)) =
      m.memory.writeAll (m.copyTargets.map fun target => (target, m.copied type)) := by
  have htemplate : m.fetch.opcode.template = ⟨[base.slot], [.free]⟩ := by
    rw [hop, Opcode.template_load]
  have hsecond : m.fetch.typeAt 1 = type := hnames.typeAt_eq (by rw [htemplate]; rfl) rfl
  have hinputs : m.inputOperands = [⟨⟨base.slot.resolveType (m.fetch.typeAt 0),
      base.slot.resolveWidth m.fetch.width⟩, m.passed.place m.fetch m.pc 0⟩] := by
    rw [inputOperands, inputs, htemplate]
    rfl
  have hshapes : m.outputOperands.map Operand.shape = [⟨type, m.fetch.width⟩] := by
    rw [map_shape_outputOperands, htemplate, ← shape_free hsecond]
    rfl
  obtain ⟨operand, hoperand⟩ := List.length_eq_one_iff.mp
    (m.length_inputAddresses.trans (congrArg List.length hinputs))
  obtain ⟨target, htarget⟩ := outputAddresses_eq_singleton (m := m) (by rw [htemplate]; rfl)
  have hlast : m.inputAddresses.getLastD 0 = operand := by
    rw [hoperand]
    rfl
  have hplace := effectiveAddress_popped hlast base (m.fetch.typeAt 0)
    m.fetch.width (m.passed.place m.fetch m.pc 0)
  have hmappings : m.popped.memory.mappings = [] := by rw [memory_popped hempty, hempty]
  have hperformed : m.performed = (m.popped, [.ofBytes type m.fetch.width
      (m.memory.read (m.pointedAt base) (type.size * m.fetch.width))]) := by
    rw [performed_eq hempty, hop, hinputs, hshapes, hoperand, ← hplace, ← memory_popped hempty]
    exact congrArg (Prod.mk · _) (afterRead_eq_self hmappings _ _)
  have hcopy := @LaneVector.encode_decode ⟨type, m.fetch.width⟩ hfloat _
    (m.memory.length_read (m.pointedAt base) (type.size * m.fetch.width))
  rw [hperformed, htarget, copyTargets, copied, copySource, hop, htarget, memory_popped hempty]
  exact congrArg (fun bytes => m.memory.write target bytes) hcopy

theorem writeAll_performed_store (hempty : m.memory.mappings = [])
    (hop : m.fetch.opcode = .store base) (hnames : m.fetch.Names type) (hfloat : type ≠ .f32) :
    m.performed.1.memory.writeAll
        (m.outputAddresses.zip (m.performed.2.map LaneVector.encode)) =
      m.memory.writeAll (m.copyTargets.map fun target => (target, m.copied type)) := by
  have htemplate : m.fetch.opcode.template = ⟨[.free, base.slot], []⟩ := by
    rw [hop, Opcode.template_store]
  have hfirst : m.fetch.typeAt 0 = type := hnames.typeAt_eq (by rw [htemplate]; rfl) rfl
  have hinputs : m.inputOperands = [⟨⟨type, m.fetch.width⟩, m.passed.place m.fetch m.pc 0⟩,
      ⟨⟨base.slot.resolveType (m.fetch.typeAt 1), base.slot.resolveWidth m.fetch.width⟩,
        (m.passed.afterPlace m.fetch m.pc 0).place m.fetch m.pc 1⟩] := by
    rw [inputOperands, inputs, htemplate, ← shape_free hfirst]
    rfl
  have hnone : m.outputAddresses = [] := by
    rw [← List.length_eq_zero_iff, outputAddresses, length_pushOutputs, length_outputOperands,
      htemplate]
    rfl
  obtain ⟨source, operand, hoperands⟩ := List.length_eq_two.mp
    (m.length_inputAddresses.trans (congrArg List.length hinputs))
  have hlast : m.inputAddresses.getLastD 0 = operand := by
    rw [hoperands]
    rfl
  have hplace := effectiveAddress_popped hlast base (m.fetch.typeAt 1) m.fetch.width
    ((m.passed.afterPlace m.fetch m.pc 0).place m.fetch m.pc 1)
  have hcopy := m.encode_readInput hfloat m.fetch.width (m.passed.place m.fetch m.pc 0) source
  have hperformed : m.performed = ({ m.popped with
      memory := m.popped.memory.write (m.pointedAt base)
        (m.memory.read source (type.size * m.fetch.width)) }, []) := by
    rw [performed_eq hempty, hop, hinputs, hoperands, ← hplace, ← hcopy]
    rfl
  rw [hperformed, hnone, copyTargets, copied, copySource, hop, hoperands, memory_popped hempty]
  rfl

/-- The operation and the outputs of a copy write the bytes that are copied. -/
theorem writeAll_performed (hempty : m.memory.mappings = []) (hcopies : m.fetch.opcode.Copies)
    (hnames : m.fetch.Names type) (hfloat : type ≠ .f32) :
    m.performed.1.memory.writeAll
        (m.outputAddresses.zip (m.performed.2.map LaneVector.encode)) =
      m.memory.writeAll (m.copyTargets.map fun target => (target, m.copied type)) := by
  cases hop : m.fetch.opcode with
  | push => exact writeAll_performed_push hempty hop hnames hfloat
  | dup => exact writeAll_performed_dup hempty hop hnames hfloat
  | load base => exact writeAll_performed_load hempty hop hnames hfloat
  | store base => exact writeAll_performed_store hempty hop hnames hfloat
  | _ =>
      rw [hop] at hcopies
      exact hcopies.elim

/-- What a machine becomes by steps that map no device and write nothing in a span. -/
inductive Spares (span : Span) : Machine → Machine → Prop
  | refl (m : Machine) : Spares span m m
  | step {m later : Machine} (hdevice : m.step.1 ≠ .executed .mapDevice)
      (hapart : ∀ op, m.step.1 = .executed op → ∀ written ∈ m.writtenSpans, span.Apart written)
      (hrest : Spares span m.step.2 later) : Spares span m later

/-- A step keeps the bytes that it does not write. -/
theorem read_step (hplain : m.memory.Plain) (hdevice : m.step.1 ≠ .executed .mapDevice)
    (hapart : ∀ op, m.step.1 = .executed op → ∀ written ∈ m.writtenSpans, span.Apart written) :
    m.step.2.memory.Plain ∧ m.step.2.memory.read span.address span.length =
      m.memory.read span.address span.length := by
  have hstepped := m.stepped_step
  generalize m.step.1 = outcome, m.step.2 = after at hstepped hdevice hapart
  cases hstepped with
  | halted | sleeping => exact ⟨hplain, rfl⟩
  | skipped =>
      rw [located_eq hplain.mappings_eq]
      exact ⟨hplain, rfl⟩
  | executed =>
      have hop : m.fetch.opcode ≠ .mapDevice := fun heq => hdevice (by rw [heq])
      have hkept := keptOutside_writeOutputs hplain
      have hafter : (m.performed.1.writeOutputs m.outputOperands m.performed.2).memory.Plain := by
        rw [writeOutputs_performed]
        exact (plain_performed hplain hop).writeAll _
      exact ⟨hafter, Memory.read_kept hplain hafter hkept (hapart _ rfl)⟩

theorem Spares.read_eq (hspares : Spares span m later) (hplain : m.memory.Plain) :
    later.memory.Plain ∧ later.memory.read span.address span.length =
      m.memory.read span.address span.length := by
  induction hspares with
  | refl => exact ⟨hplain, rfl⟩
  | step hdevice hapart hrest ih =>
      obtain ⟨hafter, hread⟩ := read_step hplain hdevice hapart
      obtain ⟨hlater, hrun⟩ := ih hafter
      exact ⟨hlater, hrun.trans hread⟩

/-- A copy is executed, and memory is behind it as it was but for the copied bytes. -/
theorem step_eq_copy (hempty : m.memory.mappings = []) (hsleep : m.sleep = 0)
    (hcopies : m.fetch.opcode.Copies) (hnames : m.fetch.Names type)
    (hsupported : type ≠ .unsupported) (hfloat : type ≠ .f32) :
    m.step.1 = .executed m.fetch.opcode ∧ m.step.2.memory =
      m.memory.writeAll (m.copyTargets.map fun target => (target, m.copied type)) := by
  have hwell := hnames.not_isMalformed hcopies hsupported
  have hwritten := writeAll_performed hempty hcopies hnames hfloat
  rw [step_eq_ite_isMalformed hsleep, if_neg hwell, writeOutputs_performed]
  exact ⟨rfl, hwritten⟩

/-- What is copied fits in memory, as every value does. -/
theorem length_copied_le (m : Machine) (type : DataType) : (m.copied type).length ≤ space := by
  have hsize : type.size ≤ 8 := by cases type <;> decide
  have hbytes := Nat.mul_le_mul hsize m.fetch_fits.width_le
  rw [copied, Memory.length_read]
  exact hbytes.trans (by decide)

/-- Instructions that copy lanes of a type, single floats apart, copy all their bytes. They change
memory only where they put them, and every place has the bytes that the source had before, unless a
later one overlaps it. A load behind a store finds the bytes that were stored, if it takes place at
the same address and nothing was written there in between. -/
theorem step_copies (hplain : m.memory.Plain) (hsleep : m.sleep = 0)
    (hcopies : m.fetch.opcode.Copies) (hnames : m.fetch.Names type)
    (hsupported : type ≠ .unsupported) (hfloat : type ≠ .f32) :
    m.step.1 = .executed m.fetch.opcode ∧
      m.step.2.memory =
        m.memory.writeAll (m.copyTargets.map fun target => (target, m.copied type)) ∧
      (∀ target rest, target :: rest <:+ m.copyTargets →
        (∀ other ∈ rest, Span.Apart ⟨target, (m.copied type).length⟩
          ⟨other, (m.copied type).length⟩) →
        m.step.2.memory.read target (m.copied type).length = m.copied type) ∧
      ∀ base, m.fetch.opcode = .store base → ∀ later base' type',
        Spares ⟨m.pointedAt base, (m.copied type).length⟩ m.step.2 later →
        later.sleep = 0 → later.fetch.opcode = .load base' → later.fetch.Names type' →
        type' ≠ .unsupported → type' ≠ .f32 →
        type'.size * later.fetch.width = (m.copied type).length →
        later.pointedAt base' = m.pointedAt base →
        later.step.1 = .executed (.load base') ∧ ∃ target, later.outputAddresses = [target] ∧
          later.step.2.memory.read target (m.copied type).length = m.copied type := by
  obtain ⟨hexecuted, hmemory⟩ :=
    step_eq_copy hplain.mappings_eq hsleep hcopies hnames hsupported hfloat
  have hlength := m.length_copied_le type
  have harrives : ∀ target rest, target :: rest <:+ m.copyTargets →
      (∀ other ∈ rest, Span.Apart ⟨target, (m.copied type).length⟩
        ⟨other, (m.copied type).length⟩) →
      m.step.2.memory.read target (m.copied type).length = m.copied type := by
    intro target rest hsuffix hapart
    rw [hmemory]
    exact hplain.read_writeAll hlength hsuffix hapart
  refine ⟨hexecuted, hmemory, harrives, ?_⟩
  intro base hop later base' type' hspares hawake hload hnames' hsupported' hfloat' hbytes hplace
  have hstored := copyTargets_store hop
  have hafter : m.step.2.memory.Plain := by
    rw [hmemory]
    exact hplain.writeAll _
  obtain ⟨hlater, hkept⟩ := hspares.read_eq hafter
  have hthere := harrives (m.pointedAt base) [] (hstored ▸ List.suffix_rfl) (by simp)
  have hfound : later.copied type' = m.copied type := by
    rw [copied, hbytes, copySource, hload]
    dsimp only
    rw [hplace, hkept, hthere]
  have hcopies' : later.fetch.opcode.Copies := by
    rw [hload]
    trivial
  obtain ⟨hexecuted', hmemory'⟩ :=
    step_eq_copy hlater.mappings_eq hawake hcopies' hnames' hsupported' hfloat'
  obtain ⟨target, htarget⟩ := outputAddresses_eq_singleton (m := later) (by
    rw [hload, Opcode.template_load]
    rfl)
  have htargets : later.copyTargets = [target] := by rw [copyTargets, hload, htarget]
  refine ⟨hexecuted'.trans (by rw [hload]), target, htarget, ?_⟩
  rw [hmemory', htargets, hfound]
  exact hlater.read_write target hlength

/-- An address that is popped from the stack, stored around the end of memory and loaded from there
as three lanes of one byte. -/
theorem step_copies_around :
    let m : Machine := { Machine.new ⟨0x40, 0x50, 0xfffffb⟩ default with
      memory := (((Memory.ofRam .full).write 0x40
        (Bytes.ofWord 8 (Instruction.encode ⟨.store .stack, 1, 1, (.p24, .u8, .u8), 2, 0⟩) ++
          [0x60, 0, 0] ++
          Bytes.ofWord 8 (Instruction.encode ⟨.load .absolute, 3, 2, (.u8, .u8, .u8), 3, 1⟩) ++
          [0xff, 0xff, 0xff, 0, 1, 0])).write 0x60 [1, 0, 0, 0]).write 0xfffffb [1, 2, 0xff] }
    (m.memory.Plain ∧ m.sleep = 0 ∧ m.fetch.opcode = .store .stack ∧ m.fetch.Names .p24 ∧
      m.pointedAt .stack = 0xffffff ∧ m.copied .p24 = [1, 2, 0xff]) ∧
      m.step.1 = .executed (.store .stack) ∧
      m.step.2.memory.read 0xffffff 3 = [1, 2, 0xff] ∧
      m.step.2.step.1 = .executed (.load .absolute) ∧
      m.step.2.step.2.memory.read 0x100 3 = [1, 2, 0xff] := by
  intro m
  have hbefore := (Memory.plain_full.write 0x40
    (Bytes.ofWord 8 (Instruction.encode ⟨.store .stack, 1, 1, (.p24, .u8, .u8), 2, 0⟩) ++
      [0x60, 0, 0] ++
      Bytes.ofWord 8 (Instruction.encode ⟨.load .absolute, 3, 2, (.u8, .u8, .u8), 3, 1⟩) ++
      [0xff, 0xff, 0xff, 0, 1, 0])).write 0x60 [1, 0, 0, 0]
  have hplain : m.memory.Plain := hbefore.write 0xfffffb [1, 2, 0xff]
  have hm : m.sleep = 0 ∧ m.fetch.opcode = .store .stack ∧ m.fetch.Names .p24 ∧
      m.pointedAt .stack = 0xffffff ∧ m.copySource = 0xfffffb ∧ m.fetch.width = 1 := by
    decide +kernel
  have hpopped : m.memory.read 0xfffffb 3 = [1, 2, 0xff] :=
    (Memory.holds_write hbefore (by decide)).read_eq hplain
  have hlater : m.step.2.sleep = 0 ∧ m.step.2.fetch.opcode = .load .absolute ∧
      m.step.2.fetch.Names .u8 ∧ m.step.2.fetch.width = 3 ∧
      m.step.2.pointedAt .absolute = 0xffffff ∧ m.step.2.outputAddresses = [0x100] := by
    decide +kernel
  clear_value m
  obtain ⟨hsleep, hop, hnames, hplace, hsource, hone⟩ := hm
  have hcopied : m.copied .p24 = [1, 2, 0xff] := by
    rw [copied, hsource, hone]
    exact hpopped
  obtain ⟨hawake, hload, hnames', hwidth, hplace', houtput⟩ := hlater
  have hcopies : m.fetch.opcode.Copies := by
    rw [hop]
    trivial
  obtain ⟨hexecuted, -, harrives, hback⟩ :=
    step_copies hplain hsleep hcopies hnames (by decide) (by decide)
  have hstored := copyTargets_store hop
  rw [hplace] at hstored
  obtain ⟨hexecuted', target, htarget, hfound⟩ := hback .stack hop m.step.2 .absolute .u8 (.refl _)
    hawake hload hnames' (by decide) (by decide) (by rw [hwidth, hcopied]; rfl)
    (hplace'.trans hplace.symm)
  cases houtput.symm.trans htarget
  rw [hcopied] at harrives hfound
  exact ⟨⟨hplain, hsleep, hop, hnames, hplace, hcopied⟩, hexecuted.trans (by rw [hop]),
    harrives 0xffffff [] (hstored ▸ List.suffix_rfl) (by simp), hexecuted', hfound⟩

end Machine

end VectorStack
