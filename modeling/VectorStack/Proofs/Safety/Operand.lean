import VectorStack.Machine.Operand
import VectorStack.Proofs.Layout.Requests
import VectorStack.Proofs.Safety.Memory
import VectorStack.Proofs.Safety.Operation
/-!
Fetching an instruction and its operands with guards. Every field of a word is inside the word, all
three slots have their place in the tables, also those that the operation does not use, and an
operand fits the buffer that it goes through.
-/

namespace VectorStack

open Address (space wrap)
open Instruction (maxWidth)

namespace Instruction

/-- Where a field of a word starts. -/
def fieldOffset (index : Nat) : Nat := ((fieldSizes.take index).map Nat.log2).sum

/-- Decode a word: shift it to every field, and count the lanes from one. -/
def guardedDecode (word : UInt64) : Guarded Instruction := do
  let _ ← (List.range fieldSizes.length).mapM fun index => Guard.shift 64 (fieldOffset index)
  let i := decode word
  let _ ← Guard.unsigned 8 (i.width : Int)
  pure i

def guardedSize (i : Instruction) : Guarded Nat :=
  Guard.unsigned 64 ((wordBytes + i.immediateCount * Address.byteCount : Nat) : Int)

theorem guardedDecode_eq (word : UInt64) : guardedDecode word = .ok (decode word) := by
  have hoffsets : (List.range fieldSizes.length).mapM
      (fun index => Guard.shift 64 (fieldOffset index)) =
        .ok ((List.range fieldSizes.length).map fieldOffset) := by
    apply Guarded.mapM_eq
    decide
  have hwidth : (decode word).width < 2 ^ 8 :=
    Nat.lt_of_le_of_lt (decode_fits word).width_le (by decide)
  rw [guardedDecode, hoffsets, Guarded.ok_bind]
  simp only [Guard.unsigned_eq hwidth]
  rfl

theorem Fits.guardedSize_eq {i : Instruction} (hfits : i.Fits) : i.guardedSize = .ok i.size := by
  have hcount := hfits.immediateCount_lt
  apply Guard.unsigned_eq
  unfold wordBytes Address.byteCount
  omega

/-- How many places are found from a slot on before a slot without a meaning ends it. -/
def locatedFrom (i : Instruction) (slot count : Nat) (slots : List Slot) : Nat :=
  match (slots.mapIdx fun index => i.shape (slot + index)).findIdx?
    fun shape => !shape.type.isSupported with
  | some index => index + 1
  | none => count

variable {i : Instruction} {slot : Nat} {template : Slot}

theorem locatedFrom_cons_of_isSupported
    (hsupported : (i.shape slot template).type.isSupported = true) (count : Nat)
    (rest : List Slot) :
    i.locatedFrom slot (count + 1) (template :: rest) =
      i.locatedFrom (slot + 1) count rest + 1 := by
  have hshift : (fun index => i.shape (slot + (index + 1))) =
      fun index => i.shape (slot + 1 + index) := by
    funext index
    rw [Nat.add_right_comm, Nat.add_assoc]
  rw [locatedFrom, locatedFrom, List.mapIdx_cons, List.findIdx?_cons, Nat.add_zero, hsupported,
    hshift]
  simp only [Bool.not_true, Bool.false_eq_true, if_false]
  cases (rest.mapIdx fun index => i.shape (slot + 1 + index)).findIdx? _ <;> rfl

theorem locatedFrom_cons_of_not_isSupported
    (hnot : ¬ (i.shape slot template).type.isSupported = true) (count : Nat) (rest : List Slot) :
    i.locatedFrom slot count (template :: rest) = 1 := by
  rw [locatedFrom, List.mapIdx_cons, List.findIdx?_cons, Nat.add_zero, Bool.eq_false_iff.mpr hnot]
  rfl

/-- These are the places that are found for an instruction. -/
theorem locatedSlots_eq (hop : i.opcode ≠ .invalid) :
    i.locatedSlots = i.locatedFrom 0 Template.maxOperands i.opcode.template.slots := by
  have hshape : (fun index => i.shape (0 + index)) = fun index => i.shape index := by
    funext index
    rw [Nat.zero_add]
  rw [locatedFrom, hshape]
  exact if_neg hop

end Instruction

/-- Bytes that an operand takes in memory and in the buffer. -/
def Shape.guardedByteLength (shape : Shape) : Guarded Nat := do
  let length ← Guard.unsigned 64 ((shape.type.size * shape.width : Nat) : Int)
  Guard.part operandBytes length

theorem Shape.Fits.byteLength_le {shape : Shape} (hfits : shape.Fits) :
    shape.byteLength ≤ operandBytes := by
  rw [byteLength, Nat.mul_comm]
  exact Nat.mul_le_mul hfits.width_le shape.type.size_le

theorem Shape.Fits.guardedByteLength_eq {shape : Shape} (hfits : shape.Fits) :
    shape.guardedByteLength = .ok shape.byteLength := by
  have hle := hfits.byteLength_le
  have hbytes : operandBytes = 64 := rfl
  have hlt : shape.type.size * shape.width < 2 ^ 64 := by
    rw [byteLength] at hle
    omega
  rw [guardedByteLength, Guard.unsigned_eq hlt, Guarded.ok_bind]
  exact Guard.part_eq hle

namespace Machine

/-- Read some of the eight bytes of a word, and keep the machine after that. -/
def guardedReadNat (m : Machine) (address count : Nat) : Guarded (Nat × Machine) := do
  let (n, memory) ← m.memory.guardedReadNat address count
  pure (n, { m with memory })

def guardedRead (m : Machine) (address count : Nat) : Guarded (Bytes × Machine) := do
  let (bytes, memory) ← m.memory.guardedRead address count
  pure (bytes, { m with memory })

/-- Place of the operand in a slot: two flags of eight bits, and an address in memory. -/
def guardedPlace (m : Machine) (i : Instruction) (start slot : Nat) :
    Guarded (Place × Machine) := do
  let flag ← Guard.shift 8 slot
  if i.isImmediate flag then
    let field := i.addressField start slot
    let flag ← Guard.shift 8 slot
    if i.isInlined flag then pure (.memory field, m)
    else
      let (address, m) ← m.guardedReadNat field Address.byteCount
      pure (.memory (wrap address), m)
  else pure (.stack, m)

/-- Operands for the slots from one on, none if one of them has no meaning, and the machine after
they were found. The addresses of slots that the operation does not use are read, too. -/
def guardedOperandsFrom (m : Machine) (i : Instruction) (start : Nat) :
    (slot count : Nat) → List Slot → Guarded (Option (List Operand) × Machine)
  | _, 0, [] => pure (some [], m)
  | _, 0, _ :: _ => throw .bounds
  | slot, count + 1, slots => do
    let slot ← Guard.index Template.maxOperands slot
    let (place, m) ← m.guardedPlace i start slot
    match slots with
    | [] => m.guardedOperandsFrom i start (slot + 1) count []
    | template :: rest =>
      let shape := i.shape slot template
      if shape.type.isSupported then
        let (others, m) ← m.guardedOperandsFrom i start (slot + 1) count rest
        pure (others.map (⟨shape, place⟩ :: ·), m)
      else pure (none, m)

/-- Operands of an instruction, none if it cannot run, and the machine after they were found. -/
def guardedOperands (m : Machine) (i : Instruction) (start : Nat) :
    Guarded (Option (List Operand) × Machine) :=
  if i.opcode = .invalid then pure (none, m)
  else do
    let _ ← Guard.unsigned 8 (i.opcode.template.size : Int)
    m.guardedOperandsFrom i start 0 Template.maxOperands i.opcode.template.slots

/-- Pop the inputs that are on the stack, the last one first. -/
def guardedPopInputs (sp : Nat) : List Operand → Guarded (Nat × List Nat)
  | [] => pure (sp, [])
  | operand :: rest => do
    let (sp, addresses) ← guardedPopInputs sp rest
    match operand.place with
    | .stack =>
      let length ← operand.shape.guardedByteLength
      pure (Address.move sp length, sp :: addresses)
    | .memory address => pure (sp, address :: addresses)

def guardedReadInput (m : Machine) (operand : Operand) (address : Nat) :
    Guarded (Input × Machine) := do
  let length ← operand.shape.guardedByteLength
  let (bytes, m) ← m.guardedRead address length
  let lanes ← LaneVector.guardedOfBytes operand.shape.type operand.shape.width bytes
  pure (⟨address, lanes⟩, m)

/-- Read the inputs at their addresses, of which there is one for each. -/
def guardedReadInputs (m : Machine) :
    List Operand → List Nat → Guarded (List Input × Machine)
  | [], [] => pure ([], m)
  | operand :: operands, address :: addresses => do
    let (input, m) ← m.guardedReadInput operand address
    let (inputs, m) ← m.guardedReadInputs operands addresses
    pure (input :: inputs, m)
  | _, _ => throw .bounds

def guardedWriteOutput (m : Machine) (operand : Operand) (lanes : LaneVector) :
    Guarded Machine := do
  let length ← operand.shape.guardedByteLength
  match operand.place with
  | .stack =>
    let distance ← Guard.signed 63 (-(length : Int))
    let sp := Address.move m.sp distance
    let bytes ← lanes.guardedEncode
    let memory ← m.memory.guardedWrite sp bytes
    pure { m.withSp sp with memory }
  | .memory address =>
    let bytes ← lanes.guardedEncode
    let memory ← m.memory.guardedWrite address bytes
    pure { m with memory }

/-- Write the outputs, of which there is one for each operand. -/
def guardedWriteOutputs (m : Machine) : List Operand → List LaneVector → Guarded Machine
  | [], [] => pure m
  | operand :: operands, lanes :: rest => do
    let m ← m.guardedWriteOutput operand lanes
    m.guardedWriteOutputs operands rest
  | _, _ => throw .bounds

/-- Addresses in the address space have 32 bits. -/
theorem lt_of_lt_space {address : Nat} (hlt : address < space) : address < 2 ^ 32 :=
  Nat.lt_trans hlt (by decide)

/-- The bytes of an operand lie at numbers of 64 bits. -/
theorem add_le_of_le_operandBytes {address length : Nat} (hlt : address < 2 ^ 32)
    (hle : length ≤ operandBytes) : address + length ≤ 2 ^ 64 := by
  have hbytes : operandBytes = 64 := rfl
  omega

/-- Operands that can be read and written: they fit the buffer, and lie in the address space. -/
structure FitsOperand (operand : Operand) : Prop where
  shape : operand.shape.Fits
  address_lt : ∀ address, operand.place = .memory address → address < space

variable {m : Machine} {i : Instruction} {start slot : Nat}

theorem place_lt {address : Nat} (hplace : m.place i start slot = .memory address) :
    address < space := by
  unfold place at hplace
  split at hplace
  · simp only at hplace
    split at hplace
    · cases hplace
      exact Address.move_lt _ _
    · cases hplace
      exact Address.wrap_lt _
  · cases hplace

theorem guardedReadNat_eq (hsound : m.memory.Sound) {address count : Nat}
    (hlt : address < 2 ^ 32) (hcount : count ≤ 8) :
    m.guardedReadNat address count =
      .ok (m.memory.readNat address count, m.afterRead address count) := by
  rw [guardedReadNat, hsound.guardedReadNat_eq hlt hcount]
  rfl

theorem guardedRead_eq (hsound : m.memory.Sound) {address count : Nat}
    (hlt : address + count ≤ 2 ^ 64) :
    m.guardedRead address count =
      .ok (m.memory.read address count, m.afterRead address count) := by
  rw [guardedRead, hsound.guardedRead_eq hlt]
  rfl

theorem guardedPlace_eq (m : Machine) (i : Instruction) (start : Nat) (hsound : m.memory.Sound)
    (hslot : slot < 8) :
    m.guardedPlace i start slot = .ok (m.place i start slot, m.afterPlace i start slot) := by
  have hfield : i.addressField start slot < 2 ^ 32 := lt_of_lt_space (Address.move_lt _ _)
  have hread := guardedReadNat_eq hsound hfield (by decide : Address.byteCount ≤ 8)
  rw [guardedPlace, place, afterPlace, Guard.shift_eq hslot, Guarded.ok_bind]
  cases himmediate : i.isImmediate slot with
  | false => rfl
  | true =>
      simp only [if_true, Guarded.ok_bind, hread, Bool.true_and]
      cases i.isInlined slot <;> rfl

/-- The operands are found in all three slots, of which the first are those of the operation. -/
theorem guardedOperandsFrom_eq (hsound : m.memory.Sound) {count : Nat} {slots : List Slot}
    (hslots : slots.length ≤ count) (hcount : slot + count ≤ Template.maxOperands) :
    m.guardedOperandsFrom i start slot count slots =
      .ok (if (m.operandsFrom i start slot slots).all fun operand => operand.shape.type.isSupported
        then some (m.operandsFrom i start slot slots) else none,
        m.afterPlaces i start slot (i.locatedFrom slot count slots)) := by
  have hmax : Template.maxOperands = 3 := rfl
  induction count generalizing m slot slots with
  | zero =>
      rw [List.length_eq_zero_iff.mp (Nat.le_zero.mp hslots)]
      rfl
  | succ count ih =>
      have hplace := m.guardedPlace_eq i start hsound (by omega : slot < 8)
      have hindex : Guard.index Template.maxOperands slot = .ok slot := Guard.index_eq (by omega)
      have hnext : (m.afterPlace i start slot).memory.Sound :=
        hsound.observed (m.observed_afterPlace i start slot).memory
      cases slots with
      | nil =>
          rw [guardedOperandsFrom, hindex, Guarded.ok_bind, hplace, Guarded.ok_bind]
          exact ih hnext (Nat.zero_le count) (by omega)
      | cons template rest =>
          have hrest := ih hnext (Nat.le_of_succ_le_succ hslots) (by omega : slot + 1 + count ≤ _)
          rw [guardedOperandsFrom, hindex, Guarded.ok_bind, hplace, Guarded.ok_bind]
          simp only [hrest, Guarded.ok_bind, operandsFrom, List.all_cons]
          by_cases hsupported : (i.shape slot template).type.isSupported = true
          · rw [Instruction.locatedFrom_cons_of_isSupported hsupported]
            simp only [hsupported, if_true, Bool.true_and]
            split <;> rfl
          · rw [Instruction.locatedFrom_cons_of_not_isSupported hsupported]
            simp only [hsupported, Bool.false_and]
            rfl

theorem fits_shape {op : Opcode} {template : Slot} (hmem : template ∈ op.template.slots)
    (hfits : i.Fits) : (i.shape slot template).Fits := by
  obtain ⟨hpos, hle⟩ := Slot.resolveWidth_bounds hmem hfits.width_pos hfits.width_le
  exact ⟨hpos, hle⟩

theorem fitsOperand_of_mem {op : Opcode} (hfits : i.Fits) {slots : List Slot}
    (hslots : ∀ template ∈ slots, template ∈ op.template.slots) :
    ∀ operand ∈ m.operandsFrom i start slot slots, FitsOperand operand := by
  induction slots generalizing m slot with
  | nil => simp [operandsFrom]
  | cons template rest ih =>
      intro operand hmem
      rcases List.mem_cons.mp hmem with rfl | hmem
      · exact ⟨fits_shape (hslots template List.mem_cons_self) hfits, fun _ => place_lt⟩
      · exact ih (fun other hother => hslots other (List.mem_cons_of_mem _ hother)) operand hmem

theorem guardedPopInputs_eq (sp : Nat) {operands : List Operand}
    (hfits : ∀ operand ∈ operands, FitsOperand operand) :
    guardedPopInputs sp operands = .ok (popInputs sp operands) := by
  induction operands with
  | nil => rfl
  | cons operand rest ih =>
      have hlength := (hfits operand List.mem_cons_self).shape.guardedByteLength_eq
      rw [guardedPopInputs, ih fun other hmem => hfits other (List.mem_cons_of_mem _ hmem),
        Guarded.ok_bind, popInputs]
      cases operand.place with
      | stack => simp only [hlength, Guarded.ok_bind, Guarded.pure_eq]
      | memory address => rfl

/-- Inputs lie at addresses of 32 bits, and the stack pointer stays one. -/
theorem popInputs_lt {sp : Nat} (hsp : sp < 2 ^ 32) {operands : List Operand}
    (hfits : ∀ operand ∈ operands, FitsOperand operand) :
    (popInputs sp operands).1 < 2 ^ 32 ∧
      ∀ address ∈ (popInputs sp operands).2, address < 2 ^ 32 := by
  induction operands with
  | nil => exact ⟨hsp, by simp [popInputs]⟩
  | cons operand rest ih =>
      obtain ⟨hrest, haddresses⟩ := ih fun other hmem => hfits other (List.mem_cons_of_mem _ hmem)
      have hplace := (hfits operand List.mem_cons_self).address_lt
      rw [popInputs]
      cases hoperand : operand.place with
      | stack =>
          simp only
          refine ⟨lt_of_lt_space (Address.move_lt _ _), ?_⟩
          intro address hmem
          rcases List.mem_cons.mp hmem with rfl | hmem
          · exact hrest
          · exact haddresses address hmem
      | memory place =>
          refine ⟨hrest, ?_⟩
          intro address hmem
          rcases List.mem_cons.mp hmem with rfl | hmem
          · exact lt_of_lt_space (hplace _ hoperand)
          · exact haddresses address hmem

theorem guardedReadInput_eq (hsound : m.memory.Sound) {operand : Operand}
    (hfits : operand.shape.Fits) {address : Nat} (hlt : address < 2 ^ 32) :
    m.guardedReadInput operand address =
      .ok (m.readInput operand address, m.afterRead address operand.shape.byteLength) := by
  have hread := guardedRead_eq hsound (add_le_of_le_operandBytes hlt hfits.byteLength_le)
  simp only [guardedReadInput, hfits.guardedByteLength_eq, Guarded.ok_bind, hread,
    LaneVector.guardedOfBytes_eq _ _ hfits.width_le]
  rfl

theorem guardedReadInputs_eq (hsound : m.memory.Sound) {operands : List Operand}
    (hfits : ∀ operand ∈ operands, FitsOperand operand) {addresses : List Nat}
    (hlength : addresses.length = operands.length) (hlt : ∀ address ∈ addresses, address < 2 ^ 32) :
    m.guardedReadInputs operands addresses =
      .ok (m.readInputs operands addresses, m.afterInputs operands addresses) := by
  induction operands generalizing m addresses with
  | nil =>
      rw [List.length_eq_zero_iff.mp hlength]
      rfl
  | cons operand rest ih =>
      obtain ⟨address, others, rfl⟩ := List.exists_cons_of_length_eq_add_one hlength
      have hinput := guardedReadInput_eq hsound (hfits operand List.mem_cons_self).shape
        (hlt address List.mem_cons_self)
      have hnext : (m.afterRead address operand.shape.byteLength).memory.Sound :=
        hsound.observed (m.observed_afterRead _ _).memory
      have hrest := ih hnext (fun other hmem => hfits other (List.mem_cons_of_mem _ hmem))
        (Nat.succ.inj hlength) fun other hmem => hlt other (List.mem_cons_of_mem _ hmem)
      simp only [guardedReadInputs, hinput, Guarded.ok_bind, hrest]
      rfl

theorem guardedWriteOutput_eq (hsound : m.memory.Sound) {operand : Operand}
    (hfits : FitsOperand operand) {lanes : LaneVector} (hlanes : lanes.Fits) :
    m.guardedWriteOutput operand lanes = .ok (m.writeOutput operand lanes) := by
  have hbytes : operandBytes = 64 := rfl
  have hle := hfits.shape.byteLength_le
  have hwrite : ∀ {place : Nat}, place < space →
      m.memory.guardedWrite place lanes.encode = .ok (m.memory.write place lanes.encode) :=
    fun hlt => hsound.guardedWrite_eq
      (add_le_of_le_operandBytes (lt_of_lt_space hlt) hlanes.length_encode_le)
  have hdistance : Guard.signed 63 (-(operand.shape.byteLength : Int)) =
      .ok (-(operand.shape.byteLength : Int)) := Guard.signed_eq (by omega) (by omega)
  rw [guardedWriteOutput, hfits.shape.guardedByteLength_eq, Guarded.ok_bind, writeOutput]
  cases hplace : operand.place with
  | stack =>
      simp only [hdistance, hlanes.guardedEncode_eq, Guarded.ok_bind]
      rw [hwrite (Address.move_lt _ _)]
      rfl
  | memory address =>
      simp only [hlanes.guardedEncode_eq, Guarded.ok_bind]
      rw [hwrite (hfits.address_lt address hplace)]
      rfl

theorem guardedWriteOutputs_eq (hsound : m.memory.Sound) {operands : List Operand}
    (hfits : ∀ operand ∈ operands, FitsOperand operand) {results : List LaneVector}
    (hlength : results.length = operands.length) (hlanes : ∀ lanes ∈ results, lanes.Fits) :
    m.guardedWriteOutputs operands results = .ok (m.writeOutputs operands results) := by
  induction operands generalizing m results with
  | nil =>
      rw [List.length_eq_zero_iff.mp hlength]
      rfl
  | cons operand rest ih =>
      obtain ⟨lanes, others, rfl⟩ := List.exists_cons_of_length_eq_add_one hlength
      have hwrite := guardedWriteOutput_eq hsound (hfits operand List.mem_cons_self)
        (hlanes lanes List.mem_cons_self)
      rw [guardedWriteOutputs, hwrite, Guarded.ok_bind, writeOutputs]
      apply ih (hsound.later (m.later_writeOutput operand lanes))
      · exact fun other hmem => hfits other (List.mem_cons_of_mem _ hmem)
      · exact Nat.succ.inj hlength
      · exact fun other hmem => hlanes other (List.mem_cons_of_mem _ hmem)

end Machine

end VectorStack
