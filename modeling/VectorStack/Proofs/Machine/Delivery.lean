import VectorStack.Proofs.ConstantPool.Packing
import VectorStack.Proofs.Lane
import VectorStack.Proofs.Machine.Execution
import VectorStack.Proofs.Machine.Fetch
/-!
What the machine reads as the operands of an instruction that was written for it. Every operand is
where its way of writing it says, constants are in every lane, and the machine and the assembler
agree on types and widths, so such an instruction always runs: the step over it executes it on these
operands.
-/

namespace VectorStack

open Address (wrap wrap_eq_self)

theorem Term.le_poolLanes {term : Term} (htext : ¬ term.IsText) (width : Nat) :
    width ≤ term.poolLanes width := by
  rw [poolLanes]
  split
  · next token hwritten => exact absurd ⟨token, hwritten⟩ htext
  · exact Nat.le_max_left _ _

theorem Memory.Holds.of_copies {memory : Memory} {address count : Nat} {run : ByteRun}
    (hholds : memory.Holds address run.bytes) (hcount : count ≤ run.copies) :
    memory.Holds address (List.replicate count run.once).flatten := by
  have hsplit : run.bytes = (List.replicate count run.once).flatten ++
      (List.replicate (run.copies - count) run.once).flatten := by
    rw [← List.flatten_append, ← List.replicate_add, Nat.add_sub_cancel' hcount]
    rfl
  rw [hsplit] at hholds
  exact hholds.left

/-- Only integers are addresses. -/
theorem Image.addressOfNumber_eq_ok {store : TokenStore} {token : TokenId} {number : Number}
    {address : Nat}
    (haddress : (addressOfNumber store token number).map some = .ok (some address)) :
    ∃ cell, number = .integer cell ∧ address = wrap cell.toNat := by
  obtain ⟨found, hfound, hsome⟩ := map_eq_ok.mp haddress
  cases hsome
  cases number with
  | integer cell =>
      cases hfound
      exact ⟨cell, rfl, rfl⟩
  | real cell => cases hfound

namespace Machine

/-- An input with the same number in every lane, as far as its type can hold it. -/
def constantInput (shape : Shape) (address : Nat) (number : Number) : Input where
  address
  lanes := ⟨shape.type, shape.width,
    List.replicate shape.width (shape.type.narrow (number.toCell shape.type.mode))⟩

/-- What an operand in memory is read as. -/
def valueAt (m : Machine) (shape : Shape) : Place → Option Input
  | .stack => none
  | .memory address => some (m.readInput ⟨shape, .memory address⟩ address)

/-- The place of an operand and the value that is read there are what the operand is written as.
There is no value for an output. -/
inductive Delivers (store : TokenStore) (layout : Layout) (m : Machine) (given : Option Term)
    (output : Bool) (shape : Shape) (value : Option Input) : Place → Prop
  | omitted (hgiven : given = none) : Delivers store layout m given output shape value .stack
  | placeholder {term : Term} (hgiven : given = some term)
      (hwritten : term.written = .placeholder) :
      Delivers store layout m given output shape value .stack
  /-- An inline operand is a single cell with its number. -/
  | inlined {term : Term} {cell : Cell} {address : Nat} (hgiven : given = some term)
      (hinline : term.isInline shape.type shape.width output = true)
      (hnumber : layout.termNumber store term = .ok (.integer cell))
      (hvalue : value = some ⟨address, ⟨.p24, 1, [UInt64.ofNat (wrap cell.toNat)]⟩⟩) :
      Delivers store layout m given output shape value (.memory address)
  /-- A label stands for its address. -/
  | direct {term : Term} {token : TokenId} {address : Nat} (hgiven : given = some term)
      (hwritten : term.written = .word token)
      (hinline : term.isInline shape.type shape.width output = false)
      (haddress : addressOf? layout.labels (store.text token) = some address) :
      Delivers store layout m given output shape value (.memory address)
  /-- An expression with labels, or for an output, is an address. -/
  | offset {term : Term} {expression : Expression} {cell : Cell} (hgiven : given = some term)
      (hwritten : term.written = .expression expression)
      (hinline : term.isInline shape.type shape.width output = false)
      (hlabel : output = true ∨ expression.referencesLabel store = true)
      (hvalue : expression.evaluate store (addressOf? layout.labels) = .ok (.integer cell)) :
      Delivers store layout m given output shape value (.memory (wrap cell.toNat))
  /-- A constant is in every lane. -/
  | constant {term : Term} {number : Number} {address : Nat} (hgiven : given = some term)
      (hconstant : term.IsConstant store) (htext : ¬ term.IsText)
      (hinline : term.isInline shape.type shape.width output = false) (houtput : output = false)
      (hnumber : layout.termNumber store term = .ok number)
      (hvalue : value = some (constantInput shape address number)) :
      Delivers store layout m given output shape value (.memory address)
  /-- A text lies in memory as lanes, its length first. -/
  | text {term : Term} {token : TokenId} {text encoded : Bytes} {address : Nat}
      (hgiven : given = some term) (hwritten : term.written = .string token)
      (houtput : output = false) (htext : store.stringBytes token = .ok text)
      (hencoded : encoded = (Number.ofNat text.length ::
        text.map fun byte => Number.ofNat byte.toNat).flatMap fun number =>
          shape.type.encodeLane (number.toCell shape.type.mode))
      (hread : m.memory.read address encoded.length = encoded) :
      Delivers store layout m given output shape value (.memory address)

/-- Another value does as well where it is what is read in memory for an input. -/
theorem Delivers.of_valueAt {store : TokenStore} {layout : Layout} {m : Machine}
    {given : Option Term} {output : Bool} {shape : Shape} {value : Option Input} {place : Place}
    (hdelivers : Delivers store layout m given output shape (m.valueAt shape place) place)
    (hvalue : ∀ address, output = false → place = .memory address →
      value = m.valueAt shape place) :
    Delivers store layout m given output shape value place := by
  cases hdelivers with
  | omitted hgiven => exact .omitted hgiven
  | placeholder hgiven hwritten => exact .placeholder hgiven hwritten
  | inlined hgiven hinline hnumber hread =>
      have hinput := hinline
      simp only [Term.isInline, Bool.and_eq_true, Bool.not_eq_true'] at hinput
      exact .inlined hgiven hinline hnumber ((hvalue _ hinput.1.1.1 rfl).trans hread)
  | direct hgiven hwritten hinline haddress => exact .direct hgiven hwritten hinline haddress
  | offset hgiven hwritten hinline hlabel hnumber =>
      exact .offset hgiven hwritten hinline hlabel hnumber
  | constant hgiven hconstant htext hinline houtput hnumber hread =>
      exact .constant hgiven hconstant htext hinline houtput hnumber
        ((hvalue _ houtput rfl).trans hread)
  | text hgiven hwritten houtput htext hencoded hread =>
      exact .text hgiven hwritten houtput htext hencoded hread

/-- What is written as a constant, and not in place of an address, is in every lane. -/
theorem Delivers.of_constant {store : TokenStore} {layout : Layout} {m : Machine} {term : Term}
    {shape : Shape} {value : Option Input} {place : Place} {number : Number}
    (hconstant : term.IsConstant store) (htext : ¬ term.IsText)
    (hinline : term.isInline shape.type shape.width false = false)
    (hnumber : layout.termNumber store term = .ok number)
    (hdelivers : Delivers store layout m (some term) false shape value place) :
    ∃ address, place = .memory address ∧ value = some (constantInput shape address number) := by
  rw [Term.IsConstant] at hconstant
  cases hdelivers with
  | omitted hgiven => cases hgiven
  | inlined hgiven hinlined =>
      cases hgiven
      cases hinline.symm.trans hinlined
  | placeholder hgiven hwritten | direct hgiven hwritten =>
      cases hgiven
      rw [hwritten] at hconstant
      exact hconstant.elim
  | offset hgiven hwritten _ hlabel =>
      cases hgiven
      rw [hwritten] at hconstant
      simp [hconstant] at hlabel
  | text hgiven hwritten =>
      cases hgiven
      exact absurd ⟨_, hwritten⟩ htext
  | constant hgiven _ _ _ _ hfound hvalue =>
      cases hgiven
      cases hnumber.symm.trans hfound
      exact ⟨_, rfl, hvalue⟩

variable {store : TokenStore} {config : AssemblyConfig} {statement : InstructionStatement}
  {requests after : Array PoolRequest} {word : Instruction} {layout : Layout}
  {statements : List Statement} {pool : ConstantPool} {planned : List (DataType × Addressing)}
  {addresses : Bytes} {m : Machine} {start index : Nat} {type : DataType}

theorem readInput_memory (m : Machine) (shape : Shape) (address : Nat) :
    m.readInput ⟨shape, .memory address⟩ address =
      ⟨address, ⟨shape.type, shape.width,
        shape.type.decodeLanes shape.width (m.memory.read address shape.byteLength)⟩⟩ := rfl

theorem delivers_inlined {term : Term} {given : Option Term} {output : Bool} {width field : Nat}
    {cell : Cell} (hgiven : given = some term) (hinline : term.isInline type width output = true)
    (hnumber : layout.termNumber store term = .ok (.integer cell))
    (hread : m.memory.read field Address.byteCount =
      Bytes.ofNat Address.byteCount (wrap cell.toNat)) :
    Delivers store layout m given output ⟨type, width⟩
      (m.valueAt ⟨type, width⟩ (.memory field)) (.memory field) := by
  have hshape : type = .p24 ∧ width = 1 := by
    simp only [Term.isInline, Bool.and_eq_true, beq_iff_eq] at hinline
    exact ⟨hinline.1.1.2, hinline.1.2⟩
  obtain ⟨rfl, rfl⟩ := hshape
  refine .inlined hgiven hinline hnumber (congrArg some ?_)
  rw [readInput_memory]
  change (⟨field, ⟨.p24, 1, DataType.p24.decodeLanes 1
    (m.memory.read field Address.byteCount)⟩⟩ : Input) = _
  rw [hread, DataType.decodeLanes_address, Address.wrap_wrap]

theorem delivers_pooled (hplain : m.memory.Plain)
    (hpacked : ConstantPool.Packed store layout pool)
    (hcells : ∀ placed ∈ pool.cells, m.memory.Holds placed.1 placed.2.content.bytes)
    {number width : Nat} {term : Term} {given : Option Term} {output : Bool}
    (hwidth : 0 < width) (hgiven : given = some term) (hconstant : term.IsConstant store)
    (hinline : term.IsText ∨ term.isInline type width output = false) (houtput : output = false)
    (hrequest : layout.requests[number]? = some ⟨type, term.poolLanes width, term⟩) :
    Delivers store layout m given output ⟨type, width⟩
      (m.valueAt ⟨type, width⟩ (.memory (pool.addressOf number)))
      (.memory (pool.addressOf number)) := by
  obtain ⟨cell, hcell, -, hencode, hlanes⟩ := hpacked.cell_of number _ hrequest
  have hholds := hcells _ hcell
  dsimp only at hencode hlanes hholds
  obtain ⟨numbers, hnumbers, honce⟩ := Layout.lanes_of_encodeTerm hencode
  cases hnumbers with
  | @text token text hwritten htext =>
      have hcopies : 1 ≤ cell.content.copies :=
        Nat.le_trans (term.poolLanes_pos hwidth) hlanes
      have hread := (hholds.of_copies hcopies).read_eq hplain
      rw [List.replicate_one, List.flatten_singleton] at hread
      exact .text hgiven hwritten houtput htext honce hread
  | @single value htext hvalue =>
      have hcopies : width ≤ cell.content.copies :=
        Nat.le_trans (Term.le_poolLanes htext width) hlanes
      have hread := (hholds.of_copies hcopies).read_eq hplain
      rw [List.flatMap_singleton] at honce
      have hlength : cell.content.once.length = type.size := by
        rw [honce, DataType.length_encodeLane]
      have hbytes : (List.replicate width cell.content.once).flatten.length =
          Shape.byteLength ⟨type, width⟩ := by
        simp [hlength, Shape.byteLength, Nat.mul_comm]
      rw [hbytes] at hread
      refine .constant hgiven hconstant htext (hinline.resolve_left htext) houtput hvalue
        (congrArg some ?_)
      rw [readInput_memory, hread, DataType.decodeLanes_replicate type hlength, honce,
        DataType.decodeLane_encodeLane]
      rfl

/-- The machine finds the operand of every slot where its way of writing it says. -/
theorem delivers_of_planned (hplain : m.memory.Plain) (hstatement : statement.WellFormed)
    (hplaced : Layout.ofStatements store config statements = .ok layout)
    (hpacked : ConstantPool.Packed store layout pool)
    (hplanned : Layout.Planned store config statement requests word planned after)
    (hrequests : after.toList <+: layout.requests.toList)
    (hbytes : Image.operandBytes layout store pool (planned.map Prod.snd) = .ok addresses)
    (hholds : m.memory.Holds start
      (Bytes.ofNat Instruction.wordBytes word.encode.toNat ++ addresses))
    (hcells : ∀ placed ∈ pool.cells, m.memory.Holds placed.1 placed.2.content.bytes)
    {slot : Slot} (hslot : statement.opcode.template.slots[index]? = some slot) :
    ∃ type, Layout.operandType store config statement index slot = .ok type ∧
      word.shape index slot = ⟨type, slot.resolveWidth statement.width⟩ ∧
      Delivers store layout m (statement.term? index)
        (decide (statement.opcode.template.inputs.length ≤ index))
        ⟨type, slot.resolveWidth statement.width⟩
        (m.valueAt ⟨type, slot.resolveWidth statement.width⟩ (m.place word start index))
        (m.place word start index) := by
  obtain ⟨type, addressing, before, behind, hoperand, htype, hreaches, hgrows⟩ :=
    hplanned.planned_spec index slot hslot
  refine ⟨type, htype, hplanned.shape_eq hoperand htype, ?_⟩
  cases hreaches with
  | omitted hgiven =>
      rw [place_eq_stack hplanned hoperand]
      exact .omitted hgiven
  | placeholder hgiven hwritten =>
      rw [place_eq_stack hplanned hoperand]
      exact .placeholder hgiven hwritten
  | @inlined term hgiven hnumber hinline =>
      obtain ⟨address, field, haddress, hread, hplace⟩ :=
        exists_place hplain hplanned hbytes hholds hoperand rfl
      obtain ⟨number, hvalue, haddress⟩ := bind_eq_ok.mp haddress
      obtain ⟨cell, rfl, rfl⟩ := Image.addressOfNumber_eq_ok haddress
      have hfield : m.place word start index = .memory field := hplace
      rw [hfield]
      exact delivers_inlined hgiven hinline hvalue hread
  | @direct term token hgiven hwritten hinline =>
      obtain ⟨address, field, haddress, hread, hplace⟩ :=
        exists_place hplain hplanned hbytes hholds hoperand rfl
      rw [Image.operandAddress] at haddress
      split at haddress
      · next found hfound =>
          cases haddress
          have hthere : m.place word start index = .memory (wrap address) := hplace
          rw [hthere, wrap_eq_self (Layout.addressOf?_lt hplaced hfound)]
          exact .direct hgiven hwritten hinline hfound
      · cases haddress
  | @offset term expression hgiven hwritten hinline hlabel =>
      obtain ⟨address, field, haddress, hread, hplace⟩ :=
        exists_place hplain hplanned hbytes hholds hoperand rfl
      obtain ⟨number, hvalue, haddress⟩ := bind_eq_ok.mp haddress
      obtain ⟨cell, rfl, rfl⟩ := Image.addressOfNumber_eq_ok haddress
      have hthere : m.place word start index = .memory (wrap (wrap cell.toNat)) := hplace
      rw [hthere, Address.wrap_wrap]
      exact .offset hgiven hwritten hinline hlabel hvalue
  | @pooled term hgiven hconstant hinline houtput =>
      obtain ⟨address, field, haddress, hread, hplace⟩ :=
        exists_place hplain hplanned hbytes hholds hoperand rfl
      cases haddress
      obtain ⟨other, sameSlot, hsameSlot, hother, -, hrequest⟩ := hplanned.pooled hoperand
      rw [hslot] at hsameSlot
      cases hsameSlot
      rw [hgiven] at hother
      cases hother
      have hasked := Layout.getElem?_of_isPrefix hrequests hrequest
      obtain ⟨cell, hcell, -⟩ := hpacked.cell_of _ _ hasked
      have hthere : m.place word start index =
          .memory (wrap (pool.addressOf before.size)) := hplace
      have hwidth := (Slot.resolveWidth_bounds (List.mem_of_getElem? hslot)
        hstatement.width_pos hstatement.width_le).1
      rw [hthere, wrap_eq_self (hpacked.address_lt _ hcell)]
      exact delivers_pooled hplain hpacked hcells hwidth hgiven hconstant hinline houtput hasked

/-- A machine that comes to an instruction as it was written fetches its word, which is as long as
its entry, and finds the operand of every slot, with the type and the width that were planned, where
its way of writing it says. -/
theorem fetch_of_emits {labels : List Label} {entries : List Entry} {stop : Nat}
    (hstatement : statement.WellFormed)
    (hplaced : Layout.ofStatements store config statements = .ok layout)
    (hpool : ConstantPool.ofLayout layout store config = .ok pool)
    (hemits : Emits store config layout pool m.pc (.instruction statement) labels entries stop)
    (hplain : m.memory.Plain)
    (hholds : ∀ entry ∈ entries, m.memory.Holds entry.address entry.bytes)
    (hcells : ∀ placed ∈ pool.cells, m.memory.Holds placed.1 placed.2.content.bytes) :
    m.fetch.opcode = statement.opcode ∧ (∀ entry ∈ entries, entry.length = m.fetch.size) ∧
      ∀ (index : Nat) (slot : Slot), statement.opcode.template.slots[index]? = some slot →
        ∃ type shape place, Layout.operandType store config statement index slot = .ok type ∧
          shape = ⟨type, slot.resolveWidth statement.width⟩ ∧
          place = m.passed.place m.fetch m.pc index ∧
          (m.inputOperands ++ m.outputOperands)[index]? = some ⟨shape, place⟩ ∧
          Delivers store layout m (statement.term? index)
            (decide (statement.opcode.template.inputs.length ≤ index)) shape
            (m.valueAt shape place) place := by
  cases hemits with
  | @instruction _ requests after word operands addresses hplan hrequests haddresses hsize =>
      have hheld := hholds _ List.mem_cons_self
      rw [Entry.bytes, ByteRun.bytes_single] at hheld
      obtain ⟨planned, rfl, hplanned⟩ := Layout.planned_of_plan hplan
      have hfetch := fetch_eq hplain (hplanned.fits hstatement) hheld
      have hpassed := passed_eq hplain.mappings_eq
      refine ⟨by rw [hfetch, hplanned.opcode_eq], ?_, ?_⟩
      · rw [hfetch]
        exact List.forall_mem_singleton.mpr hsize
      · intro index slot hslot
        obtain ⟨type, htype, hshape, hdelivers⟩ := delivers_of_planned hplain hstatement hplaced
          (ConstantPool.packed_of_ofLayout hplaced hpool) hplanned hrequests haddresses hheld
          hcells hslot
        -- the operands are found by the machine that has gone on, whose memory is the same
        have hplace : m.passed.place word m.pc index = m.place word m.pc index := by
          rw [hpassed]
          rfl
        refine ⟨type, _, _, htype, rfl, rfl, ?_, ?_⟩
        · rw [inputOperands, outputOperands, hfetch, getElem?_operands_of_unmapped word m.pc
            (by rw [hpassed]; exact hplain.mappings_eq), hplanned.opcode_eq, hslot,
            Option.map_some, hshape]
        · rw [hfetch, hplace]
          exact hdelivers

/-- A machine that comes to an instruction as it was written executes it and goes on behind it. -/
theorem step_of_emits {labels : List Label} {entries : List Entry} {stop : Nat}
    (hdefault : config.SupportsDefault) (hstatement : statement.WellFormed)
    (hplaced : Layout.ofStatements store config statements = .ok layout)
    (hpool : ConstantPool.ofLayout layout store config = .ok pool)
    (hemits : Emits store config layout pool m.pc (.instruction statement) labels entries stop)
    (hplain : m.memory.Plain) (hsleep : m.sleep = 0)
    (hholds : ∀ entry ∈ entries, m.memory.Holds entry.address entry.bytes)
    (hcells : ∀ placed ∈ pool.cells, m.memory.Holds placed.1 placed.2.content.bytes) :
    m.step = (.executed statement.opcode,
      m.performed.1.writeOutputs m.outputOperands m.performed.2) := by
  obtain ⟨hopcode, -, hoperands⟩ :=
    fetch_of_emits hstatement hplaced hpool hemits hplain hholds hcells
  have hinvalid : m.fetch.opcode ≠ .invalid := by
    rw [hopcode]
    exact hstatement.opcode_ne
  have hlength : (m.inputOperands ++ m.outputOperands).length =
      statement.opcode.template.slots.length := by
    rw [List.length_append, length_inputOperands, length_outputOperands, hopcode, Template.slots,
      List.length_append]
  rw [← hopcode]
  apply step_eq_executed hsleep hinvalid
  intro operand hmem
  obtain ⟨index, hindex, hoperand⟩ := List.mem_iff_getElem.mp hmem
  have hslot := List.getElem?_eq_getElem (hlength ▸ hindex)
  obtain ⟨type, shape, place, htype, rfl, -, hfound, -⟩ := hoperands index _ hslot
  rw [List.getElem?_eq_getElem hindex, hoperand] at hfound
  cases hfound
  exact Layout.isSupported_of_operandType hdefault hstatement (List.mem_of_getElem? hslot) htype

end Machine

end VectorStack
