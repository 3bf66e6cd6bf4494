import VectorStack.Proofs.Machine.Emitted
/-!
What a machine reads of the constant pool. The bytes of a constant that is no text all belong to
its cell, whatever else shares the cell. The cell of a text is made for the text and not for the
width of the operand: lanes that the text does not have are read from whatever lies behind it.
-/

namespace VectorStack

open Address (space wrap)

namespace ConstantPool

/-- Bytes from the address of a cell on that all belong to the cell. -/
def Within (placed : Nat × PoolCell) (length : Nat) : Prop :=
  ∀ i < length, (cellSpan placed).Covers (wrap (placed.1 + i))

theorem within_iff {placed : Nat × PoolCell} {length : Nat} (hspace : length ≤ space) :
    Within placed length ↔ length ≤ placed.2.content.length := by
  constructor
  · intro hwithin
    by_contra hlonger
    obtain ⟨i, hi, hsame⟩ := hwithin placed.2.content.length (Nat.lt_of_not_le hlonger)
    unfold wrap space at *
    dsimp only [cellSpan] at hi hsame
    omega
  · intro hle i hi
    exact ⟨i, Nat.lt_of_lt_of_le hi hle, rfl⟩

end ConstantPool

section Length

variable {store : TokenStore} {layout : Layout} {type : DataType} {term : Term} {once : Bytes}

/-- A constant that is no text is a single lane. -/
theorem Layout.length_encodeTerm_of_not_isText (htext : ¬ term.IsText)
    (hencode : layout.encodeTerm store type term true = .ok once) : once.length = type.size := by
  obtain ⟨numbers, hlanes, rfl⟩ := lanes_of_encodeTerm hencode
  cases hlanes with
  | text hwritten => exact absurd ⟨_, hwritten⟩ htext
  | single => rw [DataType.length_flatMap_encodeLane, List.length_singleton, Nat.one_mul]

/-- A text has a lane for its length and one for each of its bytes. -/
theorem Layout.length_encodeTerm_text {token : TokenId} {text : Bytes}
    (hwritten : term.written = .string token) (htext : store.stringBytes token = .ok text)
    (hencode : layout.encodeTerm store type term true = .ok once) :
    once.length = type.size * (text.length + 1) := by
  obtain ⟨numbers, hlanes, rfl⟩ := lanes_of_encodeTerm hencode
  cases hlanes with
  | @text other bytes hother hbytes =>
      rw [hwritten] at hother
      cases hother
      rw [htext] at hbytes
      cases hbytes
      rw [DataType.length_flatMap_encodeLane, Nat.mul_comm]
      simp
  | single hnone => exact absurd ⟨token, hwritten⟩ hnone

end Length

variable {store : TokenStore} {config : AssemblyConfig} {statement : InstructionStatement}
  {index : Nat} {slot : Slot} {type : DataType} {term : Term}

/-- An input that is kept in the constant pool: a text, or another constant that is not written
behind the word itself. -/
structure PooledInput (store : TokenStore) (config : AssemblyConfig)
    (statement : InstructionStatement) (index : Nat) (slot : Slot) (type : DataType)
    (term : Term) : Prop where
  slot_eq : statement.opcode.template.slots[index]? = some slot
  index_lt : index < statement.opcode.template.inputs.length
  term_eq : statement.term? index = some term
  type_eq : Layout.operandType store config statement index slot = .ok type
  isConstant : term.IsConstant store
  not_inline : term.IsText ∨ term.isInline type (slot.resolveWidth statement.width) false = false

theorem Term.HasNumber.not_isText (hnumber : term.HasNumber) : ¬ term.IsText := by
  rintro ⟨token, hwritten⟩
  simp [HasNumber, hwritten] at hnumber

/-- Such an input is planned as a pooled one, with a request for it. -/
theorem PooledInput.exists_request
    (hpooled : PooledInput store config statement index slot type term)
    {requests after : Array PoolRequest} {word : Instruction}
    {planned : List (DataType × Addressing)}
    (hplanned : Layout.Planned store config statement requests word planned after) :
    ∃ number, planned[index]? = some (type, .pooled number) ∧
      after[number]? = some ⟨type, term.poolLanes (slot.resolveWidth statement.width), term⟩ := by
  obtain ⟨found, addressing, before, behind, hoperand, htype, hreaches, hgrows⟩ :=
    hplanned.planned_spec index slot hpooled.slot_eq
  rw [hpooled.type_eq] at htype
  cases htype
  rw [hpooled.term_eq, decide_eq_false (Nat.not_le.mpr hpooled.index_lt)] at hreaches
  have hconstant := hpooled.isConstant
  cases hreaches with
  | omitted hgiven => cases hgiven
  | placeholder hgiven hwritten =>
      cases hgiven
      simp [Term.IsConstant, hwritten] at hconstant
  | inlined hgiven hnumber hinline =>
      cases hgiven
      rw [hpooled.not_inline.resolve_left hnumber.not_isText] at hinline
      cases hinline
  | direct hgiven hwritten =>
      cases hgiven
      simp [Term.IsConstant, hwritten] at hconstant
  | offset hgiven hwritten _ hlabel =>
      cases hgiven
      simp [Term.IsConstant, hwritten] at hconstant
      simp [hconstant] at hlabel
  | pooled hgiven =>
      cases hgiven
      exact ⟨before.size, hoperand, Layout.getElem?_of_isPrefix hgrows (by simp)⟩

theorem PooledInput.shape_bounds (hpooled : PooledInput store config statement index slot type term)
    (hstatement : statement.WellFormed) :
    Shape.byteLength ⟨type, slot.resolveWidth statement.width⟩ ≤ space := by
  have hwidth := (Slot.resolveWidth_bounds (List.mem_of_getElem? hpooled.slot_eq)
    hstatement.width_pos hstatement.width_le).2
  exact Nat.le_trans (Nat.mul_le_mul type.size_le hwidth) (by decide)

namespace Machine

variable {statements : List Statement} {layout : Layout} {pool : ConstantPool}

/-- The machine finds a pooled input at the address of its cell. -/
theorem exists_cell_of_planned {requests after : Array PoolRequest} {word : Instruction}
    {planned : List (DataType × Addressing)} {addresses : Bytes}
    (hpooled : PooledInput store config statement index slot type term)
    (hpacked : ConstantPool.Packed store layout pool)
    (hplanned : Layout.Planned store config statement requests word planned after)
    (hrequests : after.toList <+: layout.requests.toList)
    (hbytes : Image.operandBytes layout store pool (planned.map Prod.snd) = .ok addresses) :
    ∃ placed ∈ pool.cells, placed.2.type = type ∧
      layout.encodeTerm store type term true = .ok placed.2.content.once ∧
      term.poolLanes (slot.resolveWidth statement.width) ≤ placed.2.content.copies ∧
      ∀ (m : Machine) (start : Nat), m.memory.Plain →
        m.memory.Holds start
          (Bytes.ofNat Instruction.wordBytes word.encode.toNat ++ addresses) →
        (m.inputs word start)[index]? =
          some ⟨⟨type, slot.resolveWidth statement.width⟩, .memory placed.1⟩ := by
  obtain ⟨number, hoperand, hrequest⟩ := hpooled.exists_request hplanned
  obtain ⟨cell, hcell, htype, hencode, hcopies⟩ :=
    hpacked.cell_of number _ (Layout.getElem?_of_isPrefix hrequests hrequest)
  refine ⟨_, hcell, htype, hencode, hcopies, fun m start hplain hholds => ?_⟩
  obtain ⟨address, field, haddress, -, hplace⟩ :=
    exists_place hplain hplanned hbytes hholds hoperand rfl
  cases haddress
  have hthere : m.place word start index = .memory (wrap (pool.addressOf number)) := hplace
  rw [Address.wrap_eq_self (hpacked.address_lt _ hcell)] at hthere
  have hindex : index < (m.inputs word start).length := by
    rw [inputs, length_operandsFrom, hplanned.opcode_eq]
    exact hpooled.index_lt
  rw [← List.getElem?_append_left hindex,
    getElem?_operands_of_unmapped word start hplain.mappings_eq, hplanned.opcode_eq,
    hpooled.slot_eq, Option.map_some, hplanned.shape_eq hoperand hpooled.type_eq, hthere]

/-- A machine that comes to an instruction as it was written finds a pooled input in its cell. -/
theorem exists_cell_of_emits {cursor stop : Nat} {labels : List Label} {entries : List Entry}
    (hpooled : PooledInput store config statement index slot type term)
    (hstatement : statement.WellFormed) (hpacked : ConstantPool.Packed store layout pool)
    (hemits : Emits store config layout pool cursor (.instruction statement) labels entries stop) :
    ∃ placed ∈ pool.cells, placed.2.type = type ∧
      layout.encodeTerm store type term true = .ok placed.2.content.once ∧
      term.poolLanes (slot.resolveWidth statement.width) ≤ placed.2.content.copies ∧
      ∀ m next : Machine, m.memory.Plain → m.pc = cursor →
        (∀ entry ∈ entries, m.memory.Holds entry.address entry.bytes) →
        next = m.withPc (Address.move m.pc m.fetch.size) →
        (next.inputs m.fetch m.pc)[index]? =
          some ⟨⟨type, slot.resolveWidth statement.width⟩, .memory placed.1⟩ := by
  cases hemits with
  | instruction hplan hrequests haddresses =>
      obtain ⟨planned, rfl, hplanned⟩ := Layout.planned_of_plan hplan
      obtain ⟨placed, hplaced, htype, hencode, hcopies, hplace⟩ :=
        exists_cell_of_planned hpooled hpacked hplanned hrequests haddresses
      refine ⟨placed, hplaced, htype, hencode, hcopies, ?_⟩
      rintro m next hplain rfl hholds rfl
      have hheld := hholds _ List.mem_cons_self
      rw [Entry.bytes, ByteRun.bytes_single] at hheld
      rw [fetch_eq hplain (hplanned.fits hstatement) hheld]
      exact hplace _ m.pc hplain hheld

/-- Every input that is kept in the pool is read from the address of its cell. The bytes that are
read belong to the cell, except for a text that has not as many bytes as the operand has lanes. -/
theorem reads_within_cell {tokens : List TokenId} {image : Image}
    (hread : store.statements tokens = .ok statements)
    (himage : Image.ofStatements store config statements = .ok image)
    {before behind : List Statement}
    (hstatements : statements = before ++ .instruction statement :: behind)
    (hpooled : PooledInput store config statement index slot type term) :
    ∃ layout pool labels earlier entry later shape placed,
      shape = ⟨type, slot.resolveWidth statement.width⟩ ∧
      Layout.ofStatements store config statements = .ok layout ∧
      ConstantPool.ofLayout layout store config = .ok pool ∧
      image.program = Image.assemble image.entries pool ∧
      image.entries = earlier ++ entry :: later ∧
      LaidOut store config layout pool 0 before labels earlier entry.address ∧
      placed ∈ pool.cells ∧ placed.2.type = type ∧
      layout.encodeTerm store type term true = .ok placed.2.content.once ∧
      (∀ m next : Machine, m.memory.Plain → m.pc = entry.address →
        m.memory.Holds entry.address entry.bytes →
        next = m.withPc (Address.move m.pc m.fetch.size) →
        (next.inputs m.fetch m.pc)[index]? = some ⟨shape, .memory placed.1⟩) ∧
      (¬ term.IsText → ConstantPool.Within placed shape.byteLength) ∧
      ∀ token text, term.written = .string token → store.stringBytes token = .ok text →
        (ConstantPool.Within placed shape.byteLength ↔
          type.size = 0 ∨ shape.width ≤ (text.length + 1) * placed.2.content.copies) := by
  obtain ⟨layout, pool, hlayout, hpool, hprogram, hlaidOut⟩ := Image.exists_laidOut himage
  have hstatement := TokenStore.wellFormed_of_statements hread (.instruction statement)
    (by rw [hstatements]; exact List.mem_append_right _ List.mem_cons_self)
  have hsplit := hlaidOut
  rw [hstatements] at hsplit
  obtain ⟨labels, earlier, entry, later, stop, hentries, hbefore, -, hemits⟩ :=
    hsplit.exists_instruction
  obtain ⟨placed, hplaced, htype, hencode, hcopies, hplace⟩ := exists_cell_of_emits hpooled
    hstatement (ConstantPool.packed_of_ofLayout hlayout hpool) hemits
  have hbounds : ConstantPool.Within placed _ ↔ _ :=
    ConstantPool.within_iff (hpooled.shape_bounds hstatement)
  refine ⟨layout, pool, labels, earlier, entry, later, _, placed, rfl, hlayout, hpool, hprogram,
    hentries, hbefore, hplaced, htype, hencode, ?_, ?_, ?_⟩
  · intro m next hplain hpc hholds hnext
    exact hplace m next hplain hpc (List.forall_mem_singleton.mpr hholds) hnext
  · intro htext
    rw [hbounds, ByteRun.length, Layout.length_encodeTerm_of_not_isText htext hencode]
    exact Nat.mul_le_mul_left _ (Nat.le_trans (Term.le_poolLanes htext _) hcopies)
  · intro token text hwritten htext
    rw [hbounds, ByteRun.length, Layout.length_encodeTerm_text hwritten htext hencode,
      Nat.mul_assoc]
    rcases Nat.eq_zero_or_pos type.size with hzero | hpos
    · simp [Shape.byteLength, hzero]
    · rw [Shape.byteLength, Nat.mul_le_mul_left_iff hpos]
      exact (or_iff_right (Nat.ne_of_gt hpos)).symm

/-- A number is pushed from its cell. -/
theorem reads_within_cell_push :
    let m : Machine := { Machine.new ⟨0, 0, 0⟩ default with
      memory := (Memory.ofRam .full).write 0 [2, 4, 0, 1, 0, 0, 0, 0, 11, 0, 0, 9] }
    ((m.withPc 11).inputs m.fetch 0)[0]? = some ⟨⟨.u8, 1⟩, .memory 11⟩ ∧
      ConstantPool.Within (11, ⟨.u8, ⟨[9], 1⟩⟩) 1 := by
  intro m
  let term : Term := ⟨.literal 2 false, 2, 1⟩
  have hpooled : PooledInput pushedNine .standard pushNine 0 ⟨none, none⟩ .u8 term :=
    ⟨rfl, by decide, rfl, rfl, trivial, .inr rfl⟩
  obtain ⟨image, himage, hentries, hcells⟩ := exists_image_pushedNine
  obtain ⟨layout, pool, labels, earlier, entry, later, shape, placed, rfl, hlayout, hpool, -,
    hsplit, -, hplaced, -, -, hplace, hwithin, -⟩ :=
    reads_within_cell statements_pushedNine himage (List.nil_append _).symm hpooled
  rw [hcells layout pool hlayout hpool] at hplaced
  cases List.mem_singleton.mp hplaced
  have hentry : entry ∈ image.entries := by
    rw [hsplit]
    exact List.mem_append_right _ List.mem_cons_self
  rw [hentries] at hentry
  cases List.mem_singleton.mp hentry
  have hholds : m.memory.Holds 0 ([2, 4, 0, 1, 0, 0, 0, 0, 11, 0, 0] ++ [9]) :=
    Memory.holds_write Memory.plain_full (by decide)
  have hnext : m.withPc 11 = m.withPc (Address.move m.pc m.fetch.size) :=
    congrArg m.withPc (by decide +kernel)
  have htext : ¬ term.IsText := by
    rintro ⟨token, hwritten⟩
    cases hwritten
  exact ⟨hplace m _ (Memory.plain_full.write 0 _) rfl hholds.left hnext, hwithin htext⟩

/-- Eight lanes are read of a text that has three. -/
theorem reads_beyond_text :
    let store : TokenStore := ⟨#[⟨"push", "push:u8*8 \"hi\"".toList.toArray, none⟩],
      #[⟨.word, 0, 0, 4, none⟩, ⟨.type, 0, 4, 3, none⟩, ⟨.star, 0, 7, 1, none⟩,
        ⟨.number, 0, 8, 1, none⟩, ⟨.string, 0, 10, 4, none⟩]⟩
    let term : Term := ⟨.string 4, 4, 1⟩
    let push : InstructionStatement := ⟨.push, 0, some .u8, 8, [term], []⟩
    store.statements [0, 1, 2, 3, 4] = .ok [.instruction push] ∧
      PooledInput store .standard push 0 ⟨none, none⟩ .u8 term ∧
      (Image.ofStatements store .standard [.instruction push]).map Image.entries =
        .ok [⟨0, .single [0x82, 7, 0, 1, 0, 0, 0, 0, 11, 0, 0], 0, none⟩] ∧
      ((Layout.ofStatements store .standard [.instruction push]).bind
        fun layout => (ConstantPool.ofLayout layout store .standard).map ConstantPool.cells) =
          .ok [(11, ⟨.u8, ⟨[2, 104, 105], 1⟩⟩)] ∧
      ¬ ConstantPool.Within (11, ⟨.u8, ⟨[2, 104, 105], 1⟩⟩) (Shape.byteLength ⟨.u8, 8⟩) := by
  intro store term push
  refine ⟨by decide +kernel, ⟨rfl, by decide, rfl, rfl, trivial, .inl ⟨4, rfl⟩⟩,
    by decide +kernel, by decide +kernel, ?_⟩
  rw [ConstantPool.within_iff (by decide)]
  decide

end Machine

end VectorStack
