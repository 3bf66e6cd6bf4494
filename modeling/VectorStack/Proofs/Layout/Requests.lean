import VectorStack.Proofs.Layout.Placement
import VectorStack.Proofs.Statement
/-!
What operands get and ask for. Types of operands have a meaning, widths are not zero, and a request
for a constant is for at least one lane. Only instructions make requests.
-/

namespace VectorStack

open Address (space)

/-- The type that operands without one get has a meaning, if there is such a type. -/
def AssemblyConfig.SupportsDefault (config : AssemblyConfig) : Prop :=
  ∀ type, config.defaultType = some type → type.isSupported = true

theorem AssemblyConfig.supportsDefault_standard : standard.SupportsDefault := by
  intro found hfound
  cases hfound
  rfl

/-- A request for at least one lane of a type with a meaning. -/
structure PoolRequest.WellFormed (request : PoolRequest) : Prop where
  type_isSupported : request.type.isSupported = true
  lanes_pos : 0 < request.lanes

/-- Types that an operation forces on operands have a meaning. -/
theorem Opcode.all_isSupported_slots (op : Opcode) :
    op.template.slots.all fun slot => slot.type.all DataType.isSupported := by
  unfold Opcode.template
  split <;> decide

/-- The only width that an operation forces on operands is one lane. -/
theorem Opcode.all_width_slots (op : Opcode) :
    op.template.slots.all fun slot => slot.width.all (· == 1) := by
  unfold Opcode.template
  split <;> decide

theorem Slot.resolveWidth_bounds {op : Opcode} {slot : Slot} {width : Nat}
    (hslot : slot ∈ op.template.slots) (hpos : 1 ≤ width) (hle : width ≤ Instruction.maxWidth) :
    1 ≤ slot.resolveWidth width ∧ slot.resolveWidth width ≤ Instruction.maxWidth := by
  have hforced := List.all_eq_true.mp op.all_width_slots slot hslot
  rw [resolveWidth]
  cases hwidth : slot.width with
  | none => exact ⟨hpos, hle⟩
  | some forced =>
      rw [hwidth, Option.all_some, beq_iff_eq] at hforced
      rw [Option.getD_some, hforced]
      exact ⟨Nat.le_refl 1, by decide⟩

theorem Term.poolLanes_pos (term : Term) {width : Nat} (hwidth : 0 < width) :
    0 < term.poolLanes width := by
  rw [poolLanes]
  split
  · exact Nat.one_pos
  · exact Nat.lt_of_lt_of_le hwidth (Nat.le_max_left _ _)

namespace Layout

variable {store : TokenStore} {config : AssemblyConfig} {layout next last : Layout}
  {statement : Statement} {statements : List Statement} {lowered : Lowered} {rows : List Lowered}

/-- Every operand of an instruction gets a type with a meaning. -/
theorem isSupported_of_operandType {statement : InstructionStatement} {index : Nat} {slot : Slot}
    {type : DataType} (hdefault : config.SupportsDefault) (hstatement : statement.WellFormed)
    (hslot : slot ∈ statement.opcode.template.slots)
    (htype : operandType store config statement index slot = .ok type) :
    type.isSupported = true := by
  have hforced := List.all_eq_true.mp statement.opcode.all_isSupported_slots slot hslot
  rw [operandType] at htype
  split at htype
  · next found _ _ hfound =>
      cases htype
      rw [hfound] at hforced
      exact hforced
  · next _ found _ _ hfound =>
      cases htype
      exact hstatement.type_isSupported _ hfound
  · next hfound =>
      cases htype
      exact hdefault _ hfound
  · cases htype

theorem getElem?_of_isPrefix {requests after : Array PoolRequest} {number : Nat}
    {request : PoolRequest} (hgrows : requests.toList <+: after.toList)
    (hrequest : requests[number]? = some request) : after[number]? = some request := by
  rw [← Array.getElem?_toList] at hrequest ⊢
  obtain ⟨hnumber, hrequest⟩ := List.getElem?_eq_some_iff.mp hrequest
  rw [List.prefix_iff_getElem?.mp hgrows number hnumber, hrequest]

namespace Planned

variable {statement : InstructionStatement} {requests after : Array PoolRequest}
  {word : Instruction} {planned : List (DataType × Addressing)}

/-- An operation has no more than three operands to plan. -/
theorem length_le (hplanned : Planned store config statement requests word planned after) :
    planned.length ≤ Template.maxOperands := by
  rw [hplanned.length_eq]
  exact statement.opcode.template_size_le

/-- The word names the types that were planned. -/
theorem typeAt_eq (hplanned : Planned store config statement requests word planned after)
    {index : Nat} {type : DataType} {addressing : Addressing}
    (hoperand : planned[index]? = some (type, addressing)) : word.typeAt index = type := by
  have hindex := (List.getElem?_eq_some_iff.mp hoperand).1
  have hlength := hplanned.length_le
  have hthree : index = 0 ∨ index = 1 ∨ index = 2 := by
    rw [Template.maxOperands] at hlength
    omega
  rw [hplanned.word_eq]
  rcases hthree with rfl | rfl | rfl <;> simp [Instruction.typeAt, wordFor, hoperand]

/-- A pooled operand has its request. -/
theorem pooled (hplanned : Planned store config statement requests word planned after)
    {index number : Nat} {type : DataType}
    (hoperand : planned[index]? = some (type, .pooled number)) :
    ∃ term slot, statement.opcode.template.slots[index]? = some slot ∧
      statement.term? index = some term ∧ term.IsConstant store ∧
      after[number]? = some ⟨type, term.poolLanes (slot.resolveWidth statement.width), term⟩ := by
  have hindex := (List.getElem?_eq_some_iff.mp hoperand).1
  have hslots : index < statement.opcode.template.slots.length := by
    rw [hplanned.length_eq] at hindex
    rw [Template.slots, List.length_append]
    exact hindex
  obtain ⟨planType, addressing, before, behind, hsame, -, hreaches, hgrows⟩ :=
    hplanned.planned_spec index _ (List.getElem?_eq_getElem hslots)
  rw [hoperand] at hsame
  cases hsame
  cases hreaches with
  | @pooled term hgiven hconstant =>
      refine ⟨term, _, List.getElem?_eq_getElem hslots, hgiven, hconstant, ?_⟩
      exact getElem?_of_isPrefix hgrows (by simp)

end Planned

theorem Places.wellFormed_requests (hdefault : config.SupportsDefault)
    (hplaces : Places store config layout statement lowered next)
    (hstatement : statement.WellFormed)
    (hlayout : ∀ request ∈ layout.requests.toList, request.WellFormed) :
    ∀ request ∈ next.requests.toList, request.WellFormed := by
  cases hplaces with
  | @instruction statement word operands requests hplan =>
      obtain ⟨planned, -, hplanned⟩ := planned_of_plan hplan
      intro request hmem
      rcases hplanned.mem_requests request hmem with
        hbefore | ⟨index, slot, term, hslot, htype, hlanes⟩
      · exact hlayout request hbefore
      · refine ⟨isSupported_of_operandType hdefault hstatement hslot htype, ?_⟩
        rw [hlanes]
        exact term.poolLanes_pos
          (Slot.resolveWidth_bounds hslot hstatement.width_pos hstatement.width_le).1
  | _ => exact hlayout

namespace Run

theorem wellFormed_requests (hdefault : config.SupportsDefault)
    (hrun : Run store config layout statements rows last)
    (hstatements : ∀ statement ∈ statements, statement.WellFormed)
    (hlayout : ∀ request ∈ layout.requests.toList, request.WellFormed) :
    ∀ request ∈ last.requests.toList, request.WellFormed := by
  induction hrun with
  | nil => exact hlayout
  | cons hhead _ ih =>
      obtain ⟨hstatement, hrest⟩ := List.forall_mem_cons.mp hstatements
      exact ih hrest (hhead.wellFormed_requests hdefault hstatement hlayout)

/-- Where there are requests there is an instruction. -/
theorem exists_instruction (hrun : Run store config layout statements rows last)
    (hrequests : last.requests ≠ layout.requests) :
    ∃ token word operands, Lowered.instruction token word operands ∈ rows := by
  induction hrun with
  | nil => exact absurd rfl hrequests
  | cons hhead _ ih =>
      cases hhead with
      | instruction => exact ⟨_, _, _, List.mem_cons_self⟩
      | _ =>
          obtain ⟨token, word, operands, hmem⟩ := ih hrequests
          exact ⟨token, word, operands, List.mem_cons_of_mem _ hmem⟩

/-- A pooled operand of an instruction has its request, for the type that the word names and for the
lanes that the statement asks for. -/
theorem requested (hrun : Run store config layout statements rows last) {token : TokenId}
    {word : Instruction} {operands : List Addressing} {index number : Nat}
    (hmem : Lowered.instruction token word operands ∈ rows)
    (hpooled : operands[index]? = some (.pooled number)) :
    ∃ statement slot request, .instruction statement ∈ statements ∧ statement.token = token ∧
      statement.opcode.template.slots[index]? = some slot ∧
      last.requests[number]? = some request ∧ statement.term? index = some request.term ∧
      request.type = word.typeAt index ∧
      request.lanes = request.term.poolLanes (slot.resolveWidth statement.width) := by
  induction hrun with
  | nil => cases hmem
  | cons hhead htail ih =>
      rcases List.mem_cons.mp hmem with rfl | hlater
      · cases hhead with
        | @instruction statement word operands requests hplan =>
            obtain ⟨planned, rfl, hplanned⟩ := planned_of_plan hplan
            rw [List.getElem?_map, Option.map_eq_some_iff] at hpooled
            obtain ⟨⟨type, addressing⟩, hoperand, rfl⟩ := hpooled
            obtain ⟨term, slot, hslot, hterm, -, hrequest⟩ := hplanned.pooled hoperand
            have hlast := getElem?_of_isPrefix htail.extends_last.requests_isPrefix hrequest
            exact ⟨statement, slot, _, List.mem_cons_self, rfl, hslot, hlast, hterm,
              (hplanned.typeAt_eq hoperand).symm, rfl⟩
      · obtain ⟨statement, slot, request, hstatement, hrequest⟩ := ih hlater
        exact ⟨statement, slot, request, List.mem_cons_of_mem _ hstatement, hrequest⟩

/-- Labels stand at addresses. -/
theorem label_address_lt (hrun : Run store config layout statements rows last)
    (hcursor : layout.cursor < space) (hlayout : ∀ label ∈ layout.labels, label.address < space) :
    ∀ label ∈ last.labels, label.address < space := by
  induction hrun with
  | nil => exact hlayout
  | cons hhead _ ih =>
      refine ih (hhead.cursor_lt hcursor) ?_
      cases hhead with
      | label =>
          intro label hmem
          rcases Array.mem_push.mp hmem with hold | rfl
          · exact hlayout label hold
          · exact hcursor
      | _ => exact hlayout

end Run

theorem addressOf?_lt (hplaced : ofStatements store config statements = .ok layout) {name : String}
    {address : Nat} (hfound : addressOf? layout.labels name = some address) : address < space := by
  obtain ⟨label, hlabel, rfl⟩ := Option.map_eq_some_iff.mp hfound
  exact (run_of_ofStatements hplaced).label_address_lt Address.space_pos
    (fun _ hmem => absurd hmem (Array.not_mem_empty _)) label (Array.mem_of_find?_eq_some hlabel)

end Layout

end VectorStack
