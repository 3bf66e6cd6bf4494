import VectorStack.Assembly.Layout
import VectorStack.Proofs.Checked
/-!
How the operands of an instruction are planned. Every operand slot gets a type and a way to reach
its operand, and what the operand is written as decides which. Planning only ever adds requests for
constants.
-/

namespace VectorStack

namespace Term

/-- The address behind the word can be the operand itself: an input of a single address, written
once. -/
def isInline (term : Term) (type : DataType) (width : Nat) (output : Bool) : Bool :=
  !output && type == .p24 && width == 1 && term.copies == 1

/-- Copies of a constant that an operand of a given width asks for. A text is asked for once. -/
def poolLanes (term : Term) (width : Nat) : Nat :=
  match term.written with
  | .string _ => 1
  | _ => max width term.copies

/-- What is written has a number: it is a literal, a label name or an expression. -/
def HasNumber (term : Term) : Prop :=
  match term.written with
  | .literal _ _ | .word _ | .expression _ => True
  | .placeholder | .string _ => False

/-- What is written does not depend on where anything is placed. -/
def IsConstant (term : Term) (store : TokenStore) : Prop :=
  match term.written with
  | .literal _ _ | .string _ => True
  | .expression expression => expression.referencesLabel store = false
  | .placeholder | .word _ => False

/-- What is written is a text. -/
def IsText (term : Term) : Prop := ∃ token, term.written = .string token

end Term

/-- The operand that a statement gives for a slot of its operation. -/
def InstructionStatement.term? (statement : InstructionStatement) (slot : Nat) : Option Term :=
  if slot < statement.opcode.template.inputs.length then statement.inputs[slot]?
  else statement.outputs[slot - statement.opcode.template.inputs.length]?

namespace Layout

variable {store : TokenStore} {config : AssemblyConfig} {statement : InstructionStatement}

/-- The way to reach an operand that each way of writing it leads to, and the requests for constants
after it. -/
inductive Reaches (store : TokenStore) (requests : Array PoolRequest) (given : Option Term)
    (type : DataType) (width : Nat) (output : Bool) : Addressing → Array PoolRequest → Prop
  | omitted (hgiven : given = none) : Reaches store requests given type width output .stack requests
  | placeholder {term : Term} (hgiven : given = some term)
      (hwritten : term.written = .placeholder) :
      Reaches store requests given type width output .stack requests
  | inlined {term : Term} (hgiven : given = some term) (hnumber : term.HasNumber)
      (hinline : term.isInline type width output = true) :
      Reaches store requests given type width output (.inlined term) requests
  | direct {term : Term} {token : TokenId} (hgiven : given = some term)
      (hwritten : term.written = .word token) (hinline : term.isInline type width output = false) :
      Reaches store requests given type width output (.direct token) requests
  | offset {term : Term} {expression : Expression} (hgiven : given = some term)
      (hwritten : term.written = .expression expression)
      (hinline : term.isInline type width output = false)
      (hlabel : output = true ∨ expression.referencesLabel store = true) :
      Reaches store requests given type width output (.offset expression) requests
  | pooled {term : Term} (hgiven : given = some term) (hconstant : term.IsConstant store)
      (hinline : term.IsText ∨ term.isInline type width output = false) (houtput : output = false) :
      Reaches store requests given type width output (.pooled requests.size)
        (requests.push ⟨type, term.poolLanes width, term⟩)

/-- What becomes of a constant: an output cannot be one, and an input asks for a cell. -/
theorem reaches_of_constant {requests after : Array PoolRequest} {term : Term} {type : DataType}
    {width lanes : Nat} {output : Bool} {addressing : Addressing} {fault : AssemblyError}
    (hconstant : term.IsConstant store) (hlanes : term.poolLanes width = lanes)
    (hinline : term.IsText ∨ term.isInline type width output = false)
    (hreach : (if output then .error fault
      else .ok (.pooled requests.size, requests.push ⟨type, lanes, term⟩)) =
        Except.ok (addressing, after)) :
    Reaches store requests (some term) type width output addressing after := by
  split at hreach
  · cases hreach
  · next houtput =>
      cases hreach
      rw [← hlanes]
      exact .pooled rfl hconstant hinline (Bool.eq_false_iff.mpr houtput)

theorem reaches_of_reach {requests after : Array PoolRequest} {term : Term} {type : DataType}
    {width : Nat} {output : Bool} {addressing : Addressing}
    (hreach : reach store requests term type width output = .ok (addressing, after)) :
    Reaches store requests (some term) type width output addressing after := by
  have hflag : (!output && type == .p24 && width == 1 && term.copies == 1) =
      term.isInline type width output := rfl
  rw [reach] at hreach
  rw [hflag] at hreach
  cases hwritten : term.written with
  | placeholder =>
      rw [hwritten] at hreach
      cases hreach
      exact .placeholder rfl hwritten
  | literal token negative =>
      have hnumber : term.HasNumber := by simp [Term.HasNumber, hwritten]
      have hconstant : term.IsConstant store := by simp [Term.IsConstant, hwritten]
      rw [hwritten] at hreach
      dsimp only at hreach
      split at hreach
      · next hinline =>
          cases hreach
          exact .inlined rfl hnumber hinline
      · next hinline =>
          exact reaches_of_constant hconstant (by simp [Term.poolLanes, hwritten])
            (.inr (Bool.eq_false_iff.mpr hinline)) hreach
  | word token =>
      have hnumber : term.HasNumber := by simp [Term.HasNumber, hwritten]
      rw [hwritten] at hreach
      cases hinline : term.isInline type width output with
      | true =>
          simp only [hinline, if_true] at hreach
          cases hreach
          exact .inlined rfl hnumber hinline
      | false =>
          simp only [hinline, Bool.false_eq_true, if_false] at hreach
          cases hreach
          exact .direct rfl hwritten hinline
  | string token =>
      have hconstant : term.IsConstant store := by simp [Term.IsConstant, hwritten]
      rw [hwritten] at hreach
      exact reaches_of_constant hconstant (by simp [Term.poolLanes, hwritten])
        (.inl ⟨token, hwritten⟩) hreach
  | expression expression =>
      have hnumber : term.HasNumber := by simp [Term.HasNumber, hwritten]
      rw [hwritten] at hreach
      dsimp only at hreach
      split at hreach
      · next hinline =>
          cases hreach
          exact .inlined rfl hnumber hinline
      · next hinline =>
          rw [Bool.not_eq_true] at hinline
          split at hreach
          · next hlabel =>
              cases hreach
              exact .offset rfl hwritten hinline (Bool.or_eq_true_iff.mp hlabel)
          · next hlabel =>
              have hfree : expression.referencesLabel store = false := by simp_all
              exact reaches_of_constant (by simp [Term.IsConstant, hwritten, hfree])
                (by simp [Term.poolLanes, hwritten]) (.inr hinline) hreach

namespace Reaches

variable {requests after : Array PoolRequest} {given : Option Term} {type : DataType}
  {width : Nat} {output : Bool} {addressing : Addressing}

/-- Requests made earlier keep their numbers. -/
theorem requests_isPrefix
    (hreaches : Reaches store requests given type width output addressing after) :
    requests.toList <+: after.toList := by
  cases hreaches with
  | pooled => simp
  | _ => exact List.prefix_rfl

/-- A new request asks for lanes of the operand's type. -/
theorem mem_requests
    (hreaches : Reaches store requests given type width output addressing after)
    {request : PoolRequest} (hmem : request ∈ after.toList) :
    request ∈ requests.toList ∨ ∃ term : Term, request = ⟨type, term.poolLanes width, term⟩ := by
  cases hreaches with
  | @pooled term =>
      rw [Array.toList_push, List.mem_append, List.mem_singleton] at hmem
      exact hmem.imp_right fun hnew => ⟨term, hnew⟩
  | _ => exact .inl hmem

end Reaches

/-- What a plan says of the slots from `index` on: the operand in each has a type and a way to reach
it, with the requests for constants before and after it. -/
structure PlannedSlots (store : TokenStore) (config : AssemblyConfig)
    (statement : InstructionStatement) (output : Bool) (index : Nat)
    (requests : Array PoolRequest) (slots : List Slot) (terms : List Term)
    (planned : List (DataType × Addressing)) (after : Array PoolRequest) : Prop where
  length_eq : planned.length = slots.length
  requests_isPrefix : requests.toList <+: after.toList
  planned_spec : ∀ (offset : Nat) (slot : Slot), slots[offset]? = some slot →
    ∃ type addressing before behind, planned[offset]? = some (type, addressing) ∧
      operandType store config statement (index + offset) slot = .ok type ∧
      Reaches store before terms[offset]? type (slot.resolveWidth statement.width) output
        addressing behind ∧
      behind.toList <+: after.toList
  mem_requests : ∀ request ∈ after.toList, request ∈ requests.toList ∨
    ∃ (offset : Nat) (slot : Slot) (term : Term), slot ∈ slots ∧
      operandType store config statement offset slot = .ok request.type ∧
      request.lanes = term.poolLanes (slot.resolveWidth statement.width)

/-- Planning the slots from one on plans that slot and then the others. -/
theorem planSlots_cons {output : Bool} {index : Nat} {requests after : Array PoolRequest}
    {slot : Slot} {slots : List Slot} {terms : List Term} {planned : List (DataType × Addressing)}
    (hplan : planSlots store config statement output index requests (slot :: slots) terms =
      .ok (planned, after)) :
    ∃ type addressing behind others, planned = (type, addressing) :: others ∧
      operandType store config statement index slot = .ok type ∧
      Reaches store requests terms[0]? type (slot.resolveWidth statement.width) output addressing
        behind ∧
      planSlots store config statement output (index + 1) behind slots terms.tail =
        .ok (others, after) := by
  obtain ⟨type, htype, hplan⟩ := bind_eq_ok.mp hplan
  have hfirst : ∃ addressing behind,
      Reaches store requests terms[0]? type (slot.resolveWidth statement.width) output
        addressing behind ∧
      (planSlots store config statement output (index + 1) behind slots terms.tail >>= fun x =>
        .ok ((type, addressing) :: x.1, x.2)) = .ok (planned, after) := by
    cases terms with
    | nil => exact ⟨.stack, requests, .omitted rfl, hplan⟩
    | cons term terms =>
        obtain ⟨⟨addressing, behind⟩, hreach, hplan⟩ := bind_eq_ok.mp hplan
        exact ⟨addressing, behind, reaches_of_reach hreach, hplan⟩
  obtain ⟨addressing, behind, hreaches, hplan⟩ := hfirst
  obtain ⟨⟨others, last⟩, hothers, hplan⟩ := bind_eq_ok.mp hplan
  cases hplan
  exact ⟨type, addressing, behind, others, rfl, htype, hreaches, hothers⟩

theorem plannedSlots_of_planSlots {output : Bool} {index : Nat}
    {requests after : Array PoolRequest} {slots : List Slot} {terms : List Term}
    {planned : List (DataType × Addressing)}
    (hplan : planSlots store config statement output index requests slots terms =
      .ok (planned, after)) :
    PlannedSlots store config statement output index requests slots terms planned after := by
  induction slots generalizing index requests terms planned with
  | nil =>
      cases hplan
      exact ⟨rfl, List.prefix_rfl, fun _ _ hslot => by simp at hslot, fun _ => .inl⟩
  | cons slot slots ih =>
      obtain ⟨type, addressing, behind, others, rfl, htype, hreaches, hothers⟩ :=
        planSlots_cons hplan
      have hrest := ih hothers
      refine ⟨by simp [hrest.length_eq],
        hreaches.requests_isPrefix.trans hrest.requests_isPrefix, ?_, ?_⟩
      · intro offset wanted hslot
        cases offset with
        | zero =>
            rw [List.getElem?_cons_zero, Option.some.injEq] at hslot
            subst hslot
            exact ⟨type, addressing, requests, behind, rfl, htype, hreaches,
              hrest.requests_isPrefix⟩
        | succ offset =>
            obtain ⟨type, addressing, before, behind, hplanned, htype, hreaches, hgrows⟩ :=
              hrest.planned_spec offset wanted (by simpa using hslot)
            refine ⟨type, addressing, before, behind, by simpa using hplanned, ?_, ?_, hgrows⟩
            · rw [Nat.add_assoc, Nat.add_comm 1] at htype
              exact htype
            · rw [List.getElem?_tail] at hreaches
              exact hreaches
      · intro request hmem
        rcases hrest.mem_requests request hmem with hbehind | ⟨offset, wanted, term, hslot, hrest⟩
        · rcases hreaches.mem_requests hbehind with hbefore | ⟨term, rfl⟩
          · exact .inl hbefore
          · exact .inr ⟨index, slot, term, List.mem_cons_self, htype, rfl⟩
        · exact .inr ⟨offset, wanted, term, List.mem_cons_of_mem _ hslot, hrest⟩

/-- How an instruction is planned: its word, and for every slot of its operation a type and a way to
reach the operand. -/
structure Planned (store : TokenStore) (config : AssemblyConfig)
    (statement : InstructionStatement) (requests : Array PoolRequest) (word : Instruction)
    (planned : List (DataType × Addressing)) (after : Array PoolRequest) : Prop where
  word_eq : word = wordFor statement planned
  length_eq : planned.length = statement.opcode.template.size
  requests_isPrefix : requests.toList <+: after.toList
  planned_spec : ∀ (index : Nat) (slot : Slot),
    statement.opcode.template.slots[index]? = some slot →
    ∃ type addressing before behind, planned[index]? = some (type, addressing) ∧
      operandType store config statement index slot = .ok type ∧
      Reaches store before (statement.term? index) type (slot.resolveWidth statement.width)
        (decide (statement.opcode.template.inputs.length ≤ index)) addressing behind ∧
      behind.toList <+: after.toList
  mem_requests : ∀ request ∈ after.toList, request ∈ requests.toList ∨
    ∃ (index : Nat) (slot : Slot) (term : Term), slot ∈ statement.opcode.template.slots ∧
      operandType store config statement index slot = .ok request.type ∧
      request.lanes = term.poolLanes (slot.resolveWidth statement.width)

theorem planned_of_plan {requests after : Array PoolRequest} {word : Instruction}
    {operands : List Addressing}
    (hplan : plan store config requests statement = .ok (word, operands, after)) :
    ∃ planned, operands = planned.map Prod.snd ∧
      Planned store config statement requests word planned after := by
  obtain ⟨⟨inputs, between⟩, hinputs, hplan⟩ := bind_eq_ok.mp hplan
  obtain ⟨⟨outputs, last⟩, houtputs, hplan⟩ := bind_eq_ok.mp hplan
  cases hplan
  have hin := plannedSlots_of_planSlots hinputs
  have hout := plannedSlots_of_planSlots houtputs
  refine ⟨inputs ++ outputs, rfl, rfl, ?_,
    hin.requests_isPrefix.trans hout.requests_isPrefix, ?_, ?_⟩
  · rw [List.length_append, hin.length_eq, hout.length_eq]
    rfl
  · intro index slot hslot
    rw [Template.slots] at hslot
    by_cases hindex : index < statement.opcode.template.inputs.length
    · rw [List.getElem?_append_left hindex] at hslot
      obtain ⟨type, addressing, before, behind, hplanned, htype, hreaches, hgrows⟩ :=
        hin.planned_spec index slot hslot
      refine ⟨type, addressing, before, behind, ?_, by simpa using htype, ?_,
        hgrows.trans hout.requests_isPrefix⟩
      · rw [List.getElem?_append_left (by rw [hin.length_eq]; exact hindex)]
        exact hplanned
      · rw [InstructionStatement.term?, if_pos hindex, decide_eq_false (by omega)]
        exact hreaches
    · have hge : statement.opcode.template.inputs.length ≤ index := Nat.le_of_not_lt hindex
      rw [List.getElem?_append_right hge] at hslot
      obtain ⟨type, addressing, before, behind, hplanned, htype, hreaches, hgrows⟩ :=
        hout.planned_spec _ slot hslot
      refine ⟨type, addressing, before, behind, ?_, ?_, ?_, hgrows⟩
      · rw [List.getElem?_append_right (by rw [hin.length_eq]; exact hge), hin.length_eq]
        exact hplanned
      · rw [Nat.add_sub_cancel' hge] at htype
        exact htype
      · rw [InstructionStatement.term?, if_neg hindex, decide_eq_true hge]
        exact hreaches
  · intro request hmem
    rcases hout.mem_requests request hmem with hbetween | ⟨index, slot, term, hslot, hrest⟩
    · rcases hin.mem_requests request hbetween with hbefore | ⟨index, slot, term, hslot, hrest⟩
      · exact .inl hbefore
      · exact .inr ⟨index, slot, term, List.mem_append_left _ hslot, hrest⟩
    · exact .inr ⟨index, slot, term, List.mem_append_right _ hslot, hrest⟩

end Layout

end VectorStack
