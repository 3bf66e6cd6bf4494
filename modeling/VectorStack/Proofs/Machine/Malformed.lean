import VectorStack.Proofs.Machine.Execution
import VectorStack.Proofs.Machine.Fetch
/-!
Words that cannot run. A word may name no operation, or give one of the operands of its operation
a type without a meaning. The machine finds that out before it pops or reads an operand: it goes on
behind the addresses that the word says follow it, and is otherwise as it was, less what devices
make of the word and its addresses being read.
-/

namespace VectorStack

open Address (wrap)

namespace Instruction

/-- No operation has the word's tag, or an operand of its operation has a type without a meaning.
Such a type counts only in a slot that the operation uses, and only where the operation leaves the
type of the slot to the word. -/
def IsMalformed (i : Instruction) : Prop :=
  i.opcode = .invalid ∨
    ∃ slot ∈ i.opcode.template.slots.zipIdx, slot.1.resolveType (i.typeAt slot.2) = .unsupported

instance : DecidablePred IsMalformed := fun i => inferInstanceAs (Decidable (i.opcode = .invalid ∨
  ∃ slot ∈ i.opcode.template.slots.zipIdx, slot.1.resolveType (i.typeAt slot.2) = .unsupported))

end Instruction

namespace Machine

variable {m : Machine}

/-- The operands of an instruction have the types that its slots resolve to. -/
theorem all_isSupported_iff (m : Machine) (i : Instruction) (start : Nat) :
    (m.inputs i start ++ m.outputs i start).all (fun operand => operand.shape.type.isSupported) =
        true ↔
      ∀ slot ∈ i.opcode.template.slots.zipIdx,
        slot.1.resolveType (i.typeAt slot.2) ≠ .unsupported := by
  rw [List.all_eq_true]
  constructor
  · rintro hsupported ⟨slot, index⟩ hslot
    have hoperand := m.getElem?_operands i start index
    rw [List.mem_zipIdx_iff_getElem?.mp hslot] at hoperand
    exact bne_iff_ne.mp (hsupported _ (List.mem_of_getElem? hoperand))
  · intro hslots operand hmem
    obtain ⟨index, hoperand⟩ := List.mem_iff_getElem?.mp hmem
    rw [m.getElem?_operands i start index] at hoperand
    obtain ⟨slot, hslot, rfl⟩ := Option.map_eq_some_iff.mp hoperand
    exact bne_iff_ne.mpr (hslots (slot, index) (List.mem_zipIdx_iff_getElem?.mpr hslot))

theorem isRunnable_iff (m : Machine) (i : Instruction) (start : Nat) :
    isRunnable i (m.inputs i start ++ m.outputs i start) = true ↔ ¬ i.IsMalformed := by
  rw [isRunnable, Bool.and_eq_true, bne_iff_ne, m.all_isSupported_iff, Instruction.IsMalformed,
    not_or]
  simp only [not_exists, not_and, ne_eq]

/-- A machine that is awake passes over what cannot run, and executes everything else. -/
theorem step_eq_ite_isMalformed (hsleep : m.sleep = 0) :
    m.step = if m.fetch.IsMalformed then
        (.skipped, m.passed.afterPlaces m.fetch m.pc 0 m.fetch.locatedSlots)
      else (.executed m.fetch.opcode,
        m.performed.1.writeOutputs m.outputOperands m.performed.2) := by
  have hrunnable := m.passed.isRunnable_iff m.fetch m.pc
  have hstepped := m.stepped_step
  generalize m.step = stepped at hstepped ⊢
  obtain ⟨outcome, after⟩ := stepped
  cases hstepped with
  | halted hhalted =>
      rw [hsleep] at hhalted
      exact absurd hhalted (by decide)
  | sleeping _ hpos => omega
  | skipped _ hnot =>
      have hmalformed : m.fetch.IsMalformed := by
        by_contra hwell
        exact Bool.false_ne_true (hnot.symm.trans (hrunnable.mpr hwell))
      exact (if_pos hmalformed).symm
  | executed _ hruns => rw [if_neg (hrunnable.mp hruns)]

/-- A machine that is awake passes over the word at its program counter exactly if the word cannot
run, and else executes it. Passing over it moves the program counter behind the addresses that the
word says follow it, and changes nothing else but devices in ranges that the word or these addresses
are read from. -/
theorem step_skipped_iff (hsleep : m.sleep = 0) :
    (m.step.1 = .skipped ↔ m.fetch.IsMalformed) ∧
      (¬ m.fetch.IsMalformed → m.step.1 = .executed m.fetch.opcode) ∧
      (m.fetch.IsMalformed →
        ∃ memory, m.step.2 = { m with
          memory,
          registers := ⟨wrap (m.pc + (8 + 3 * m.fetch.immediateCount)), m.fp, m.sp⟩ } ∧
        m.memory.Observed memory ∧ (m.memory.mappings = [] → memory = m.memory)) := by
  have hsize : Address.move m.pc m.fetch.size = wrap (m.pc + (8 + 3 * m.fetch.immediateCount)) := by
    rw [Address.move_ofNat, Instruction.size, Nat.mul_comm]
    rfl
  rw [step_eq_ite_isMalformed hsleep]
  by_cases hmalformed : m.fetch.IsMalformed
  · rw [if_pos hmalformed, ← hsize]
    refine ⟨iff_of_true rfl hmalformed, fun hwell => absurd hmalformed hwell, fun _ => ?_⟩
    obtain ⟨memory, hobserved, hafter⟩ := m.exists_located 0 m.fetch.locatedSlots
    exact ⟨memory, hafter, hobserved, hobserved.eq_of_unmapped⟩
  · have houtcome : Outcome.executed m.fetch.opcode ≠ .skipped := by
      intro hsame
      cases hsame
    rw [if_neg hmalformed]
    exact ⟨iff_of_false houtcome hmalformed, fun _ => rfl, fun hbad => absurd hbad hmalformed⟩

/-- A sum of two bytes, whose result has no type, and three addresses behind it. -/
theorem step_skipped_iff_add :
    let m : Machine := { Machine.new ⟨0x40, 0x40, 0x80⟩ default with
      memory := (Memory.ofRam .full).write 0x40 (Bytes.ofWord 8 (Instruction.encode
        ⟨.binary .add, 2, 3, (.u8, .u8, .unsupported), 3, 0⟩)) }
    m.sleep = 0 ∧ m.fetch.IsMalformed ∧
      m.step.1 = .skipped ∧ m.step.2 = { m with registers := ⟨0x51, 0x40, 0x80⟩ } := by
  intro m
  have hsleep : m.sleep = 0 := rfl
  have hmalformed : m.fetch.IsMalformed := by decide +kernel
  have hplace : wrap (m.pc + (8 + 3 * m.fetch.immediateCount)) = 0x51 := by decide +kernel
  obtain ⟨hskipped, -, hafter⟩ := step_skipped_iff hsleep
  obtain ⟨memory, hafter, -, hunmapped⟩ := hafter hmalformed
  have hplain : m.memory.Plain := Memory.plain_full.write _ _
  rw [hplace, hunmapped hplain.mappings_eq] at hafter
  exact ⟨hsleep, hmalformed, hskipped.mpr hmalformed, hafter⟩

/-- An operation that fixes the types of its operands runs whatever types its word names. -/
example :
    ¬ (Instruction.mk .switch 1 0 (.unsupported, .unsupported, .unsupported) 0 0).IsMalformed := by
  decide

end Machine

end VectorStack
