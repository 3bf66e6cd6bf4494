import Mathlib.Algebra.Ring.Nat
import VectorStack.Machine.Operand
import VectorStack.Proofs.Layout.Requests
/-!
Words that planning makes say what was planned. Everything in such a word fits its field, so the
machine decodes the word that was encoded, and a slot takes the next address behind the word, or is
one itself, exactly when its operand was planned that way.
-/

namespace VectorStack

namespace Layout

variable {store : TokenStore} {config : AssemblyConfig} {statement : InstructionStatement}
  {requests after : Array PoolRequest} {word : Instruction}
  {planned : List (DataType × Addressing)} {test : Addressing → Bool}

theorem slotMask_eq_mul (test : Addressing → Bool) (index : Nat)
    (planned : List (DataType × Addressing)) :
    slotMask test index planned = 2 ^ index * slotMask test 0 planned := by
  induction planned generalizing index with
  | nil => rfl
  | cons operand rest ih =>
      rw [slotMask, slotMask, ih (index + 1), ih (0 + 1), Nat.shiftLeft_eq, Nat.shiftLeft_eq,
        Nat.pow_succ, Nat.mul_add, Nat.mul_assoc]
      split <;> simp

theorem slotMask_cons (test : Addressing → Bool) (operand : DataType × Addressing)
    (rest : List (DataType × Addressing)) :
    slotMask test 0 (operand :: rest) =
      (if test operand.2 then 1 else 0) + 2 * slotMask test 0 rest := by
  rw [slotMask, slotMask_eq_mul test (0 + 1)]
  rfl

/-- A set of slots has the slots that the test holds of. -/
theorem testBit_slotMask (test : Addressing → Bool) (planned : List (DataType × Addressing))
    (slot : Nat) :
    (slotMask test 0 planned).testBit slot =
      (planned[slot]?.map fun operand => test operand.2).getD false := by
  induction planned generalizing slot with
  | nil => simp [slotMask]
  | cons operand rest ih =>
      rw [slotMask_cons]
      cases slot with
      | zero =>
          rw [Nat.testBit_zero]
          cases htest : test operand.2 <;> simp [htest, Nat.add_mod]
      | succ slot =>
          have hhalf : ((if test operand.2 then 1 else 0) + 2 * slotMask test 0 rest) / 2 =
              slotMask test 0 rest := by
            split <;> omega
          rw [Nat.testBit_succ, hhalf, ih]
          rfl

theorem slotMask_lt (test : Addressing → Bool) (planned : List (DataType × Addressing)) :
    slotMask test 0 planned < 2 ^ planned.length := by
  induction planned with
  | nil => exact Nat.one_pos
  | cons operand rest ih =>
      rw [slotMask_cons, List.length_cons, Nat.pow_succ]
      split <;> omega

namespace Planned

theorem opcode_eq (hplanned : Planned store config statement requests word planned after) :
    word.opcode = statement.opcode := by
  rw [hplanned.word_eq]
  rfl

/-- Everything in a planned word fits its field. -/
theorem fits (hplanned : Planned store config statement requests word planned after)
    (hstatement : statement.WellFormed) : word.Fits := by
  have hlength : planned.length ≤ 3 := hplanned.length_le
  have hpow : 2 ^ planned.length ≤ 2 ^ 3 := Nat.pow_le_pow_right (by omega) hlength
  have hcount : planned.countP (fun operand => takesAddress operand.2) ≤ planned.length :=
    List.countP_le_length
  rw [hplanned.word_eq]
  constructor
  · exact hstatement.width_pos
  · exact hstatement.width_le
  · exact Nat.lt_of_le_of_lt (Nat.le_trans hcount hlength) (by omega)
  · exact Nat.lt_of_lt_of_le (slotMask_lt takesAddress planned) hpow
  · exact Nat.lt_of_lt_of_le (slotMask_lt isInlined planned) hpow

theorem isImmediate_eq (hplanned : Planned store config statement requests word planned after)
    (slot : Nat) :
    word.isImmediate slot =
      (planned[slot]?.map fun operand => takesAddress operand.2).getD false := by
  rw [hplanned.word_eq]
  exact testBit_slotMask takesAddress planned slot

theorem isInlined_eq (hplanned : Planned store config statement requests word planned after)
    (slot : Nat) :
    word.isInlined slot =
      (planned[slot]?.map fun operand => isInlined operand.2).getD false := by
  rw [hplanned.word_eq]
  exact testBit_slotMask isInlined planned slot

/-- The addresses behind the word belong to the slots in their order. -/
theorem addressesBefore_eq
    (hplanned : Planned store config statement requests word planned after) (slot : Nat)
    (hslot : slot ≤ planned.length) :
    word.addressesBefore slot =
      ((planned.map Prod.snd).take slot).countP takesAddress := by
  induction slot with
  | zero => rfl
  | succ slot ih =>
      have hinside : slot < planned.length := hslot
      have htake : (planned.map Prod.snd).take (slot + 1) =
          (planned.map Prod.snd).take slot ++ [planned[slot].2] := by
        rw [List.take_succ_eq_append_getElem (by simpa using hinside), List.getElem_map]
      have hbefore := ih (Nat.le_of_lt hinside)
      unfold Instruction.addressesBefore at hbefore ⊢
      rw [List.range_succ, List.countP_append, hbefore, htake, List.countP_append,
        List.countP_singleton, List.countP_singleton, hplanned.isImmediate_eq,
        List.getElem?_eq_getElem hinside]
      rfl

/-- The shape of an operand is the one that was planned. -/
theorem shape_eq (hplanned : Planned store config statement requests word planned after)
    {index : Nat} {slot : Slot} {type : DataType} {addressing : Addressing}
    (hoperand : planned[index]? = some (type, addressing))
    (htype : operandType store config statement index slot = .ok type) :
    word.shape index slot = ⟨type, slot.resolveWidth statement.width⟩ := by
  have hwidth : word.width = statement.width := by
    rw [hplanned.word_eq]
    rfl
  have hresolved : slot.resolveType type = type := by
    rw [Slot.resolveType]
    cases hforced : slot.type with
    | none => rfl
    | some forced =>
        rw [operandType, hforced] at htype
        cases htype
        rfl
  rw [Instruction.shape, hplanned.typeAt_eq hoperand, hresolved, hwidth]

end Planned

end Layout

end VectorStack
