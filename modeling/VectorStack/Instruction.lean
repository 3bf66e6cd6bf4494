import VectorStack.Address
import VectorStack.BitField
import VectorStack.Opcode.Template
/-!
Instruction words. A word holds, lowest field first, the operation, the lane count less one, the
number of operand addresses that follow, three lane types and two sets of operand slots. The main
statement is that decoding an encoded instruction gives it back.
-/

namespace VectorStack

/-- An instruction word taken apart. -/
structure Instruction where
  opcode : Opcode
  /-- Lanes per operand. -/
  width : Nat
  /-- Number of operand addresses that follow the word. -/
  immediateCount : Nat
  /-- The lane type that the instruction names for each operand slot. -/
  types : DataType × DataType × DataType
  /-- Bit `i` is set when slot `i` takes the next operand address. -/
  immediate : Nat
  /-- Bit `i` is set when the address of slot `i` is itself the operand. -/
  inlined : Nat
deriving DecidableEq, Repr

namespace Instruction

/-- Bytes of an encoded word. -/
def wordBytes : Nat := 8

/-- The most lanes an operand can have. -/
def maxWidth : Nat := 8

/-- Sizes of the fields of a word, lowest field first. -/
def fieldSizes : List Nat := [128, 8, 4, 16, 16, 16, 8, 8]

/-- The contents of the fields of a word, lowest field first. -/
def fields (i : Instruction) : List Nat :=
  [i.opcode.tag, i.width + 7, i.immediateCount,
    i.types.1.tag, i.types.2.1.tag, i.types.2.2.tag, i.immediate, i.inlined]

/-- Encode an instruction; a part that does not fit its field keeps only its low bits. -/
def encode (i : Instruction) : UInt64 := UInt64.ofNat (BitField.pack (fieldSizes.zip i.fields))

/-- The instruction whose fields are the given ones. -/
def ofFields : List Nat → Instruction
  | [opcode, width, immediateCount, first, second, third, immediate, inlined] =>
    { opcode := .ofTag opcode, width := width + 1, immediateCount
      types := (.ofTag first, .ofTag second, .ofTag third), immediate, inlined }
  | _ => ⟨.invalid, 1, 0, (.u8, .u8, .u8), 0, 0⟩

/-- Decode a word. Every word decodes; unknown tags give `invalid` and `unsupported`. -/
def decode (word : UInt64) : Instruction := ofFields (BitField.unpack fieldSizes word.toNat)

/-- Bytes from the start of the instruction to the start of the next. -/
def size (i : Instruction) : Nat := wordBytes + i.immediateCount * Address.byteCount

def isImmediate (i : Instruction) (slot : Nat) : Bool := i.immediate.testBit slot

def isInlined (i : Instruction) (slot : Nat) : Bool := i.inlined.testBit slot

/-- The lane type the instruction names for a slot. -/
def typeAt (i : Instruction) : Nat → DataType
  | 0 => i.types.1
  | 1 => i.types.2.1
  | _ => i.types.2.2

/-- Every part fits its field. -/
structure Fits (i : Instruction) : Prop where
  width_pos : 1 ≤ i.width
  width_le : i.width ≤ maxWidth
  immediateCount_lt : i.immediateCount < 4
  immediate_lt : i.immediate < 8
  inlined_lt : i.inlined < 8

theorem fieldSizes_zip (i : Instruction) :
    (fieldSizes.zip i.fields).map Prod.fst = fieldSizes := rfl

theorem fieldSizes_pos (i : Instruction) : ∀ field ∈ fieldSizes.zip i.fields, 0 < field.1 := by
  simp [fieldSizes, fields]

theorem toNat_encode (i : Instruction) :
    i.encode.toNat = BitField.pack (fieldSizes.zip i.fields) := by
  have hlt := BitField.pack_lt (fieldSizes.zip i.fields) i.fieldSizes_pos
  rw [fieldSizes_zip] at hlt
  have hcapacity : BitField.capacity fieldSizes ≤ 2 ^ 64 := by decide
  rw [encode, UInt64.toNat_ofNat', Nat.mod_eq_of_lt (Nat.lt_of_lt_of_le hlt hcapacity)]

/-- Decoding an encoded instruction gives it back. -/
theorem decode_encode {i : Instruction} (hfits : i.Fits) : decode i.encode = i := by
  obtain ⟨opcode, width, immediateCount, ⟨first, second, third⟩, immediate, inlined⟩ := i
  obtain ⟨hpos, hle, hcount, himmediate, hinlined⟩ := hfits
  simp only [maxWidth] at hpos hle hcount himmediate hinlined
  have hfields := BitField.unpack_pack _
    (fieldSizes_pos ⟨opcode, width, immediateCount, (first, second, third), immediate, inlined⟩)
  rw [fieldSizes_zip, ← toNat_encode] at hfields
  have hwidth : (width + 7) % 8 = width - 1 := by omega
  have hback : width - 1 + 1 = width := by omega
  rw [decode, hfields]
  simp [fieldSizes, Instruction.fields, ofFields, Nat.mod_eq_of_lt (Opcode.tag_lt _),
    Opcode.ofTag_tag, Nat.mod_eq_of_lt (DataType.tag_lt _), DataType.ofTag_tag,
    Nat.mod_eq_of_lt hcount, Nat.mod_eq_of_lt himmediate, Nat.mod_eq_of_lt hinlined,
    hwidth, hback]

end Instruction

end VectorStack
