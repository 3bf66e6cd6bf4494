import VectorStack.Proofs.Machine.Step
/-!
Instruction words taken apart and put together again. An instruction comes back from its word, and a
word comes back as it was but for what means nothing: bits above the last field, tags that no
operation has and tags that no type has.
-/

namespace VectorStack

/-- Some operation has the tag. -/
def Opcode.IsTag (n : Nat) : Prop := ∃ op : Opcode, op.tag = n

/-- Some type has the tag. -/
def DataType.IsTag (n : Nat) : Prop := ∃ type : DataType, type.tag = n

theorem Opcode.nodup_operations : operations.Nodup := by
  decide

theorem Opcode.tag_of_ofTag? {n : Nat} {op : Opcode} (hop : ofTag? n = some op) : op.tag = n := by
  by_cases hinvalid : n = invalidTag
  · rw [ofTag?, if_pos hinvalid] at hop
    cases hop
    exact hinvalid.symm
  · rw [ofTag?, if_neg hinvalid, List.getElem?_toArray] at hop
    obtain ⟨hlt, rfl⟩ := List.getElem?_eq_some_iff.mp hop
    have hmem : operations[n] ≠ invalid := fun h =>
      absurd (h ▸ List.getElem_mem hlt : invalid ∈ operations) (by decide)
    rw [tag, if_neg hmem]
    exact nodup_operations.idxOf_getElem n hlt

theorem Opcode.isTag_iff (n : Nat) : IsTag n ↔ (ofTag? n).isSome := by
  constructor
  · rintro ⟨op, rfl⟩
    rw [ofTag?_tag]
    rfl
  · intro hsome
    obtain ⟨op, hop⟩ := Option.isSome_iff_exists.mp hsome
    exact ⟨op, tag_of_ofTag? hop⟩

theorem DataType.tag_of_ofTag? {n : Nat} {type : DataType} (htype : ofTag? n = some type) :
    type.tag = n := by
  have hfound := List.find?_some htype
  exact beq_iff_eq.mp hfound

theorem DataType.isTag_iff (n : Nat) : IsTag n ↔ (ofTag? n).isSome := by
  constructor
  · rintro ⟨type, rfl⟩
    rw [ofTag?_tag]
    rfl
  · intro hsome
    obtain ⟨type, htype⟩ := Option.isSome_iff_exists.mp hsome
    exact ⟨type, tag_of_ofTag? htype⟩

instance : DecidablePred Opcode.IsTag := fun n => decidable_of_iff _ (Opcode.isTag_iff n).symm

instance : DecidablePred DataType.IsTag := fun n => decidable_of_iff _ (DataType.isTag_iff n).symm

/-- A tag that no operation has becomes that of `invalid`. -/
theorem Opcode.tag_ofTag (n : Nat) : (ofTag n).tag = if IsTag n then n else 127 := by
  rw [ofTag]
  cases hop : ofTag? n with
  | none =>
      rw [if_neg (by simp [isTag_iff, hop])]
      rfl
  | some op =>
      rw [if_pos (by simp [isTag_iff, hop])]
      exact tag_of_ofTag? hop

/-- A tag that no type has becomes that of `unsupported`. -/
theorem DataType.tag_ofTag (n : Nat) : (ofTag n).tag = if IsTag n then n else 15 := by
  rw [ofTag]
  cases htype : ofTag? n with
  | none =>
      rw [if_neg (by simp [isTag_iff, htype])]
      rfl
  | some type =>
      rw [if_pos (by simp [isTag_iff, htype])]
      exact tag_of_ofTag? htype

/-- `count` bits of a number from bit `first` on. -/
def bitsAt (first count word : Nat) : Nat := word / 2 ^ first % 2 ^ count

/-- The number with other bits there. -/
def withBits (first count bits word : Nat) : Nat :=
  word - 2 ^ first * bitsAt first count word + 2 ^ first * bits

/-- The number with its bits there replaced if they are no tag. -/
def settleTag (isTag : Nat → Prop) [DecidablePred isTag] (first count fallback word : Nat) : Nat :=
  if isTag (bitsAt first count word) then word else withBits first count fallback word

namespace Instruction

/-- A number with what is no tag replaced where words have their tags. -/
def settleTags (word : Nat) : Nat :=
  settleTag DataType.IsTag 20 4 15 (settleTag DataType.IsTag 16 4 15
    (settleTag DataType.IsTag 12 4 15 (settleTag Opcode.IsTag 0 7 127 word)))

/-- The low thirty bits of a word with what is no tag replaced. -/
def canonical (word : UInt64) : Nat := settleTags (word.toNat % 2 ^ 30)

end Instruction

/-- Bits below and above stay, whatever becomes of a tag. -/
theorem settleTag_eq (isTag : Nat → Prop) [DecidablePred isTag] (first count fallback : Nat)
    {word : Nat} (low high : Nat) {field : Nat} (hlow : low < 2 ^ first)
    (hfield : field < 2 ^ count) (hword : word = low + 2 ^ first * (field + 2 ^ count * high)) :
    settleTag isTag first count fallback word =
      low + 2 ^ first * ((if isTag field then field else fallback) + 2 ^ count * high) := by
  have hbits : bitsAt first count word = field := by
    rw [hword, bitsAt, Nat.add_mul_div_left _ _ (Nat.two_pow_pos first), Nat.div_eq_of_lt hlow,
      Nat.zero_add, Nat.add_mul_mod_self_left, Nat.mod_eq_of_lt hfield]
  rw [settleTag, hbits]
  split
  · exact hword
  · rw [withBits, hbits, hword, Nat.mul_add, Nat.mul_add]
    omega

namespace Instruction

/-- Tags are replaced one by one. -/
theorem settleTags_eq {opcode width count first second third : Nat} (masks : Nat)
    (hopcode : opcode < 128) (hwidth : width < 8) (hcount : count < 4) (hfirst : first < 16)
    (hsecond : second < 16) (hthird : third < 16) :
    settleTags (opcode + 128 * (width + 8 * (count + 4 *
        (first + 16 * (second + 16 * (third + 16 * masks)))))) =
      (Opcode.ofTag opcode).tag + 128 * (width + 8 * (count + 4 *
        ((DataType.ofTag first).tag + 16 * ((DataType.ofTag second).tag + 16 *
          ((DataType.ofTag third).tag + 16 * masks))))) := by
  have hopcode' := Opcode.tag_lt (.ofTag opcode)
  have hfirst' := DataType.tag_lt (.ofTag first)
  have hsecond' := DataType.tag_lt (.ofTag second)
  simp only [Opcode.tag_ofTag, DataType.tag_ofTag] at *
  rw [settleTags, settleTag_eq Opcode.IsTag 0 7 127 0
    (width + 8 * (count + 4 * (first + 16 * (second + 16 * (third + 16 * masks)))))
    (by decide) hopcode (by omega)]
  generalize (if Opcode.IsTag opcode then opcode else 127) = opcode' at *
  rw [settleTag_eq DataType.IsTag 12 4 15 (opcode' + 128 * (width + 8 * count))
    (second + 16 * (third + 16 * masks)) (by omega) hfirst (by omega)]
  generalize (if DataType.IsTag first then first else 15) = first' at *
  rw [settleTag_eq DataType.IsTag 16 4 15 (opcode' + 128 * (width + 8 * (count + 4 * first')))
    (third + 16 * masks) (by omega) hsecond (by omega)]
  generalize (if DataType.IsTag second then second else 15) = second' at *
  rw [settleTag_eq DataType.IsTag 20 4 15
    (opcode' + 128 * (width + 8 * (count + 4 * (first' + 16 * second')))) masks (by omega) hthird
    (by omega)]
  omega

/-- Decoding and encoding a word changes only what means nothing in it. -/
theorem toNat_encode_decode (word : UInt64) : (decode word).encode.toNat = canonical word := by
  have hlow : word.toNat % 2 ^ 30 =
      BitField.pack (fieldSizes.zip (BitField.unpack fieldSizes word.toNat)) :=
    (BitField.pack_unpack fieldSizes word.toNat).symm
  rw [toNat_encode, canonical, hlow]
  simp only [fieldSizes, fields, decode, BitField.unpack, ofFields, List.zip_cons_cons,
    List.zip_nil_left, BitField.pack, Nat.mod_mod, Nat.add_assoc, Nat.add_mod_right,
    Nat.mod_eq_of_lt (Opcode.tag_lt _), Nat.mod_eq_of_lt (DataType.tag_lt _)]
  exact (settleTags_eq _ (Nat.mod_lt _ (by decide)) (Nat.mod_lt _ (by decide))
    (Nat.mod_lt _ (by decide)) (Nat.mod_lt _ (by decide)) (Nat.mod_lt _ (by decide))
    (Nat.mod_lt _ (by decide))).symm

/-- An instruction whose parts fit comes back from its word. Every word decodes to such an
instruction, whose size follows from its count of addresses, and comes back from it with what means
nothing dropped. -/
theorem decode_encode_decode :
    (∀ i : Instruction, i.Fits → decode i.encode = i) ∧
      ∀ word : UInt64, (decode word).Fits ∧
        (decode word).size = 8 + 3 * (decode word).immediateCount ∧
        (decode word).encode.toNat = canonical word ∧
        decode (decode word).encode = decode word := by
  refine ⟨fun i hfits => decode_encode hfits, fun word => ?_⟩
  have hfits := decode_fits word
  refine ⟨hfits, ?_, toNat_encode_decode word, decode_encode hfits⟩
  rw [size, Nat.mul_comm]
  rfl

/-- A word of ones keeps its fields, whose tags are those of `invalid` and `unsupported`. In the
last word the operation and the second type have tags that nothing has. -/
theorem decode_encode_decode_unnamed :
    (⟨.binary .add, 8, 3, (.u8, .p24, .f64), 7, 5⟩ : Instruction).Fits ∧
      decode (encode ⟨.binary .add, 8, 3, (.u8, .p24, .f64), 7, 5⟩) =
        ⟨.binary .add, 8, 3, (.u8, .p24, .f64), 7, 5⟩ ∧
      (decode 0xFFFFFFFFFFFFFFFF).encode.toNat = 2 ^ 30 - 1 ∧
      (decode 0xABCDEF01C09B0DE4).encode.toNat = 0x009F0DFF := by
  have hfits : (⟨.binary .add, 8, 3, (.u8, .p24, .f64), 7, 5⟩ : Instruction).Fits :=
    ⟨by decide, by decide, by decide, by decide, by decide⟩
  obtain ⟨hback, hword⟩ := decode_encode_decode
  refine ⟨hfits, hback _ hfits, ?_, ?_⟩
  · rw [(hword 0xFFFFFFFFFFFFFFFF).2.2.1]
    decide
  · rw [(hword 0xABCDEF01C09B0DE4).2.2.1]
    decide

end Instruction

end VectorStack
