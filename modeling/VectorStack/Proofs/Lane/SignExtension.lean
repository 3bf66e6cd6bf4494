import VectorStack.Proofs.Lane.Buffer
/-!
When the low bits of a word are sign-extended. An extension puts ones above the low bits and never
zeros, and the amount by which its mask is shifted counts modulo 64. So it gives the two's
complement value of the low bits where their sign is set and they are not all bits of a cell, and
where their sign is clear and nothing is set above them.
-/

namespace VectorStack

variable {width bits : Nat}

/-- Sign extension of the low bits of a word of any width, whose sign is looked at before the word
is widened to a cell. -/
def extendWord (value : BitVec width) (bits : Nat) : Cell :=
  let cell := UInt64.ofNat value.toNat
  let sign := BitVec.ofNat width 1 <<< (bits - 1)
  if value &&& sign = 0 then cell
  else cell ||| (0xffffffffffffffff <<< UInt64.ofNat bits)

/-- The cell that stands for the two's complement value of the low bits of a word. -/
def lowSigned (value : BitVec width) (bits : Nat) : Cell := Cell.ofInt (value.setWidth bits).toInt

theorem toNat_ofNat_word (hwidth : width ≤ 64) (value : BitVec width) :
    (UInt64.ofNat value.toNat).toNat = value.toNat :=
  UInt64.toNat_ofNat_of_lt'
    (Nat.lt_of_lt_of_le value.isLt (Nat.pow_le_pow_right (by decide) hwidth))

/-- The mask of the sign finds the bit that it is. -/
theorem and_sign_eq_zero_iff (hpos : 0 < bits) (hle : bits ≤ width) (value : BitVec width) :
    value &&& BitVec.ofNat width 1 <<< (bits - 1) = 0 ↔ value.getLsbD (bits - 1) = false := by
  have hne : BitVec.twoPow width (bits - 1) ≠ BitVec.ofNat width 0 := by
    intro hzero
    have hbit := congrArg (BitVec.getLsbD · (bits - 1)) hzero
    simp at hbit
    omega
  rw [← BitVec.twoPow_eq, BitVec.and_twoPow]
  cases value.getLsbD (bits - 1) <;> simp [hne]

/-- The sign of a word may as well be looked at in the cell that it is widened to. -/
theorem extendWord_eq_signExtend (hpos : 0 < bits) (hle : bits ≤ width) (hwidth : width ≤ 64)
    (value : BitVec width) :
    extendWord value bits = signExtend bits (UInt64.ofNat value.toNat) := by
  have hsign := and_sign_eq_zero_iff hpos hle value
  rw [extendWord, signExtend, toNat_ofNat_word hwidth]
  cases hbit : value.toNat.testBit (bits - 1) with
  | false => exact if_pos (hsign.mpr hbit)
  | true =>
      refine if_neg fun hzero => ?_
      have hclear := hsign.mp hzero
      rw [BitVec.getLsbD, hbit] at hclear
      cases hclear

theorem lowSigned_eq (value : BitVec width) (bits : Nat) :
    lowSigned value bits = Cell.ofInt (Int.bmod value.toNat (2 ^ bits)) := by
  rw [lowSigned, BitVec.toInt_eq_toNat_bmod, BitVec.toNat_setWidth, Int.natCast_emod,
    Int.emod_bmod]

/-- Bits above a sign that is set do not matter, since ones are put there. -/
theorem signExtend_eq_of_sign {value : UInt64} (hlt : bits < 64)
    (hsign : value.toNat.testBit (bits - 1) = true) (hpos : 0 < bits) :
    signExtend bits value = Cell.ofInt (Int.bmod value.toNat (2 ^ bits)) := by
  have hle : 2 ^ bits ≤ 2 ^ 64 := Nat.pow_le_pow_right (by decide) (Nat.le_of_lt hlt)
  have hlow : (UInt64.ofNat (value.toNat % 2 ^ bits)).toNat = value.toNat % 2 ^ bits :=
    UInt64.toNat_ofNat_of_lt'
      (Nat.lt_of_lt_of_le (Nat.mod_lt _ (Nat.two_pow_pos bits)) hle)
  have hlowSign : (value.toNat % 2 ^ bits).testBit (bits - 1) = true := by
    rw [Nat.testBit_mod_two_pow, hsign, Bool.and_true]
    exact decide_eq_true (by omega)
  rw [← signExtend_low hpos hlt, signExtend, signExtend, hlow, hlowSign, if_pos hsign, if_pos rfl]
  apply UInt64.toNat_inj.mp
  apply Nat.eq_of_testBit_eq
  intro index
  by_cases hindex : index < 64
  · rw [UInt64.toNat_or, UInt64.toNat_or, Nat.testBit_or, Nat.testBit_or,
      DataType.testBit_mask hlt hindex, hlow, Nat.testBit_mod_two_pow]
    by_cases hbelow : index < bits
    · simp [hbelow]
    · simp [Nat.not_lt.mp hbelow]
  · have habove : 2 ^ 64 ≤ 2 ^ index := Nat.pow_le_pow_right (by decide) (Nat.not_lt.mp hindex)
    have hcell (cell : UInt64) : cell.toNat.testBit index = false :=
      Nat.testBit_lt_two_pow (Nat.lt_of_lt_of_le cell.toNat_lt habove)
    rw [hcell, hcell]

/-- Shifted by 64, the mask of an extension is still all ones. -/
theorem signExtend_whole {value : UInt64} (hsign : value.toNat.testBit 63 = true) :
    signExtend 64 value = 0xffffffffffffffff := by
  have hmask : (0xffffffffffffffff : UInt64) <<< UInt64.ofNat 64 = -1 := by decide
  have hones : (0xffffffffffffffff : UInt64) = -1 := by decide
  rw [signExtend, if_pos hsign, hmask, hones]
  exact UInt64.or_neg_one

/-- The two's complement value of low bits whose sign is clear is the number that they are. -/
theorem bmod_of_sign {n : Nat} (hpos : 0 < bits) (hsign : n.testBit (bits - 1) = false) :
    Int.bmod n (2 ^ bits) = ((n % 2 ^ bits : Nat) : Int) := by
  have hhalf : 2 ^ bits = 2 * 2 ^ (bits - 1) := by
    rw [← Nat.pow_succ', Nat.succ_eq_add_one, Nat.sub_add_cancel hpos]
  have hlow := Nat.mod_lt n (Nat.two_pow_pos bits)
  have hbelow : n % 2 ^ bits < 2 ^ (bits - 1) := by
    by_contra hhigh
    have hset : (n % 2 ^ bits).testBit (bits - 1) = true := by
      apply Nat.testBit_of_two_pow_le_and_two_pow_add_one_gt (Nat.le_of_not_lt hhigh)
      rw [Nat.sub_add_cancel hpos]
      exact hlow
    rw [Nat.testBit_mod_two_pow, hsign, Bool.and_false] at hset
    cases hset
  rw [Int.bmod_def, ← Int.natCast_emod]
  exact if_pos (by omega)

/-- What is extended is the number itself where the sign is clear, so nothing may be set above. -/
theorem signExtend_eq_iff_of_sign {value : UInt64} (hpos : 0 < bits) (hle : bits ≤ 64)
    (hsign : value.toNat.testBit (bits - 1) = false) :
    signExtend bits value = Cell.ofInt (Int.bmod value.toNat (2 ^ bits)) ↔
      value.toNat < 2 ^ bits := by
  have hpow : 2 ^ bits ≤ 2 ^ 64 := Nat.pow_le_pow_right (by decide) hle
  have hmod := Nat.mod_lt value.toNat (Nat.two_pow_pos bits)
  have hmeant := Cell.toNat_ofInt (value.toNat % 2 ^ bits : Nat)
  have hunset : ¬ value.toNat.testBit (bits - 1) = true := by simp [hsign]
  rw [signExtend, if_neg hunset, bmod_of_sign hpos hsign, ← UInt64.toNat_inj]
  constructor
  · intro heq
    omega
  · intro hlt
    have hsame := Nat.mod_eq_of_lt hlt
    omega

/-- A whole cell with its sign set is extended to all ones, whatever the rest of it is. -/
theorem signExtend_whole_eq_iff {value : UInt64} (hsign : value.toNat.testBit 63 = true) :
    signExtend 64 value = Cell.ofInt (Int.bmod value.toNat (2 ^ 64)) ↔
      value = 0xffffffffffffffff := by
  have hmeant : Cell.ofInt (Int.bmod value.toNat (2 ^ 64)) = value := by
    have hcell := Cell.toNat_ofInt (Int.bmod value.toNat (2 ^ 64))
    have hlt := value.toNat_lt
    have hmod : Int.bmod value.toNat (2 ^ 64) % 0x10000000000000000 = value.toNat % 2 ^ 64 :=
      Int.bmod_emod
    apply UInt64.toNat_inj.mp
    omega
  rw [signExtend_whole hsign, hmeant, eq_comm]

/-- Sign extension of the low bits of a word gives their two's complement value exactly where their
sign is set and they are fewer than 64, and where it is clear and nothing is set above them. Where
the sign is clear the word stays as it is, and 64 bits whose sign is set become all ones. -/
theorem extendWord_eq_lowSigned_iff (hwidth : width ∈ [8, 16, 32, 64]) (hpos : 0 < bits)
    (hle : bits ≤ width) (value : BitVec width) :
    extendWord value bits = signExtend bits (UInt64.ofNat value.toNat) ∧
    (extendWord value bits = lowSigned value bits ↔
      if value.getLsbD (bits - 1) then bits < 64 ∨ value.toNat = 2 ^ 64 - 1
      else value.toNat < 2 ^ bits) ∧
    (value.getLsbD (bits - 1) = false → extendWord value bits = UInt64.ofNat value.toNat) ∧
    (value.getLsbD (bits - 1) = true → bits = 64 → extendWord value bits = 0xffffffffffffffff) := by
  have hcell : width ≤ 64 := by
    simp only [List.mem_cons, List.not_mem_nil, or_false] at hwidth
    omega
  have hsame := extendWord_eq_signExtend hpos hle hcell value
  have hvalue := toNat_ofNat_word hcell value
  have hmeant : lowSigned value bits =
      Cell.ofInt (Int.bmod (UInt64.ofNat value.toNat).toNat (2 ^ bits)) := by
    rw [lowSigned_eq, hvalue]
  have hbit : value.getLsbD (bits - 1) = (UInt64.ofNat value.toNat).toNat.testBit (bits - 1) := by
    rw [hvalue, BitVec.getLsbD]
  refine ⟨hsame, ?_, ?_, ?_⟩
  · rw [hsame, hmeant, hbit]
    cases hsign : (UInt64.ofNat value.toNat).toNat.testBit (bits - 1) with
    | false => simpa [hvalue] using signExtend_eq_iff_of_sign hpos (hle.trans hcell) hsign
    | true =>
        by_cases hlt : bits < 64
        · simpa [hlt] using signExtend_eq_of_sign hlt hsign hpos
        · obtain rfl : bits = 64 := by omega
          simpa [← UInt64.toNat_inj, hvalue] using signExtend_whole_eq_iff hsign
  · intro hsign
    rw [hsame, signExtend, ← hbit, hsign]
    rfl
  · rintro hsign rfl
    rw [hsame]
    exact signExtend_whole (hbit.symm.trans hsign)

/-- Twelve bits of a word of 16 are negative, whatever is set above them. -/
theorem extendWord_eq_lowSigned_above :
    16 ∈ [8, 16, 32, 64] ∧ 0 < 12 ∧ 12 ≤ 16 ∧
      extendWord 0xa801#16 12 = lowSigned 0xa801#16 12 ∧
      lowSigned 0xa801#16 12 = 0xfffffffffffff801 := by
  have hexact := extendWord_eq_lowSigned_iff (by decide : 16 ∈ [8, 16, 32, 64])
    (by decide : 0 < 12) (by decide) 0xa801#16
  exact ⟨by decide, by decide, by decide, hexact.2.1.mpr (.inl (by decide)), by decide⟩

/-- The least number of 64 bits becomes minus one, and four bits of a byte keep what is above. -/
theorem extendWord_ne_lowSigned :
    extendWord 0x8000000000000000#64 64 ≠ lowSigned 0x8000000000000000#64 64 ∧
      extendWord 0x8000000000000000#64 64 = 0xffffffffffffffff ∧
      extendWord 0x10#8 4 ≠ lowSigned 0x10#8 4 ∧ extendWord 0x10#8 4 = 0x10 := by
  decide

end VectorStack
