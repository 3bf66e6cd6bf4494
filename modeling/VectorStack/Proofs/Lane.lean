import Mathlib.Algebra.Ring.Nat
import VectorStack.Address
import VectorStack.LaneVector
/-!
Lanes that come back from memory. A lane that was written is read back reduced to what its type
can hold, and copies of one lane are read back as that lane every time. Bytes that were read as
lanes are written again as these bytes.
-/

namespace VectorStack

open Address (wrap)

/-- Extending a number of this many bits keeps its two's complement reading. -/
theorem signExtend_eq {bits : Nat} {value : UInt64} (hpos : 0 < bits) (hlt : bits < 64)
    (hvalue : value.toNat < 2 ^ bits) :
    signExtend bits value = Cell.ofInt (Int.bmod value.toNat (2 ^ bits)) := by
  have hhalf : 2 ^ bits = 2 * 2 ^ (bits - 1) := by
    rw [← Nat.pow_succ', Nat.succ_eq_add_one, Nat.sub_add_cancel hpos]
  have hmod : (value.toNat : Int) % ((2 ^ bits : Nat) : Int) = value.toNat := by
    apply Int.emod_eq_of_lt (Int.natCast_nonneg _)
    exact_mod_cast hvalue
  have hcell := Cell.toNat_ofInt (Int.bmod value.toNat (2 ^ bits))
  rw [Int.bmod_def, hmod] at hcell
  apply UInt64.toNat_inj.mp
  rw [Int.bmod_def, hmod, signExtend]
  by_cases hhigh : 2 ^ (bits - 1) ≤ value.toNat
  · have htest : value.toNat.testBit (bits - 1) = true := by
      apply Nat.testBit_of_two_pow_le_and_two_pow_add_one_gt hhigh
      rw [Nat.sub_add_cancel hpos]
      exact hvalue
    have hle : 2 ^ bits ≤ 2 ^ 64 := Nat.pow_le_pow_right (by decide) (Nat.le_of_lt hlt)
    have hwhole : (2 : Nat) ^ 64 = 2 ^ bits * 2 ^ (64 - bits) := by
      rw [← Nat.pow_add, Nat.add_sub_cancel' (Nat.le_of_lt hlt)]
    have hmask : ((0xffffffffffffffff : UInt64) <<< UInt64.ofNat bits).toNat =
        2 ^ bits * (2 ^ (64 - bits) - 1) := by
      have hbits : (UInt64.ofNat bits).toNat % 64 = bits := by
        rw [UInt64.toNat_ofNat']
        omega
      have hones : 18446744073709551615 * 2 ^ bits % 2 ^ 64 = 2 ^ 64 - 2 ^ bits := by
        have := Nat.two_pow_pos bits
        omega
      rw [UInt64.toNat_shiftLeft, hbits, Nat.shiftLeft_eq, Nat.mul_sub, ← hwhole, Nat.mul_one]
      exact hones
    -- the mask has none of the bits of the number, so putting them together adds them
    rw [if_pos htest, UInt64.toNat_or, hmask, Nat.or_comm, ← Nat.two_pow_add_eq_or_of_lt hvalue,
      Nat.mul_sub, ← hwhole, Nat.mul_one]
    omega
  · have htest : value.toNat.testBit (bits - 1) = false := by
      apply Nat.testBit_lt_two_pow
      omega
    rw [htest, if_neg (by decide)]
    have := value.toNat_lt
    omega

theorem Bytes.toWord_ofNat (count n : Nat) :
    Bytes.toWord count (Bytes.ofNat count n) = UInt64.ofNat (n % 2 ^ (count * 8)) := by
  have htake : (Bytes.ofNat count n).take count = Bytes.ofNat count n :=
    List.take_of_length_le (Nat.le_of_eq (Bytes.length_ofNat count n))
  have hpow : Nat.pow 256 count = 2 ^ (count * 8) := by
    rw [Nat.mul_comm, Nat.pow_mul]
    rfl
  rw [Bytes.toWord_eq, htake, Bytes.toNat_ofNat, hpow]

theorem signExtend_low {bits : Nat} (hpos : 0 < bits) (hlt : bits < 64) (cell : Cell) :
    signExtend bits (UInt64.ofNat (cell.toNat % 2 ^ bits)) =
      Cell.ofInt (Int.bmod cell.toNat (2 ^ bits)) := by
  have hle : 2 ^ bits ≤ 2 ^ 64 := Nat.pow_le_pow_right (by decide) (Nat.le_of_lt hlt)
  have hlow := Nat.mod_lt cell.toNat (Nat.two_pow_pos bits)
  have hvalue : (UInt64.ofNat (cell.toNat % 2 ^ bits)).toNat = cell.toNat % 2 ^ bits :=
    UInt64.toNat_ofNat_of_lt' (Nat.lt_of_lt_of_le hlow hle)
  have hbmod : Int.bmod ((cell.toNat % 2 ^ bits : Nat) : Int) (2 ^ bits) =
      Int.bmod cell.toNat (2 ^ bits) := by
    rw [Int.natCast_emod, Int.emod_bmod]
  rw [signExtend_eq hpos hlt (by rw [hvalue]; exact hlow), hvalue, hbmod]

theorem Bytes.ofNat_mod (count n : Nat) :
    Bytes.ofNat count (n % Nat.pow 256 count) = Bytes.ofNat count n := by
  have hback := Bytes.ofNat_toNat (Bytes.ofNat count n)
  rw [Bytes.length_ofNat, Bytes.toNat_ofNat] at hback
  exact hback

/-- The bytes of a word that was read from bytes are these bytes. -/
theorem Bytes.ofWord_toWord {count : Nat} {bytes : Bytes} (hcount : count ≤ 8)
    (hlength : count ≤ bytes.length) :
    Bytes.ofWord count (Bytes.toWord count bytes) = bytes.take count := by
  have htake : (bytes.take count).length = count := List.length_take_of_le hlength
  have hlt := Bytes.toNat_lt (bytes.take count)
  have hpow : Nat.pow 256 count ≤ 2 ^ 64 := Nat.pow_le_pow_right (by decide : 0 < 256) hcount
  rw [htake] at hlt
  rw [Bytes.ofWord_eq, Bytes.toWord_eq, UInt64.toNat_ofNat_of_lt' (Nat.lt_of_lt_of_le hlt hpow)]
  have hback := Bytes.ofNat_toNat (bytes.take count)
  rw [htake] at hback
  exact hback

/-- Sign extension keeps the low bytes. -/
theorem Bytes.ofWord_signExtend {count : Nat} {value : UInt64} (hpos : 0 < count) (hlt : count < 8)
    (hvalue : value.toNat < 2 ^ (count * 8)) :
    Bytes.ofWord count (signExtend (count * 8) value) = Bytes.ofWord count value := by
  have hdvd : ((2 ^ (count * 8) : Nat) : Int) ∣ 0x10000000000000000 := by
    have hpow : (2 : Nat) ^ (count * 8) ∣ 2 ^ 64 := Nat.pow_dvd_pow 2 (by omega)
    exact_mod_cast hpow
  have hcell := Cell.toNat_ofInt (Int.bmod value.toNat (2 ^ (count * 8)))
  have hmod : (Cell.ofInt (Int.bmod value.toNat (2 ^ (count * 8)))).toNat % 2 ^ (count * 8) =
      value.toNat % 2 ^ (count * 8) := by
    apply Int.natCast_inj.mp
    rw [Int.natCast_emod, hcell, Int.emod_emod_of_dvd _ hdvd, Int.natCast_emod]
    exact Int.bmod_emod
  have hpow : Nat.pow 256 count = 2 ^ (count * 8) := by
    rw [Nat.mul_comm, Nat.pow_mul]
    rfl
  rw [signExtend_eq (by omega) (by omega) hvalue, Bytes.ofWord_eq, Bytes.ofWord_eq,
    ← Bytes.ofNat_mod, hpow, hmod, ← hpow, Bytes.ofNat_mod]

namespace DataType

/-- What a type holds of a cell: an integer modulo the bits of the type, a float rounded to it. -/
def narrow (type : DataType) (cell : Cell) : Cell :=
  match type with
  | f32 => Binary64.ofSingle (Binary64.toSingle cell)
  | i8 | i16 | i32 => Cell.ofInt (Int.bmod cell.toNat (2 ^ (type.size * 8)))
  | _ => UInt64.ofNat (cell.toNat % 2 ^ (type.size * 8))

/-- A lane comes back from its bytes as what its type holds of it. -/
theorem decodeLane_encodeLane (type : DataType) (cell : Cell) :
    type.decodeLane (type.encodeLane cell) = type.narrow cell := by
  cases type with
  | i8 | i16 | i32 =>
      simp only [decodeLane, encodeLane, Bytes.ofWord_eq, Bytes.toWord_ofNat]
      exact signExtend_low (by decide) (by decide) cell
  | f32 =>
      have hsingle : (UInt64.ofNat (Binary64.toSingle cell).toNat).toUInt32 =
          Binary64.toSingle cell := by
        apply UInt32.toNat_inj.mp
        have := (Binary64.toSingle cell).toNat_lt
        rw [UInt64.toNat_toUInt32, UInt64.toNat_ofNat']
        omega
      have hword : Bytes.toWord 4 (Bytes.ofNat 4 (Binary64.toSingle cell).toNat) =
          UInt64.ofNat (Binary64.toSingle cell).toNat := by
        rw [Bytes.toWord_ofNat, Nat.mod_eq_of_lt (Binary64.toSingle cell).toNat_lt]
      change Binary64.ofSingle (Bytes.toWord 4 _).toUInt32 = _
      rw [encodeLane, hword, hsingle, narrow]
  | u8 | u16 | u32 | u64 | i64 | f64 | p24 | unsupported =>
      simp only [decodeLane, encodeLane, Bytes.ofWord_eq, Bytes.toWord_ofNat]
      rfl

/-- The bytes of a lane that was read from bytes are these bytes, except that a float may have
another pattern. -/
theorem encodeLane_decodeLane {type : DataType} (hfloat : type ≠ f32) {bytes : Bytes}
    (hlength : type.size ≤ bytes.length) :
    type.encodeLane (type.decodeLane bytes) = bytes.take type.size := by
  have hback := Bytes.ofWord_toWord type.size_le hlength
  cases type with
  | f32 => exact absurd rfl hfloat
  | i8 | i16 | i32 =>
      rw [← hback]
      apply Bytes.ofWord_signExtend (by decide) (by decide)
      rw [Bytes.toWord_eq]
      refine Nat.lt_of_le_of_lt (Nat.mod_le _ _) (Nat.lt_of_lt_of_le (Bytes.toNat_lt _) ?_)
      rw [List.length_take_of_le hlength]
      decide
  | u8 | u16 | u32 | u64 | i64 | f64 | p24 | unsupported => exact hback

theorem flatMap_encodeLane_decodeLanes {type : DataType} (hfloat : type ≠ f32) {count : Nat}
    {bytes : Bytes} (hlength : bytes.length = type.size * count) :
    (type.decodeLanes count bytes).flatMap type.encodeLane = bytes := by
  induction count generalizing bytes with
  | zero => exact (List.length_eq_zero_iff.mp hlength).symm
  | succ count ih =>
      rw [Nat.mul_succ] at hlength
      have hrest : (bytes.drop type.size).length = type.size * count := by
        rw [List.length_drop]
        omega
      rw [decodeLanes, List.flatMap_cons, encodeLane_decodeLane hfloat (by omega), ih hrest,
        List.take_append_drop]

theorem decodeLane_append (type : DataType) {once more : Bytes}
    (hlength : once.length = type.size) :
    type.decodeLane (once ++ more) = type.decodeLane once := by
  have hword : Bytes.toWord type.size (once ++ more) = Bytes.toWord type.size once := by
    rw [Bytes.toWord_eq, Bytes.toWord_eq, ← hlength, List.take_left, List.take_length]
  unfold decodeLane
  rw [hword]

/-- Copies of a lane are read back as that lane, every time. -/
theorem decodeLanes_replicate (type : DataType) {once : Bytes}
    (hlength : once.length = type.size) (count : Nat) :
    type.decodeLanes count (List.replicate count once).flatten =
      List.replicate count (type.decodeLane once) := by
  induction count with
  | zero => rfl
  | succ count ih =>
      rw [List.replicate_succ, List.flatten_cons, decodeLanes, type.decodeLane_append hlength,
        ← hlength, List.drop_left, ih]
      rfl

/-- An address read as a lane is the address. -/
theorem decodeLanes_address (address : Nat) :
    p24.decodeLanes 1 (Bytes.ofNat Address.byteCount address) =
      [UInt64.ofNat (wrap address)] := by
  change [Bytes.toWord Address.byteCount (Bytes.ofNat Address.byteCount address)] = _
  rw [Bytes.toWord_ofNat]
  rfl

end DataType

/-- The first lane of a vector in memory. -/
theorem LaneVector.lane_zero_ofBytes {type : DataType} {width : Nat} (hpos : 1 ≤ width)
    (bytes : Bytes) : (LaneVector.ofBytes type width bytes).lane 0 = type.decodeLane bytes := by
  obtain ⟨count, rfl⟩ := Nat.exists_eq_add_of_le' hpos
  simp [lane, ofBytes, DataType.decodeLanes]

end VectorStack
