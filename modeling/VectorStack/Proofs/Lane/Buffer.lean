import Mathlib.Data.Nat.Bitwise
import VectorStack.Proofs.Arithmetic.Integer
/-!
Lane vectors in buffers. Lanes are written over a buffer one after another, each at its own place,
and what is behind them in the buffer stays. Bytes that are read as lanes and written again are the
same bytes, and lanes that are written and read again are cut to the bits of their type and extended
again, which nothing more happens to when they go through a buffer another time.
-/

namespace VectorStack

/-- Put bytes over those at a place of a buffer. -/
def Bytes.overwrite (buffer : Bytes) (place : Nat) (bytes : Bytes) : Bytes :=
  buffer.take place ++ bytes ++ buffer.drop (place + bytes.length)

/-- Bytes behind others in a buffer are put over what comes next. -/
theorem Bytes.overwrite_append (front buffer bytes : Bytes) :
    Bytes.overwrite (front ++ buffer) front.length bytes =
      front ++ bytes ++ buffer.drop bytes.length := by
  rw [overwrite, List.take_left, ← List.drop_drop, List.drop_left]

namespace DataType

/-- The bits of a cell that is cut to a type and extended again. A signed type repeats its highest
bit above those that it has, and all others have zeros there. -/
def extendedBit (type : DataType) (cell : Cell) (index : Nat) : Bool :=
  if index < type.bits then cell.toNat.testBit index
  else type.mode == .signed && cell.toNat.testBit (type.bits - 1)

/-- The mask of an extension has the bits above those that are extended. -/
theorem testBit_mask {bits index : Nat} (hlt : bits < 64) (hindex : index < 64) :
    ((0xffffffffffffffff : UInt64) <<< UInt64.ofNat bits).toNat.testBit index =
      decide (bits ≤ index) := by
  have hbits : (UInt64.ofNat bits).toNat % 64 = bits := by
    rw [UInt64.toNat_ofNat']
    omega
  have hones : (0xffffffffffffffff : UInt64).toNat = 2 ^ 64 - 1 := rfl
  have hbelow : index - bits < 64 := by omega
  rw [UInt64.toNat_shiftLeft, hbits, hones, Nat.testBit_mod_two_pow, Nat.testBit_shiftLeft,
    Nat.testBit_two_pow_sub_one]
  simp [hindex, hbelow]

/-- The bits of a number and copies of its highest one above them. -/
theorem testBit_signExtend {bits : Nat} {value : UInt64} (hlt : bits < 64) {index : Nat}
    (hindex : index < 64) (hvalue : value.toNat < 2 ^ bits) :
    (signExtend bits value).toNat.testBit index =
      if index < bits then value.toNat.testBit index else value.toNat.testBit (bits - 1) := by
  have hmask := testBit_mask hlt hindex
  have habove (hge : bits ≤ index) : value.toNat.testBit index = false :=
    Nat.testBit_lt_two_pow (Nat.lt_of_lt_of_le hvalue (Nat.pow_le_pow_right (by decide) hge))
  rw [signExtend]
  by_cases hhigh : value.toNat.testBit (bits - 1) = true
  · rw [if_pos hhigh, UInt64.toNat_or, Nat.testBit_or, hmask]
    by_cases hbelow : index < bits
    · simp [hbelow, Nat.not_le.mpr hbelow]
    · simp [hbelow, Nat.not_lt.mp hbelow, hhigh]
  · rw [if_neg hhigh]
    by_cases hbelow : index < bits
    · rw [if_pos hbelow]
    · rw [if_neg hbelow, habove (Nat.not_lt.mp hbelow), Bool.eq_false_iff.mpr hhigh]

variable {type : DataType} {cell : Cell}

/-- What a type keeps of a cell, bit for bit. -/
theorem testBit_narrow (hfloat : type ≠ f32) {index : Nat} (hindex : index < 64) :
    (type.narrow cell).toNat.testBit index = type.extendedBit cell index := by
  have hbits : type.bits ≤ 64 := Nat.mul_le_mul_right 8 type.size_le
  have hlow : (UInt64.ofNat (cell.toNat % 2 ^ type.bits)).toNat = cell.toNat % 2 ^ type.bits := by
    have hle : 2 ^ type.bits ≤ 2 ^ 64 := Nat.pow_le_pow_right (by decide) hbits
    have hmod := Nat.mod_lt cell.toNat (Nat.two_pow_pos type.bits)
    exact UInt64.toNat_ofNat_of_lt' (Nat.lt_of_lt_of_le hmod hle)
  have hmod (place : Nat) : (cell.toNat % 2 ^ type.bits).testBit place =
      (decide (place < type.bits) && cell.toNat.testBit place) := Nat.testBit_mod_two_pow ..
  have hcut (hmode : type.mode ≠ .signed ∨ type.bits = 64)
      (hnarrow : type.narrow cell = UInt64.ofNat (cell.toNat % 2 ^ type.bits)) :
      (type.narrow cell).toNat.testBit index = type.extendedBit cell index := by
    rw [hnarrow, hlow, hmod, extendedBit]
    by_cases hbelow : index < type.bits
    · simp [hbelow]
    · have hunsigned : (type.mode == .signed) = false := by
        rcases hmode with hmode | hwhole
        · exact beq_false_of_ne hmode
        · omega
      simp [hbelow, hunsigned]
  have hextend (hmode : type.mode = .signed) (hpos : 0 < type.bits) (hlt : type.bits < 64)
      (hnarrow : type.narrow cell = Cell.ofInt (Int.bmod cell.toNat (2 ^ type.bits))) :
      (type.narrow cell).toNat.testBit index = type.extendedBit cell index := by
    have hvalue := Nat.mod_lt cell.toNat (Nat.two_pow_pos type.bits)
    rw [← hlow] at hvalue
    rw [hnarrow, ← signExtend_low hpos hlt, testBit_signExtend hlt hindex hvalue, hlow, hmod, hmod,
      extendedBit]
    have htop : type.bits - 1 < type.bits := by omega
    by_cases hbelow : index < type.bits
    · simp [hbelow]
    · simp [hbelow, htop, hmode]
  cases type with
  | f32 => exact absurd rfl hfloat
  | i8 | i16 | i32 => exact hextend rfl (by decide) (by decide) rfl
  | u8 | u16 | u32 | u64 | p24 | f64 | unsupported => exact hcut (.inl (by decide)) rfl
  | i64 => exact hcut (.inr rfl) rfl

/-- Types of 64 bits keep all of a cell. -/
theorem narrow_of_size_eq (hsize : type.size = 8) (cell : Cell) : type.narrow cell = cell := by
  have hword : UInt64.ofNat (cell.toNat % 2 ^ 64) = cell := by
    rw [Nat.mod_eq_of_lt cell.toNat_lt, UInt64.ofNat_toNat]
  cases type with
  | u64 | i64 | f64 => exact hword
  | _ => cases hsize

/-- What a type keeps of a cell, it keeps all of. -/
theorem narrow_narrow (hfloat : type ≠ f32) (cell : Cell) :
    type.narrow (type.narrow cell) = type.narrow cell := by
  rw [← decodeLane_encodeLane type cell, ← decodeLane_encodeLane,
    encodeLane_decodeLane hfloat (Nat.le_of_eq (length_encodeLane type cell).symm),
    ← length_encodeLane type cell, List.take_length]

theorem decodeLanes_flatMap_encodeLane (type : DataType) (cells : List Cell) (more : Bytes) :
    type.decodeLanes cells.length (cells.flatMap type.encodeLane ++ more) =
      cells.map type.narrow := by
  induction cells with
  | nil => rfl
  | cons cell rest ih =>
      have hlength := type.length_encodeLane cell
      rw [List.flatMap_cons, List.append_assoc, List.length_cons, decodeLanes,
        type.decodeLane_append hlength, decodeLane_encodeLane, ← hlength, List.drop_left, ih]
      rfl

/-- Lanes are read from their own bytes, whatever is behind these. -/
theorem decodeLanes_take (type : DataType) (count : Nat) (bytes : Bytes) :
    type.decodeLanes count (bytes.take (type.size * count)) = type.decodeLanes count bytes := by
  have hlane (bytes : Bytes) : type.decodeLane (bytes.take type.size) = type.decodeLane bytes := by
    have hword : Bytes.toWord type.size (bytes.take type.size) = Bytes.toWord type.size bytes := by
      rw [Bytes.toWord_eq, Bytes.toWord_eq, List.take_take, Nat.min_self]
    unfold decodeLane
    rw [hword]
  induction count generalizing bytes with
  | zero => rfl
  | succ count ih =>
      have hfirst : (bytes.take (type.size * (count + 1))).take type.size =
          bytes.take type.size := by
        rw [List.take_take, Nat.min_eq_left (Nat.le_mul_of_pos_right _ (Nat.succ_pos count))]
      have hrest : (bytes.take (type.size * (count + 1))).drop type.size =
          (bytes.drop type.size).take (type.size * count) := by
        rw [List.drop_take, Nat.mul_succ, Nat.add_sub_cancel]
      rw [decodeLanes, decodeLanes, ← hlane, hfirst, hlane, hrest, ih]

theorem length_decodeLanes (type : DataType) (count : Nat) (bytes : Bytes) :
    (type.decodeLanes count bytes).length = count := by
  rw [decodeLanes_eq, List.length_map, List.length_range]

end DataType

namespace LaneVector

/-- Write every lane over a buffer, at its own place. -/
def encodeInto (v : LaneVector) (buffer : Bytes) : Bytes :=
  (List.range v.width).foldl (fun buffer lane =>
    buffer.overwrite (lane * v.type.size) (v.type.encodeLane (v.cells.getD lane 0))) buffer

variable {v : LaneVector} {buffer : Bytes}

/-- The lanes of a vector whose cells are there. -/
theorem lanes_eq_map (hcells : v.width ≤ v.cells.length) :
    v.lanes = (List.range v.width).map fun lane => v.cells.getD lane 0 := by
  apply List.ext_getElem
  · simp [lanes, Nat.min_eq_left hcells]
  · intro lane hlt _
    have hwidth : lane < v.width := Nat.lt_of_lt_of_le hlt (List.length_take_le _ _)
    simp [lanes, List.getElem?_eq_getElem (Nat.lt_of_lt_of_le hwidth hcells)]

theorem length_lanes (hcells : v.width ≤ v.cells.length) : v.lanes.length = v.width :=
  List.length_take_of_le hcells

/-- The lanes in a buffer are the bytes of the vector, and what is behind them stays. -/
theorem encodeInto_eq (hcells : v.width ≤ v.cells.length) (buffer : Bytes) :
    v.encodeInto buffer = v.encode ++ buffer.drop v.byteLength := by
  let written (lane : Nat) : Bytes := v.type.encodeLane (v.cells.getD lane 0)
  have hlength (count : Nat) :
      ((List.range count).flatMap written).length = count * v.type.size := by
    simp [written, List.length_flatMap, List.map_const']
  -- the lanes before a place are in the buffer, and nothing else has changed
  have hprefix (count : Nat) : (List.range count).foldl (fun buffer lane =>
      buffer.overwrite (lane * v.type.size) (written lane)) buffer =
        (List.range count).flatMap written ++ buffer.drop (count * v.type.size) := by
    induction count with
    | zero => simp
    | succ count ih =>
        have hlane : (written count).length = v.type.size := v.type.length_encodeLane _
        rw [List.range_succ, List.foldl_append, ih, List.foldl_cons, List.foldl_nil,
          ← hlength count, Bytes.overwrite_append, hlane, List.drop_drop, hlength,
          List.flatMap_append, List.flatMap_singleton, Nat.succ_mul]
  rw [encodeInto, hprefix, encode, lanes_eq_map hcells, List.flatMap_map, byteLength,
    Nat.mul_comm v.type.size]

/-- Reading changes the lanes and nothing else of a vector. -/
theorem lanes_decode (v : LaneVector) (bytes : Bytes) :
    (v.decode bytes).lanes = v.type.decodeLanes v.width bytes := by
  have hlength := v.type.length_decodeLanes v.width bytes
  rw [lanes, decode]
  dsimp only
  nth_rewrite 1 [← hlength]
  rw [List.take_left]

theorem width_le_decode (v : LaneVector) (bytes : Bytes) :
    (v.decode bytes).width ≤ (v.decode bytes).cells.length := by
  have hlength := v.type.length_decodeLanes v.width bytes
  rw [decode, List.length_append, hlength]
  exact Nat.le_add_right _ _

theorem decode_of_lanes_eq {bytes : Bytes}
    (hlanes : v.type.decodeLanes v.width bytes = v.lanes) : v.decode bytes = v := by
  rw [decode, hlanes, lanes, List.take_append_drop]

/-- Lanes that are written over a buffer and read again are what their type keeps of them. -/
theorem decodeLanes_encodeInto (hcells : v.width ≤ v.cells.length) (buffer : Bytes) :
    v.type.decodeLanes v.width (v.encodeInto buffer) = v.lanes.map v.type.narrow := by
  rw [encodeInto_eq hcells, encode, ← v.type.decodeLanes_flatMap_encodeLane v.lanes,
    length_lanes hcells]

/-- Lanes that are read from a buffer and written again are the bytes they were read from. -/
theorem encode_decode_take (hfloat : v.type ≠ .f32) (hsource : v.byteLength ≤ buffer.length) :
    (v.decode buffer).encode = buffer.take v.byteLength := by
  have hlength : (buffer.take v.byteLength).length = v.type.size * v.width :=
    List.length_take_of_le hsource
  rw [encode, lanes_decode, ← v.type.decodeLanes_take]
  exact DataType.flatMap_encodeLane_decodeLanes hfloat hlength

/-- What was read back from a buffer comes back from any buffer. -/
theorem decode_encodeInto_of_narrow (hcells : v.width ≤ v.cells.length)
    (hnarrow : ∀ cell ∈ v.lanes, v.type.narrow cell = cell) (buffer : Bytes) :
    v.decode (v.encodeInto buffer) = v := by
  apply decode_of_lanes_eq
  rw [decodeLanes_encodeInto hcells]
  conv_rhs => rw [← List.map_id v.lanes]
  exact List.map_congr_left hnarrow

/-- Vectors of every type but `f32` go through memory and back. Lanes that are read from a buffer
and written over another put there the bytes they were read from, and leave what is behind these.
Lanes that are written and read again are cut to the bits of their type and extended, unless the
type has all the bits of a cell, and a second time nothing happens to them. -/
theorem round_trip (hfloat : v.type ≠ .f32) (hcells : v.width ≤ v.cells.length) :
    (∀ source target : Bytes, v.byteLength ≤ source.length → v.byteLength ≤ target.length →
      (v.decode source).encodeInto target =
        source.take v.byteLength ++ target.drop v.byteLength) ∧
    (∀ (w : LaneVector) (target : Bytes), w.type = v.type → w.width = v.width →
      v.byteLength ≤ target.length →
      v.encodeInto target = v.encode ++ target.drop v.byteLength ∧
        (w.decode (v.encodeInto target)).lanes = v.lanes.map v.type.narrow ∧
        ∀ other : Bytes, v.byteLength ≤ other.length →
          (w.decode (v.encodeInto target)).decode
            ((w.decode (v.encodeInto target)).encodeInto other) =
              w.decode (v.encodeInto target)) ∧
    (∀ cell : Cell, ∀ index < 64,
      (v.type.narrow cell).toNat.testBit index = v.type.extendedBit cell index) ∧
    (v.type.size = 8 → ∀ cell : Cell, v.type.narrow cell = cell) := by
  refine ⟨fun source target hsource _ => ?_, fun w target htype hwidth _ => ?_,
    fun cell index hindex => DataType.testBit_narrow hfloat hindex,
    fun hsize cell => DataType.narrow_of_size_eq hsize cell⟩
  · rw [encodeInto_eq (v.width_le_decode source), encode_decode_take hfloat hsource]
    rfl
  · have hback : (w.decode (v.encodeInto target)).lanes = v.lanes.map v.type.narrow := by
      rw [lanes_decode, htype, hwidth, decodeLanes_encodeInto hcells]
    refine ⟨encodeInto_eq hcells target, hback, fun other _ => ?_⟩
    apply decode_encodeInto_of_narrow (w.width_le_decode _)
    intro cell hcell
    rw [hback] at hcell
    obtain ⟨written, -, rfl⟩ := List.mem_map.mp hcell
    have hsame : (w.decode (v.encodeInto target)).type = v.type := htype
    rw [hsame, DataType.narrow_narrow hfloat]

/-- Two lanes of 16 bits in a buffer of six bytes. The second is negative when it comes back. -/
theorem round_trip_i16 :
    ((⟨.i16, 2, [0x10005, 0xfffe, 7]⟩ : LaneVector).decode [1, 2, 3, 4, 5]).encodeInto
        [9, 9, 9, 9, 8, 7] = [1, 2, 3, 4, 8, 7] ∧
      ((LaneVector.zero .i16 2).decode
        ((⟨.i16, 2, [0x10005, 0xfffe, 7]⟩ : LaneVector).encodeInto [9, 9, 9, 9, 8, 7])).lanes =
          [5, 0xfffffffffffffffe] := by
  obtain ⟨hbytes, hcells, -, -⟩ :=
    round_trip (v := ⟨.i16, 2, [0x10005, 0xfffe, 7]⟩) (by decide) (by decide)
  constructor
  · exact hbytes [1, 2, 3, 4, 5] [9, 9, 9, 9, 8, 7] (by decide) (by decide)
  · exact (hcells (.zero .i16 2) [9, 9, 9, 9, 8, 7] rfl rfl (by decide)).2.1.trans (by decide)

end LaneVector

end VectorStack
