import VectorStack.Instruction
import VectorStack.LaneVector.Operation
import VectorStack.Proofs.Safety.Guard
/-!
Lane vectors with guards. A vector is an array of eight cells of which the first are its lanes, and
goes through a buffer with room for eight lanes of eight bytes. No guard fails as long as a vector
has from one to eight lanes.
-/

namespace VectorStack

open Instruction (maxWidth)

/-- Bytes of the buffer that an operand goes through. -/
def operandBytes : Nat := maxWidth * 8

/-- Where a lane starts in the buffer, when the buffer has all its bytes. -/
def DataType.guardedStart (type : DataType) (lane : Nat) : Guarded Nat := do
  let start ← Guard.unsigned 64 ((lane * type.size : Nat) : Int)
  let start ← Guard.part operandBytes start
  let size ← Guard.part 8 type.size
  let _ ← Guard.part (operandBytes - start) size
  pure start

/-- The shift that finds the sign of a lane, for a type that has one to copy. -/
def DataType.guardedSign (type : DataType) : Guarded Nat :=
  match type with
  | .i8 | .i16 | .i32 => do
    let top ← Guard.unsigned 64 (((type.size * 8 : Nat) : Int) - 1)
    Guard.shift 64 top
  | _ => pure 0

namespace LaneVector

/-- A vector with lanes, all of which fit the array. -/
structure Fits (v : LaneVector) : Prop where
  width_pos : 1 ≤ v.width
  width_le : v.width ≤ maxWidth
  length_eq : v.cells.length = v.width

def guardedCell (v : LaneVector) (place : Nat) : Guarded Cell := do
  let place ← Guard.index maxWidth place
  match v.cells[place]? with
  | some cell => pure cell
  | none => throw .bounds

def guardedLane (v : LaneVector) (index : Nat) : Guarded Cell := do
  let width ← Guard.divisor (max v.width 1)
  v.guardedCell (index % width)

def guardedLanes (v : LaneVector) : Guarded (List Cell) := do
  let stop ← Guard.part maxWidth v.width
  pure (v.cells.take stop)

/-- The vector whose lane is what a function gives for its index. -/
def guardedTabulate (type : DataType) (width : Nat) (f : Nat → Guarded Cell) :
    Guarded LaneVector := do
  let cells ← (List.range width).mapM fun lane => do
    let cell ← f lane
    let _ ← Guard.index maxWidth lane
    pure cell
  pure ⟨type, width, cells⟩

/-- The vector that lies in the buffer. -/
def guardedOfBytes (type : DataType) (width : Nat) (bytes : Bytes) : Guarded LaneVector :=
  guardedTabulate type width fun lane => do
    let start ← type.guardedStart lane
    let _ ← type.guardedSign
    pure (type.decodeLane (bytes.drop start))

/-- The lanes as consecutive bytes of the buffer. -/
def guardedEncode (v : LaneVector) : Guarded Bytes := do
  let lanes ← (List.range v.width).mapM fun lane => do
    let cell ← v.guardedCell lane
    let _ ← v.type.guardedStart lane
    pure (v.type.encodeLane cell)
  pure lanes.flatten

def guardedFormat (v : LaneVector) : Guarded String := do
  let lanes ← v.guardedLanes
  if lanes.length = 1 then
    let first ← Guard.index lanes.length 0
    pure (v.mode.format (lanes.getD first 0))
  else pure ("[" ++ String.intercalate ", " (lanes.map v.mode.format) ++ "]")

variable {v : LaneVector} {type : DataType} {width : Nat}

theorem fits_tabulate (type : DataType) (f : Nat → Cell) (hpos : 1 ≤ width)
    (hle : width ≤ maxWidth) : (tabulate type width f).Fits :=
  ⟨hpos, hle, by simp [tabulate]⟩

theorem fits_ofBytes (type : DataType) (bytes : Bytes) (hpos : 1 ≤ width)
    (hle : width ≤ maxWidth) : (ofBytes type width bytes).Fits :=
  ⟨hpos, hle, by simp [ofBytes, type.decodeLanes_eq]⟩

/-- All cells of a vector are lanes. -/
theorem Fits.lanes_eq (hfits : v.Fits) : v.lanes = v.cells := by
  rw [lanes, ← hfits.length_eq, List.take_length]

theorem Fits.length_lanes (hfits : v.Fits) : v.lanes.length = v.width := by
  rw [hfits.lanes_eq, hfits.length_eq]

theorem Fits.guardedCell_eq (hfits : v.Fits) {place : Nat} (hlt : place < v.width) :
    v.guardedCell place = .ok (v.cells.getD place 0) := by
  have hplace := Nat.lt_of_lt_of_le hlt hfits.width_le
  rw [← hfits.length_eq] at hlt
  rw [guardedCell, Guard.index_eq hplace, Guarded.ok_bind, List.getD_eq_getElem?_getD,
    List.getElem?_eq_getElem hlt]
  rfl

theorem Fits.guardedLane_eq (hfits : v.Fits) (index : Nat) :
    v.guardedLane index = .ok (v.lane index) := by
  have hmax : max v.width 1 = v.width := Nat.max_eq_left hfits.width_pos
  rw [guardedLane, lane, hmax, Guard.divisor_eq hfits.width_pos, Guarded.ok_bind]
  exact hfits.guardedCell_eq (Nat.mod_lt index hfits.width_pos)

theorem Fits.guardedLanes_eq (hfits : v.Fits) : v.guardedLanes = .ok v.lanes := by
  rw [guardedLanes, Guard.part_eq hfits.width_le]
  rfl

theorem guardedTabulate_eq (type : DataType) {f : Nat → Guarded Cell} {g : Nat → Cell}
    (hle : width ≤ maxWidth) (hf : ∀ lane < width, f lane = .ok (g lane)) :
    guardedTabulate type width f = .ok (tabulate type width g) := by
  have hcells : (List.range width).mapM (fun lane => do
      let cell ← f lane
      let _ ← Guard.index maxWidth lane
      pure cell) = .ok ((List.range width).map g) := by
    apply Guarded.mapM_eq
    intro lane hmem
    have hlt := List.mem_range.mp hmem
    rw [hf lane hlt, Guarded.ok_bind, Guard.index_eq (Nat.lt_of_lt_of_le hlt hle)]
    rfl
  rw [guardedTabulate, hcells]
  rfl

/-- Eight lanes of eight bytes fill the buffer, so that every lane is inside. -/
theorem guardedStart_eq (type : DataType) {lane : Nat} (hlt : lane < maxWidth) :
    type.guardedStart lane = .ok (lane * type.size) := by
  have hsize := type.size_le
  have hbytes : operandBytes = 64 := rfl
  have hstop : (lane + 1) * type.size ≤ operandBytes := Nat.mul_le_mul hlt hsize
  rw [Nat.succ_mul] at hstop
  rw [DataType.guardedStart, Guard.unsigned_eq (by omega), Guarded.ok_bind,
    Guard.part_eq (by omega), Guarded.ok_bind, Guard.part_eq hsize, Guarded.ok_bind,
    Guard.part_eq (by omega)]
  rfl

theorem guardedSign_isOk (type : DataType) : ∃ amount, type.guardedSign = .ok amount := by
  cases type <;> exact ⟨_, rfl⟩

theorem guardedOfBytes_eq (type : DataType) (bytes : Bytes) (hle : width ≤ maxWidth) :
    guardedOfBytes type width bytes = .ok (ofBytes type width bytes) := by
  obtain ⟨amount, hamount⟩ := guardedSign_isOk type
  rw [ofBytes, type.decodeLanes_eq]
  apply guardedTabulate_eq type hle
  intro lane hlt
  rw [guardedStart_eq type (Nat.lt_of_lt_of_le hlt hle), hamount]
  rfl

theorem Fits.guardedEncode_eq (hfits : v.Fits) : v.guardedEncode = .ok v.encode := by
  have hlanes : v.lanes = (List.range v.width).map fun lane => v.cells.getD lane 0 := by
    rw [hfits.lanes_eq, ← hfits.length_eq]
    apply List.ext_getElem (by simp)
    intro lane hlt _
    simp [hlt]
  have hencode : (List.range v.width).mapM (fun lane => do
      let cell ← v.guardedCell lane
      let _ ← v.type.guardedStart lane
      pure (v.type.encodeLane cell)) =
        .ok ((List.range v.width).map fun lane => v.type.encodeLane (v.cells.getD lane 0)) := by
    apply Guarded.mapM_eq
    intro lane hmem
    have hlt := List.mem_range.mp hmem
    rw [hfits.guardedCell_eq hlt, Guarded.ok_bind,
      guardedStart_eq v.type (Nat.lt_of_lt_of_le hlt hfits.width_le)]
    rfl
  rw [guardedEncode, hencode, encode, hlanes, List.flatMap_map]
  rfl

theorem Fits.length_encode_le (hfits : v.Fits) : v.encode.length ≤ operandBytes := by
  have hsum : v.encode.length = v.width * v.type.size := by
    simp only [encode, List.length_flatMap, DataType.length_encodeLane, List.map_const',
      List.sum_replicate_nat, hfits.length_lanes]
  rw [hsum]
  exact Nat.mul_le_mul hfits.width_le v.type.size_le

theorem Fits.guardedFormat_eq (hfits : v.Fits) : v.guardedFormat = .ok v.format := by
  rw [guardedFormat, hfits.guardedLanes_eq, Guarded.ok_bind, format]
  cases v.lanes with
  | nil => rfl
  | cons first rest =>
      cases rest with
      | nil => rfl
      | cons second rest => rw [if_neg (by simp)]; rfl

end LaneVector

end VectorStack
