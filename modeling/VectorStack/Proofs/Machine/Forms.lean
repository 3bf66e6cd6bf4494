import Mathlib.Algebra.Order.BigOperators.Group.List
import Mathlib.Algebra.Order.Ring.Nat
import VectorStack.Proofs.Layout.Extents
import VectorStack.Proofs.Machine.Pushed
import VectorStack.Proofs.Safety.Operand
/-!
Two ways to write an operation on lanes. The addresses of its inputs can follow the instruction, or
it can find all of them on the stack. The machine fetches either one from the bytes that it is
written as, and finds the operands where they were meant to be.
-/

namespace VectorStack

open Address (space wrap wrap_wrap wrap_wrap_add)
open LaneVector (HasShape)

/-- A value in memory. -/
structure Located where
  shape : Shape
  address : Nat

namespace Located

def span (value : Located) : Span := ⟨value.address, value.shape.byteLength⟩

def bytes (value : Located) (memory : Memory) : Bytes :=
  memory.read value.address value.shape.byteLength

/-- The bytes of several values. -/
def runs (values : List Located) (memory : Memory) : List Bytes :=
  values.map fun value => value.bytes memory

theorem length_bytes (value : Located) (memory : Memory) :
    (value.bytes memory).length = value.shape.byteLength :=
  Memory.length_read _ _ _

theorem length_runs (values : List Located) (memory : Memory) :
    (runs values memory).length = values.length :=
  List.length_map _

theorem forall₂_runs (values : List Located) (memory : Memory) :
    List.Forall₂ (fun shape bytes => bytes.length = shape.byteLength) (values.map Located.shape)
      (runs values memory) := by
  rw [runs, List.forall₂_map_left_iff, List.forall₂_map_right_iff, List.forall₂_same]
  exact fun value _ => value.length_bytes memory

end Located

namespace Opcode

/-- Operations that only compute and have a result. -/
def OnLanes (op : Opcode) : Prop := op.Computes ∧ op.template.outputs ≠ []

theorem Computes.ne_invalid {op : Opcode} (hcomputes : op.Computes) : op ≠ .invalid := by
  rintro rfl
  exact hcomputes

end Opcode

namespace Instruction

/-- Shapes of the inputs. -/
def inputShapes (i : Instruction) : List Shape := i.opcode.template.inputs.mapIdx i.shape

/-- Shapes of the outputs, whose slots come behind those of the inputs. -/
def outputShapes (i : Instruction) : List Shape :=
  i.opcode.template.outputs.mapIdx fun index => i.shape (i.opcode.template.inputs.length + index)

/-- Bytes of all inputs. -/
def inputBytes (i : Instruction) : Nat := (i.inputShapes.map Shape.byteLength).sum

/-- Bytes of all outputs. -/
def outputBytes (i : Instruction) : Nat := (i.outputShapes.map Shape.byteLength).sum

/-- The instruction with an address for every input, and every output on the stack. -/
def onAddresses (i : Instruction) : Instruction :=
  { i with
    immediateCount := i.opcode.template.inputs.length
    immediate := 2 ^ i.opcode.template.inputs.length - 1
    inlined := 0 }

/-- The instruction with every operand on the stack. -/
def onStack (i : Instruction) : Instruction :=
  { i with immediateCount := 0, immediate := 0, inlined := 0 }

/-- The instruction that pushes a value of a shape. -/
def push (shape : Shape) : Instruction :=
  ⟨.push, shape.width, 1, (shape.type, shape.type, shape.type), 1, 0⟩

/-- An instruction in memory, and the addresses behind it. -/
def code (i : Instruction) (addresses : List Nat) : Bytes :=
  Bytes.ofNat wordBytes i.encode.toNat ++ addresses.flatMap (Bytes.ofNat Address.byteCount)

/-- Instructions that push values from where they lie, the first one first. -/
def pushCode (values : List Located) : Bytes :=
  values.flatMap fun value => (push value.shape).code [value.address]

/-- What the operation makes of inputs with these bytes. -/
def results (i : Instruction) (runs : List Bytes) : List LaneVector :=
  i.opcode.results (i.inputShapes.zipWith Shape.decode runs) i.outputShapes

/-- The bytes of the results. -/
def resultRuns (i : Instruction) (runs : List Bytes) : List Bytes :=
  (i.results runs).map LaneVector.encode

/-- An operation on lanes for these values, with operands that all have a meaning. -/
structure Takes (i : Instruction) (values : List Located) : Prop where
  fits : i.Fits
  onLanes : i.opcode.OnLanes
  supported : ∀ shape ∈ i.inputShapes ++ i.outputShapes, shape.type.isSupported = true
  shapes_eq : values.map Located.shape = i.inputShapes

variable {i : Instruction}

theorem length_addresses (addresses : List Nat) :
    (addresses.flatMap (Bytes.ofNat Address.byteCount)).length =
      addresses.length * Address.byteCount := by
  simp [List.length_flatMap]

theorem length_code (i : Instruction) (addresses : List Nat) :
    (i.code addresses).length = wordBytes + addresses.length * Address.byteCount := by
  rw [code, List.length_append, Bytes.length_ofNat, length_addresses]

theorem fits_onAddresses (hfits : i.Fits) : i.onAddresses.Fits := by
  have hsize := i.opcode.template_size_le
  have hcount : i.opcode.template.inputs.length ≤ 3 :=
    Nat.le_trans (Nat.le_add_right _ _) hsize
  have hpow : 2 ^ i.opcode.template.inputs.length ≤ 2 ^ 3 := Nat.pow_le_pow_right (by omega) hcount
  refine ⟨hfits.width_pos, hfits.width_le, Nat.lt_succ_of_le hcount, ?_, Nat.zero_lt_succ 7⟩
  simp only [onAddresses]
  omega

theorem fits_onStack (hfits : i.Fits) : i.onStack.Fits :=
  ⟨hfits.width_pos, hfits.width_le, Nat.zero_lt_succ 3, Nat.zero_lt_succ 7, Nat.zero_lt_succ 7⟩

theorem fits_push {shape : Shape} (hfits : shape.Fits) : (push shape).Fits :=
  ⟨hfits.width_pos, hfits.width_le, (by decide : 1 < 4), (by decide : 1 < 8), Nat.zero_lt_succ 7⟩

theorem fits_of_mem_shapes (hfits : i.Fits) {shape : Shape}
    (hmem : shape ∈ i.inputShapes ++ i.outputShapes) : shape.Fits := by
  rcases List.mem_append.mp hmem with hmem | hmem
  · obtain ⟨index, hindex, rfl⟩ := List.mem_mapIdx.mp hmem
    exact Machine.fits_shape (List.mem_append_left _ (List.getElem_mem hindex)) hfits
  · obtain ⟨index, hindex, rfl⟩ := List.mem_mapIdx.mp hmem
    exact Machine.fits_shape (List.mem_append_right _ (List.getElem_mem hindex)) hfits

/-- The operands of an instruction take a small part of memory. -/
theorem operandBytes_le (hfits : i.Fits) : i.inputBytes + i.outputBytes ≤ space := by
  have hsize := i.opcode.template_size_le
  have hsum := List.sum_le_card_nsmul ((i.inputShapes ++ i.outputShapes).map Shape.byteLength) 64
    (by
      intro count hmem
      obtain ⟨shape, hshape, rfl⟩ := List.mem_map.mp hmem
      exact (fits_of_mem_shapes hfits hshape).byteLength_le)
  have hlength : ((i.inputShapes ++ i.outputShapes).map Shape.byteLength).length =
      i.opcode.template.size := by
    simp [inputShapes, outputShapes, Template.size]
  have hmax : Template.maxOperands = 3 := rfl
  rw [hlength, List.map_append, List.sum_append] at hsum
  change i.inputBytes + i.outputBytes ≤ i.opcode.template.size * 64 at hsum
  unfold space
  omega

theorem Takes.length_eq {values : List Located} (htakes : i.Takes values) :
    values.length = i.opcode.template.inputs.length := by
  have hcount := congrArg List.length htakes.shapes_eq
  rw [List.length_map, inputShapes, List.length_mapIdx] at hcount
  exact hcount

theorem Takes.forall₂_runs {values : List Located} (htakes : i.Takes values) (memory : Memory) :
    List.Forall₂ (fun shape bytes => bytes.length = shape.byteLength) i.inputShapes
      (Located.runs values memory) := by
  rw [← htakes.shapes_eq]
  exact Located.forall₂_runs values memory

theorem Takes.length_flatten_runs {values : List Located} (htakes : i.Takes values)
    (memory : Memory) : (Located.runs values memory).flatten.length = i.inputBytes :=
  Shape.length_flatten (htakes.forall₂_runs memory)

theorem Takes.hasShape_results {values : List Located} (htakes : i.Takes values)
    (memory : Memory) :
    List.Forall₂ HasShape i.outputShapes (i.results (Located.runs values memory)) := by
  apply htakes.onLanes.1.hasShape_results
  · rw [List.length_zipWith, Located.length_runs, htakes.length_eq, inputShapes,
      List.length_mapIdx, Nat.min_self]
  · exact List.length_mapIdx

theorem Takes.length_flatten_resultRuns {values : List Located} (htakes : i.Takes values)
    (memory : Memory) :
    (i.resultRuns (Located.runs values memory)).flatten.length = i.outputBytes := by
  apply Shape.length_flatten
  rw [resultRuns, List.forall₂_map_right_iff]
  exact (htakes.hasShape_results memory).imp fun _ _ hshape => hshape.length_encode

theorem Takes.resultRuns_ne_nil {values : List Located} (htakes : i.Takes values)
    (memory : Memory) : i.resultRuns (Located.runs values memory) ≠ [] := by
  have hlength := (htakes.hasShape_results memory).length_eq
  rw [outputShapes, List.length_mapIdx] at hlength
  rw [resultRuns, ne_eq, List.map_eq_nil_iff, ← List.length_eq_zero_iff, ← hlength,
    List.length_eq_zero_iff]
  exact htakes.onLanes.2

theorem takes_push {value : Located} (hfits : value.shape.Fits)
    (hsupported : value.shape.type.isSupported = true) : (push value.shape).Takes [value] := by
  have hshapes : ∀ shape ∈ [value.shape, value.shape], shape.type.isSupported = true := by
    simpa using hsupported
  exact ⟨fits_push hfits, ⟨trivial, List.cons_ne_nil _ _⟩, hshapes, rfl⟩

/-- A push leaves the bytes that it reads. -/
theorem resultRuns_push {shape : Shape} (hfloat : shape.type ≠ .f32) {bytes : Bytes}
    (hlength : bytes.length = shape.byteLength) : (push shape).resultRuns [bytes] = [bytes] := by
  change [((shape.decode bytes).mapInto shape fun _ cell => cell).encode] = [bytes]
  rw [LaneVector.encode_copy hfloat hlength]

theorem isImmediate_onAddresses (i : Instruction) (slot : Nat) :
    i.onAddresses.isImmediate slot = decide (slot < i.opcode.template.inputs.length) :=
  Nat.testBit_two_pow_sub_one _ _

theorem addressesBefore_onAddresses {slot : Nat} (hslot : slot ≤ i.opcode.template.inputs.length) :
    i.onAddresses.addressesBefore slot = slot := by
  have hall : ∀ before ∈ List.range slot, i.onAddresses.isImmediate before = true := by
    intro before hmem
    rw [isImmediate_onAddresses]
    exact decide_eq_true (Nat.lt_of_lt_of_le (List.mem_range.mp hmem) hslot)
  rw [addressesBefore, List.countP_eq_length.mpr hall, List.length_range]

end Instruction

namespace Machine

variable {m : Machine} {i : Instruction} {start : Nat}

theorem place_onStack (m : Machine) (i : Instruction) (start slot : Nat) :
    m.place i.onStack start slot = .stack := by
  simp [place, Instruction.isImmediate, Instruction.onStack]

theorem inputs_onStack (m : Machine) (i : Instruction) (start : Nat) :
    m.inputs i.onStack start = i.inputShapes.map Operand.onStack := by
  refine List.ext_getElem? fun index => ?_
  rw [inputs, getElem?_operandsFrom, Instruction.inputShapes, List.getElem?_map,
    List.getElem?_mapIdx, Option.map_map, Nat.zero_add, place_onStack]
  rfl

theorem outputs_onStack (m : Machine) (i : Instruction) (start : Nat) :
    m.outputs i.onStack start = i.outputShapes.map Operand.onStack := by
  refine List.ext_getElem? fun index => ?_
  rw [outputs, getElem?_operandsFrom, Instruction.outputShapes, List.getElem?_map,
    List.getElem?_mapIdx, Option.map_map, place_onStack]
  rfl

/-- An address behind an instruction is found for its slot. -/
theorem place_onAddresses (hplain : m.memory.Plain) {addresses : List Nat} {more : Bytes}
    (hholds : m.memory.Holds start (i.onAddresses.code addresses ++ more))
    (hlength : addresses.length = i.opcode.template.inputs.length) {slot : Nat}
    (hslot : slot < addresses.length) :
    m.place i.onAddresses start slot = .memory (wrap addresses[slot]) := by
  have hsplit : addresses.flatMap (Bytes.ofNat Address.byteCount) =
      (addresses.take slot).flatMap (Bytes.ofNat Address.byteCount) ++
        (Bytes.ofNat Address.byteCount addresses[slot] ++
          (addresses.drop (slot + 1)).flatMap (Bytes.ofNat Address.byteCount)) := by
    conv => lhs; rw [← List.take_append_drop slot addresses, List.drop_eq_getElem_cons hslot]
    rw [List.flatMap_append, List.flatMap_cons]
  have hbefore : ((addresses.take slot).flatMap (Bytes.ofNat Address.byteCount)).length =
      slot * Address.byteCount := by
    rw [Instruction.length_addresses, List.length_take_of_le (Nat.le_of_lt hslot)]
  have hfield : i.onAddresses.addressField start slot =
      wrap (wrap (start + Instruction.wordBytes) + slot * Address.byteCount) := by
    rw [Instruction.addressField, Address.move_ofNat,
      Instruction.addressesBefore_onAddresses (by omega), wrap_wrap_add, Nat.add_assoc]
  have hthere := hholds.left
  rw [Instruction.code, hsplit] at hthere
  have hread := hthere.right.right.left.read_eq hplain
  rw [Bytes.length_ofNat, Bytes.length_ofNat, hbefore, ← hfield] at hread
  have himmediate : i.onAddresses.isImmediate slot = true := by
    rw [Instruction.isImmediate_onAddresses]
    exact decide_eq_true (by omega)
  have hinlined : i.onAddresses.isInlined slot = false := Nat.zero_testBit slot
  simp only [place, himmediate, hinlined, Memory.readNat, hread, Bytes.toNat_address, wrap_wrap,
    if_true, Bool.false_eq_true, if_false]

theorem inputs_onAddresses (hplain : m.memory.Plain) {values : List Located} {more : Bytes}
    (hholds : m.memory.Holds start (i.onAddresses.code (values.map Located.address) ++ more))
    (htakes : i.Takes values) :
    m.inputs i.onAddresses start =
      values.map fun value => ⟨value.shape, .memory (wrap value.address)⟩ := by
  have hlength := htakes.length_eq
  refine List.ext_getElem ?_ fun index hindex hindex' => ?_
  · rw [List.length_map, hlength]
    exact length_operandsFrom _ _ _ _ _
  · rw [List.length_map] at hindex'
    have hslot : index < i.onAddresses.opcode.template.inputs.length :=
      Nat.lt_of_lt_of_eq hindex' hlength
    have hplace := place_onAddresses hplain hholds (by rw [List.length_map, hlength])
      (by rw [List.length_map]; exact hindex')
    have hshape := List.getElem_of_eq htakes.shapes_eq (by rw [List.length_map]; exact hindex')
    simp only [List.getElem_map, Instruction.inputShapes, List.getElem_mapIdx] at hshape hplace
    rw [List.getElem_map, hshape, List.getElem_eq_iff, inputs, getElem?_operandsFrom, Nat.zero_add,
      List.getElem?_eq_getElem hslot, afterPlaces_eq_self _ _ hplain.mappings_eq, hplace]
    rfl

theorem outputs_onAddresses (m : Machine) (i : Instruction) (start : Nat) :
    m.outputs i.onAddresses start = i.outputShapes.map Operand.onStack := by
  refine List.ext_getElem? fun index => ?_
  have himmediate :
      i.onAddresses.isImmediate (i.onAddresses.opcode.template.inputs.length + index) = false := by
    rw [Instruction.isImmediate_onAddresses]
    exact decide_eq_false (Nat.not_lt.mpr (Nat.le_add_right _ _))
  rw [outputs, getElem?_operandsFrom, Instruction.outputShapes, List.getElem?_map,
    List.getElem?_mapIdx, Option.map_map, place, himmediate]
  rfl

end Machine

end VectorStack
