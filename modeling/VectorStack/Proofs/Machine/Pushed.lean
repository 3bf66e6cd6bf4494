import VectorStack.Proofs.Arithmetic.Lanes
import VectorStack.Proofs.Machine.Frame
import VectorStack.Proofs.Machine.Stack
/-!
Values on the stack. Runs of bytes that are pushed one after another lie above each other with the
last one on top, as long as they do not go all the way around memory, and operands that are popped
there are these runs.
-/

namespace VectorStack

open Address (space wrap wrap_wrap_add)
open LaneVector (HasShape)

namespace Span

/-- All bytes of one span are bytes of the other one. -/
def Within (part whole : Span) : Prop := ∀ address, part.Covers address → whole.Covers address

/-- Two spans have no byte in common. -/
def Apart (first second : Span) : Prop := ∀ address, first.Covers address → ¬ second.Covers address

theorem Within.refl (span : Span) : span.Within span := fun _ hcovers => hcovers

theorem Apart.symm {first second : Span} (hapart : first.Apart second) : second.Apart first :=
  fun address hsecond hfirst => hapart address hfirst hsecond

theorem Apart.within {first second part other : Span} (hapart : first.Apart second)
    (hpart : part.Within first) (hother : other.Within second) : part.Apart other :=
  fun address hcovers hcovers' => hapart address (hpart address hcovers) (hother address hcovers')

/-- Spans are apart when the second one lies between the end of the first one and its start. -/
theorem apart_of_distance {first second : Span}
    (hend : first.length ≤ Address.move second.address (-(first.address : Int)))
    (hstart : Address.move second.address (-(first.address : Int)) + second.length ≤ space) :
    first.Apart second := by
  rintro address ⟨index, hindex, rfl⟩ ⟨other, hother, hsame⟩
  unfold wrap Address.move space at *
  omega

end Span

/-- The vector of a shape that lies in memory as these bytes. -/
def Shape.decode (shape : Shape) (bytes : Bytes) : LaneVector :=
  .ofBytes shape.type shape.width bytes

/-- An operand of a shape on the stack. -/
def Operand.onStack (shape : Shape) : Operand := ⟨shape, .stack⟩

theorem Bytes.length_flatten_reverse (runs : List Bytes) :
    runs.reverse.flatten.length = runs.flatten.length := by
  simp

/-- Runs of bytes that fill shapes have the bytes of the shapes altogether. -/
theorem Shape.length_flatten {shapes : List Shape} {runs : List Bytes}
    (hruns : List.Forall₂ (fun shape bytes => bytes.length = shape.byteLength) shapes runs) :
    runs.flatten.length = (shapes.map Shape.byteLength).sum := by
  induction hruns with
  | nil => rfl
  | cons hlength hrest ih =>
      rw [List.flatten_cons, List.length_append, hlength, ih, List.map_cons, List.sum_cons]

namespace LaneVector

/-- A vector that was read from memory is copied as it is to one of the same shape. -/
theorem mapInto_copy (shape : Shape) (bytes : Bytes) :
    ((shape.decode bytes).mapInto shape fun _ cell => cell) = shape.decode bytes := by
  have hcells := map_lane_ofBytes shape.type shape.width bytes
  have hconvert : ∀ cell, shape.type.mode.convert cell shape.type.mode = cell :=
    Mode.convert_self shape.type.mode
  rw [mapInto, Shape.fill]
  change tabulate shape.type shape.width (fun index =>
    shape.type.mode.convert ((shape.decode bytes).lane index) shape.type.mode) = _
  simp only [hconvert]
  exact congrArg (LaneVector.mk shape.type shape.width) hcells

/-- What is read as lanes is written as the bytes that were read. -/
theorem encode_decode {shape : Shape} (hfloat : shape.type ≠ .f32) {bytes : Bytes}
    (hlength : bytes.length = shape.byteLength) : (shape.decode bytes).encode = bytes := by
  rw [encode, Shape.decode, lanes_ofBytes]
  exact DataType.flatMap_encodeLane_decodeLanes hfloat hlength

theorem encode_copy {shape : Shape} (hfloat : shape.type ≠ .f32) {bytes : Bytes}
    (hlength : bytes.length = shape.byteLength) :
    ((shape.decode bytes).mapInto shape fun _ cell => cell).encode = bytes := by
  rw [mapInto_copy, encode_decode hfloat hlength]

end LaneVector

namespace Memory

variable {memory after : Memory} {address : Nat} {bytes more : Bytes}

theorem holds_read (hplain : memory.Plain) (address count : Nat) :
    memory.Holds address (memory.read address count) := by
  intro index hindex
  simp only [read_eq hplain.mappings_eq, List.getElem_map, List.getElem_range,
    get_wrap hplain.size_eq]

theorem Holds.append (hfirst : memory.Holds address bytes)
    (hsecond : memory.Holds (wrap (address + bytes.length)) more) :
    memory.Holds address (bytes ++ more) := by
  intro index hindex
  rw [List.getElem_append]
  split
  · next hlt => exact hfirst index hlt
  · next hge =>
      rw [List.length_append] at hindex
      have hback := hsecond (index - bytes.length) (by omega)
      rw [wrap_wrap_add, Nat.add_assoc, Nat.add_sub_cancel' (Nat.le_of_not_lt hge)] at hback
      exact hback

theorem holds_wrap : memory.Holds (wrap address) bytes ↔ memory.Holds address bytes := by
  simp only [Holds, wrap_wrap_add]

/-- Bytes stay where nothing is written over them. -/
theorem Holds.kept {spans : List Span} (hholds : memory.Holds address bytes)
    (hplain : memory.Plain) (hafter : after.Plain) (hkept : KeptOutside spans memory after)
    (hapart : ∀ span ∈ spans, Span.Apart ⟨address, bytes.length⟩ span) :
    after.Holds address bytes := by
  intro index hindex
  have hfree : ∀ span ∈ spans, ¬ span.Covers (wrap (address + index)) :=
    fun span hmem => hapart span hmem _ ⟨index, hindex, rfl⟩
  rw [hafter.get_eq, hkept.get_eq _ (Address.wrap_lt _) hfree, ← hplain.get_eq]
  exact hholds index hindex

theorem read_kept {spans : List Span} {count : Nat} (hplain : memory.Plain) (hafter : after.Plain)
    (hkept : KeptOutside spans memory after)
    (hapart : ∀ span ∈ spans, Span.Apart ⟨address, count⟩ span) :
    after.read address count = memory.read address count := by
  have hheld := (holds_read hplain address count).kept hplain hafter hkept
  rw [length_read] at hheld
  have hread := (hheld hapart).read_eq hafter
  rw [length_read] at hread
  exact hread

theorem KeptOutside.widen {spans : List Span} {whole : Span}
    (hkept : KeptOutside spans memory after) (hwithin : ∀ span ∈ spans, span.Within whole) :
    KeptOutside [whole] memory after := by
  refine ⟨fun address hlt hfree => ?_, hkept.devices_eq⟩
  apply hkept.get_eq address hlt
  intro span hmem hcovers
  exact hfree whole List.mem_cons_self (hwithin span hmem address hcovers)

end Memory

namespace Machine

/-- Push a run of bytes on the stack. -/
def pushBytes (m : Machine) (bytes : Bytes) : Machine :=
  let sp := Address.move m.sp (-(bytes.length : Int))
  { m.withSp sp with memory := m.memory.write sp bytes }

/-- Push runs of bytes one after another. -/
def pushAll (m : Machine) (runs : List Bytes) : Machine := runs.foldl pushBytes m

/-- Addresses that so many pushed bytes take. -/
def pushedSpan (sp count : Nat) : Span := ⟨Address.move sp (-(count : Int)), count⟩

/-- What is pushed first takes the upper part of what is pushed altogether. -/
theorem pushedSpan_within_left (sp first second : Nat) :
    (pushedSpan sp first).Within (pushedSpan sp (first + second)) := by
  rintro address ⟨index, hindex, rfl⟩
  refine ⟨second + index, ?_, ?_⟩
  · simp only [pushedSpan] at hindex ⊢
    omega
  · unfold pushedSpan wrap Address.move space
    dsimp only
    omega

theorem pushedSpan_within_right (sp first second : Nat) :
    (pushedSpan (Address.move sp (-(first : Int))) second).Within
      (pushedSpan sp (first + second)) := by
  rintro address ⟨index, hindex, rfl⟩
  refine ⟨index, ?_, ?_⟩
  · simp only [pushedSpan] at hindex ⊢
    omega
  · unfold pushedSpan wrap Address.move space
    dsimp only
    omega

/-- What is pushed later lies apart from what was pushed before. -/
theorem apart_pushedSpan {sp first second : Nat} (hspace : first + second ≤ space) :
    Span.Apart ⟨sp, first⟩ (pushedSpan sp second) := by
  rintro address ⟨index, hindex, rfl⟩ ⟨other, hother, hsame⟩
  unfold pushedSpan wrap Address.move space at *
  dsimp only at *
  omega

variable {m : Machine}

theorem plain_pushAll (hplain : m.memory.Plain) (runs : List Bytes) :
    (m.pushAll runs).memory.Plain := by
  induction runs generalizing m with
  | nil => exact hplain
  | cons bytes rest ih => exact ih (m := m.pushBytes bytes) (hplain.write _ bytes)

theorem wrap_sp_pushAll (m : Machine) (runs : List Bytes) :
    wrap (m.pushAll runs).sp = Address.move m.sp (-(runs.flatten.length : Int)) := by
  induction runs generalizing m with
  | nil => exact (Address.move_ofNat m.sp 0).symm
  | cons bytes rest ih =>
      have hsum : (-(bytes.length : Int)) + -(rest.flatten.length : Int) =
          -((bytes :: rest).flatten.length : Int) := by
        rw [List.flatten_cons, List.length_append]
        omega
      rw [← hsum, ← Address.move_move]
      exact ih (m.pushBytes bytes)

theorem sp_pushAll_lt (m : Machine) {runs : List Bytes} (hruns : runs ≠ []) :
    (m.pushAll runs).sp < space := by
  induction runs generalizing m with
  | nil => exact absurd rfl hruns
  | cons bytes rest ih =>
      cases rest with
      | nil => exact Address.move_lt m.sp (-(bytes.length : Int))
      | cons second others => exact ih (m.pushBytes bytes) (List.cons_ne_nil _ _)

/-- Pushing writes nothing but the bytes below the stack pointer. -/
theorem keptOutside_pushAll (hplain : m.memory.Plain) (runs : List Bytes) :
    Memory.KeptOutside [pushedSpan m.sp runs.flatten.length] m.memory
      (m.pushAll runs).memory := by
  induction runs generalizing m with
  | nil => exact (Memory.KeptOutside.refl _).widen (by simp)
  | cons bytes rest ih =>
      have hfirst := hplain.keptOutside_write (Address.move m.sp (-(bytes.length : Int))) bytes
      have hrest := ih (m := m.pushBytes bytes) (hplain.write _ bytes)
      refine (hfirst.trans hrest).widen ?_
      intro span hmem
      rw [List.flatten_cons, List.length_append]
      rcases List.mem_cons.mp hmem with rfl | hmem
      · exact pushedSpan_within_left _ _ _
      · cases List.mem_singleton.mp hmem
        exact pushedSpan_within_right _ _ _

/-- Memory holds what was pushed, the last run first. -/
theorem holds_pushAll (hplain : m.memory.Plain) {runs : List Bytes}
    (hspace : runs.flatten.length ≤ space) :
    (m.pushAll runs).memory.Holds (m.pushAll runs).sp runs.reverse.flatten := by
  induction runs generalizing m with
  | nil => exact fun index hindex => absurd hindex (Nat.not_lt_zero index)
  | cons bytes rest ih =>
      rw [List.flatten_cons, List.length_append] at hspace
      let next := m.pushBytes bytes
      have hnext : next.memory.Plain := hplain.write _ bytes
      have hrest := ih hnext (by omega)
      have hfirst : next.memory.Holds next.sp bytes := Memory.holds_write hplain (by omega)
      -- the later runs lie below this one, and do not come around to it
      have hkept := hfirst.kept hnext (plain_pushAll hnext rest) (keptOutside_pushAll hnext rest)
        (List.forall_mem_singleton.mpr (apart_pushedSpan hspace))
      have habove : wrap ((next.pushAll rest).sp + rest.reverse.flatten.length) = wrap next.sp := by
        have hsp := next.wrap_sp_pushAll rest
        rw [Bytes.length_flatten_reverse]
        unfold wrap Address.move space at *
        omega
      rw [List.reverse_cons, List.flatten_append, List.flatten_singleton]
      refine hrest.append ?_
      rw [habove, Memory.holds_wrap]
      exact hkept

/-- Outputs on the stack are pushed one after another. -/
theorem writeOutputs_eq_pushAll (m : Machine) {shapes : List Shape} {results : List LaneVector}
    (hresults : List.Forall₂ HasShape shapes results) :
    m.writeOutputs (shapes.map Operand.onStack) results =
      m.pushAll (results.map LaneVector.encode) := by
  induction hresults generalizing m with
  | nil => rfl
  | @cons shape result shapes results hshape hrest ih =>
      have hfirst : m.writeOutput (.onStack shape) result = m.pushBytes result.encode := by
        rw [pushBytes, hshape.length_encode]
        rfl
      rw [List.map_cons, writeOutputs, ih, hfirst]
      rfl

theorem stackBytes_onStack (shapes : List Shape) :
    stackBytes (shapes.map Operand.onStack) = (shapes.map Shape.byteLength).sum := by
  induction shapes with
  | nil => rfl
  | cons shape rest ih =>
      rw [List.map_cons, stackBytes_cons_of_stack rfl, ih, List.map_cons, List.sum_cons]
      rfl

/-- What was pushed is popped again. -/
theorem lanes_popInputs (hplain : m.memory.Plain) {shapes : List Shape} {runs : List Bytes}
    (hruns : List.Forall₂ (fun shape bytes => bytes.length = shape.byteLength) shapes runs)
    {sp : Nat} (hholds : m.memory.Holds sp runs.reverse.flatten) :
    let operands := shapes.map Operand.onStack
    (operands.zipWith m.readInput (popInputs sp operands).2).map Input.lanes =
      shapes.zipWith Shape.decode runs := by
  intro operands
  induction hruns with
  | nil => rfl
  | @cons shape bytes shapes runs hlength hrest ih =>
      rw [List.reverse_cons, List.flatten_append, List.flatten_singleton] at hholds
      have hsp := (stacked_popInputs sp (shapes.map Operand.onStack)).wrap_above
      have hread := hholds.right.read_eq hplain
      rw [stackBytes_onStack, ← Shape.length_flatten hrest] at hsp
      rw [Bytes.length_flatten_reverse, ← hsp, Memory.read_wrap hplain.size_eq, hlength] at hread
      simp only [operands, List.map_cons, Operand.onStack, popInputs, List.zipWith_cons_cons,
        readInput, hread, ih hholds.left, Shape.decode]

end Machine

end VectorStack
