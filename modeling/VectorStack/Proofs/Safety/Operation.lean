import Mathlib.Data.List.Basic
import VectorStack.Proofs.Machine.Step
import VectorStack.Proofs.Safety.Lanes
/-!
Operations on lane vectors with guards. Whole numbers are divided after a test of the divisor, lanes
are selected modulo the width, and a reduction starts from a lane that is there.
-/

namespace VectorStack

open Instruction (maxWidth)

/-- An operation on two cells. Only the division of signed numbers could divide by zero; that of
unsigned ones has an answer for it. -/
def BinaryOp.guardedApply (op : BinaryOp) (mode : Mode) (a b : Cell) : Guarded Cell :=
  match op, mode with
  | .div, .signed =>
    if b.signed = 0 then pure 0
    else do
      let _ ← Guard.divisor b.signed.natAbs
      pure (Cell.ofInt (a.signed.tdiv b.signed))
  | .mod, .signed =>
    if b.signed = 0 then pure 0
    else do
      let _ ← Guard.divisor b.signed.natAbs
      pure (Cell.ofInt (a.signed.fmod b.signed))
  | _, _ => pure (op.apply mode a b)

theorem BinaryOp.guardedApply_eq (op : BinaryOp) (mode : Mode) (a b : Cell) :
    op.guardedApply mode a b = .ok (op.apply mode a b) := by
  have hpos : b.signed ≠ 0 → 0 < b.signed.natAbs := Int.natAbs_pos.mpr
  have hzero : b.signed = 0 → b = 0 := by
    intro hsigned
    rw [← Cell.ofInt_signed b, hsigned]
    rfl
  unfold guardedApply
  split
  · split
    · next hsigned => rw [apply, Mode.div, hsigned, Int.tdiv_zero]; rfl
    · next hsigned => rw [Guard.divisor_eq (hpos hsigned)]; rfl
  · split
    · next hsigned => rw [apply, Mode.mod, if_pos (hzero hsigned)]; rfl
    · next hsigned =>
        have hne : b ≠ 0 := fun hb => hsigned (hb ▸ rfl)
        rw [Guard.divisor_eq (hpos hsigned), apply, Mode.mod, if_neg hne]
        rfl
  · rfl

/-- A shape whose vectors have lanes, all of which fit the array. -/
structure Shape.Fits (shape : Shape) : Prop where
  width_pos : 1 ≤ shape.width
  width_le : shape.width ≤ maxWidth

namespace LaneVector

/-- Compute a vector of a shape, converting every lane from a mode. -/
def guardedFill (out : Shape) (source : Mode) (f : Nat → Guarded Cell) : Guarded LaneVector :=
  guardedTabulate out.type out.width fun lane => do
    let cell ← f lane
    pure (out.type.mode.convert cell source)

def guardedMapInto (out : Shape) (f : Mode → Cell → Cell) (a : LaneVector) :
    Guarded LaneVector :=
  guardedFill out a.mode fun lane => do
    let cell ← a.guardedLane lane
    pure (f a.mode cell)

def guardedZipInto (out : Shape) (f : Mode → Cell → Cell → Guarded Cell) (a b : LaneVector) :
    Guarded LaneVector :=
  guardedFill out a.mode fun lane => do
    let first ← a.guardedLane lane
    let second ← b.guardedLane lane
    f a.mode first second

/-- Fold all lanes but the first into the first. -/
def guardedReduceInto (out : Shape) (f : Mode → Cell → Cell → Guarded Cell) (a : LaneVector) :
    Guarded LaneVector := do
  let lanes ← a.guardedLanes
  let start ← Guard.part lanes.length 1
  let first ← a.guardedLane 0
  let folded ← (lanes.drop start).foldlM (f a.mode) first
  guardedFill out a.mode fun _ => pure folded

def guardedSelectInto (out : Shape) (a indices : LaneVector) : Guarded LaneVector :=
  guardedFill out a.mode fun lane => do
    let index ← indices.guardedLane lane
    let width ← Guard.divisor (max a.width 1)
    a.guardedLane (index.toNat % width)

end LaneVector

/-- The outputs of an operation that only computes. Operands other than those of its template are
elements that the machine does not have. -/
def Opcode.guardedResults : Opcode → List LaneVector → List Shape → Guarded (List LaneVector)
  | nop, [], [] | pop, [_], [] => pure []
  | push, [a], [out] | convert _, [a], [out] => do
    let result ← a.guardedMapInto out fun _ cell => cell
    pure [result]
  | dup, [a], [first, second] => do
    let copy ← a.guardedMapInto first fun _ cell => cell
    let other ← copy.guardedMapInto second fun _ cell => cell
    pure [copy, other]
  | swizzle, [a, indices], [out] => do
    let result ← a.guardedSelectInto out indices
    pure [result]
  | unary op, [a], [out] => do
    let result ← a.guardedMapInto out op.apply
    pure [result]
  | binary op, [a, b], [out] => do
    let result ← a.guardedZipInto out op.guardedApply b
    pure [result]
  | reduce op, [a], [out] => do
    let result ← a.guardedReduceInto out op.op.guardedApply
    pure [result]
  | real function, [a], [out] => do
    let result ← a.guardedMapInto out fun mode cell =>
      mode.ofFloat (function.apply (mode.toFloat cell))
    pure [result]
  | atan2, [a, b], [out] => do
    let result ← a.guardedZipInto out (fun mode x y =>
      pure (mode.ofFloat (Float.atan2 (mode.toFloat x) (mode.toFloat y)))) b
    pure [result]
  | _, _, _ => throw .bounds

namespace LaneVector

variable {a b indices : LaneVector} {out : Shape}

theorem guardedFill_eq (hout : out.Fits) (source : Mode) {f : Nat → Guarded Cell} {g : Nat → Cell}
    (hf : ∀ lane, f lane = .ok (g lane)) :
    guardedFill out source f = .ok (out.fill source g) := by
  apply guardedTabulate_eq out.type hout.width_le
  intro lane _
  rw [hf lane]
  rfl

theorem Fits.guardedMapInto_eq (ha : a.Fits) (hout : out.Fits) (f : Mode → Cell → Cell) :
    a.guardedMapInto out f = .ok (a.mapInto out f) := by
  apply guardedFill_eq hout
  intro lane
  rw [ha.guardedLane_eq]
  rfl

theorem Fits.guardedZipInto_eq (ha : a.Fits) (hb : b.Fits) (hout : out.Fits)
    {f : Mode → Cell → Cell → Guarded Cell} {g : Mode → Cell → Cell → Cell}
    (hf : ∀ mode x y, f mode x y = .ok (g mode x y)) :
    a.guardedZipInto out f b = .ok (a.zipInto out g b) := by
  apply guardedFill_eq hout
  intro lane
  rw [ha.guardedLane_eq, Guarded.ok_bind, hb.guardedLane_eq, Guarded.ok_bind, hf]

theorem Fits.guardedReduceInto_eq (ha : a.Fits) (hout : out.Fits)
    {f : Mode → Cell → Cell → Guarded Cell} {g : Mode → Cell → Cell → Cell}
    (hf : ∀ mode x y, f mode x y = .ok (g mode x y)) :
    a.guardedReduceInto out f = .ok (a.reduceInto out g) := by
  have hpos : 1 ≤ a.lanes.length := by
    rw [ha.length_lanes]
    exact ha.width_pos
  rw [guardedReduceInto, ha.guardedLanes_eq, Guarded.ok_bind, Guard.part_eq hpos, Guarded.ok_bind,
    ha.guardedLane_eq, Guarded.ok_bind, Guarded.foldlM_eq (hf a.mode), Guarded.ok_bind]
  exact guardedFill_eq hout a.mode fun _ => rfl

/-- Lanes that start over are selected modulo the width in any case. -/
theorem Fits.guardedSelectInto_eq (ha : a.Fits) (hindices : indices.Fits) (hout : out.Fits) :
    a.guardedSelectInto out indices = .ok (a.selectInto out indices) := by
  have hmax : 0 < max a.width 1 := Nat.lt_of_lt_of_le Nat.one_pos (Nat.le_max_right _ _)
  apply guardedFill_eq hout
  intro lane
  rw [hindices.guardedLane_eq, Guarded.ok_bind, Guard.divisor_eq hmax, Guarded.ok_bind,
    ha.guardedLane_eq, LaneVector.lane, Nat.mod_mod]
  rfl

theorem fits_fill (hout : out.Fits) (source : Mode) (f : Nat → Cell) : (out.fill source f).Fits :=
  fits_tabulate out.type _ hout.width_pos hout.width_le

end LaneVector

namespace Opcode

/-- Outputs that can be written: one for every place, each with lanes that fit. -/
structure Answers (outputs : List Shape) (results : List LaneVector) : Prop where
  length_eq : results.length = outputs.length
  fits : ∀ lanes ∈ results, lanes.Fits

theorem answers_nil : Answers [] [] := ⟨rfl, by simp⟩

theorem answers_singleton {out : Shape} {lanes : LaneVector} (hlanes : lanes.Fits) :
    Answers [out] [lanes] := by
  refine ⟨rfl, ?_⟩
  intro other hmem
  rw [List.mem_singleton.mp hmem]
  exact hlanes

theorem answers_fill {out : Shape} (hout : out.Fits) (source : Mode) (f : Nat → Cell) :
    Answers [out] [out.fill source f] :=
  answers_singleton (LaneVector.fits_fill hout source f)

/-- The guards let the operation pass on these inputs, and what it computes can be written. -/
structure Passes (op : Opcode) (inputs : List LaneVector) (outputs : List Shape) : Prop where
  guardedResults_eq : op.guardedResults inputs outputs = .ok (op.results inputs outputs)
  answers : Answers outputs (op.results inputs outputs)

variable {op : Opcode} {inputs : List LaneVector} {outputs : List Shape}

/-- An operation that computes one vector of the shape asked for. -/
theorem passes_of_fill {out : Shape} {guarded : Guarded LaneVector} {source : Mode} {f : Nat → Cell}
    (hout : out.Fits)
    (hcompute : op.guardedResults inputs [out] = guarded >>= fun result => pure [result])
    (hguarded : guarded = .ok (out.fill source f))
    (hresults : op.results inputs [out] = [out.fill source f]) : op.Passes inputs [out] where
  guardedResults_eq := by
    rw [hcompute, hguarded, hresults]
    rfl
  answers := by
    rw [hresults]
    exact answers_fill hout source f

theorem passes_of_one_input (hinputs : inputs.length = 1) (houtputs : outputs.length = 1)
    (hfits : ∀ v ∈ inputs, v.Fits) (hshapes : ∀ out ∈ outputs, out.Fits)
    (hpasses : ∀ a out, a.Fits → out.Fits → op.Passes [a] [out]) : op.Passes inputs outputs := by
  obtain ⟨a, rfl⟩ := List.length_eq_one_iff.mp hinputs
  obtain ⟨out, rfl⟩ := List.length_eq_one_iff.mp houtputs
  exact hpasses a out (hfits a List.mem_cons_self) (hshapes out List.mem_cons_self)

theorem passes_of_two_inputs (hinputs : inputs.length = 2) (houtputs : outputs.length = 1)
    (hfits : ∀ v ∈ inputs, v.Fits) (hshapes : ∀ out ∈ outputs, out.Fits)
    (hpasses : ∀ a b out, a.Fits → b.Fits → out.Fits → op.Passes [a, b] [out]) :
    op.Passes inputs outputs := by
  obtain ⟨a, b, rfl⟩ := List.length_eq_two.mp hinputs
  obtain ⟨out, rfl⟩ := List.length_eq_one_iff.mp houtputs
  have hb := hfits b (List.mem_cons_of_mem _ List.mem_cons_self)
  exact hpasses a b out (hfits a List.mem_cons_self) hb (hshapes out List.mem_cons_self)

/-- The second copy is made of the first one. -/
theorem passes_dup {a : LaneVector} {first second : Shape} (ha : a.Fits) (hfirst : first.Fits)
    (hsecond : second.Fits) : dup.Passes [a] [first, second] := by
  have hcopy : (a.mapInto first fun _ cell => cell).Fits := LaneVector.fits_fill hfirst _ _
  have hother : ((a.mapInto first fun _ cell => cell).mapInto second fun _ cell => cell).Fits :=
    LaneVector.fits_fill hsecond _ _
  refine ⟨?_, rfl, List.forall_mem_cons.mpr ⟨hcopy, List.forall_mem_singleton.mpr hother⟩⟩
  rw [guardedResults, ha.guardedMapInto_eq hfirst, Guarded.ok_bind, hcopy.guardedMapInto_eq hsecond]
  rfl

/-- Operations that only compute pass on as many operands as they have. -/
theorem Computes.passes (hcomputes : op.Computes)
    (hinputs : inputs.length = op.template.inputs.length)
    (houtputs : outputs.length = op.template.outputs.length)
    (hfits : ∀ v ∈ inputs, v.Fits) (hshapes : ∀ out ∈ outputs, out.Fits) :
    op.Passes inputs outputs := by
  cases op with
  | nop =>
      cases List.length_eq_zero_iff.mp hinputs
      cases List.length_eq_zero_iff.mp houtputs
      exact ⟨rfl, answers_nil⟩
  | pop =>
      obtain ⟨a, rfl⟩ := List.length_eq_one_iff.mp hinputs
      cases List.length_eq_zero_iff.mp houtputs
      exact ⟨rfl, answers_nil⟩
  | convert target =>
      obtain ⟨type, htemplate⟩ := exists_template_convert target
      rw [htemplate] at hinputs houtputs
      exact passes_of_one_input hinputs houtputs hfits hshapes fun a out ha hout =>
        passes_of_fill hout rfl (ha.guardedMapInto_eq hout _) rfl
  | push | unary op | real function =>
      exact passes_of_one_input hinputs houtputs hfits hshapes fun a out ha hout =>
        passes_of_fill hout rfl (ha.guardedMapInto_eq hout _) rfl
  | dup =>
      obtain ⟨a, rfl⟩ := List.length_eq_one_iff.mp hinputs
      obtain ⟨first, second, rfl⟩ := List.length_eq_two.mp houtputs
      have hsecond := hshapes second (List.mem_cons_of_mem _ List.mem_cons_self)
      exact passes_dup (hfits a List.mem_cons_self) (hshapes first List.mem_cons_self) hsecond
  | swizzle =>
      exact passes_of_two_inputs hinputs houtputs hfits hshapes fun a places out ha hplaces hout =>
        passes_of_fill hout rfl (ha.guardedSelectInto_eq hplaces hout) rfl
  | binary op =>
      exact passes_of_two_inputs hinputs houtputs hfits hshapes fun a b out ha hb hout =>
        passes_of_fill hout rfl (ha.guardedZipInto_eq hb hout op.guardedApply_eq) rfl
  | atan2 =>
      exact passes_of_two_inputs hinputs houtputs hfits hshapes fun a b out ha hb hout =>
        passes_of_fill hout rfl (ha.guardedZipInto_eq hb hout fun _ _ _ => rfl) rfl
  | reduce op =>
      exact passes_of_one_input hinputs houtputs hfits hshapes fun a out ha hout =>
        passes_of_fill hout rfl (ha.guardedReduceInto_eq hout op.op.guardedApply_eq) rfl
  | _ => exact hcomputes.elim

end Opcode

end VectorStack
