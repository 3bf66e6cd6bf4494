import VectorStack.Machine.Execute
import VectorStack.Proofs.Arithmetic.Integer
import VectorStack.Proofs.Machine.Execution
import VectorStack.Proofs.Safety.Operand
/-!
Performing an operation with guards. The type of an operand bounds the numbers in it, so that the
place of an entry in a table and the negation of a distance are numbers of 64 bits.
-/

namespace VectorStack

open Address (space wrap)
open Instruction (maxWidth)

namespace LaneVector

def guardedAddress (v : LaneVector) : Guarded Nat := do
  let cell ← v.guardedLane 0
  pure (wrap cell.toNat)

def guardedDistance (v : LaneVector) : Guarded Int := do
  let cell ← v.guardedLane 0
  pure cell.signed

def guardedNumber (v : LaneVector) : Guarded Nat := do
  let cell ← v.guardedLane 0
  pure cell.toNat

def guardedAll (test : ZeroTest) (a : LaneVector) : Guarded Bool := do
  let lanes ← a.guardedLanes
  pure (lanes.all fun cell => test.accepts (a.mode.compare cell 0))

def guardedAllPairs (relation : Relation) (a b : LaneVector) : Guarded Bool := do
  let tests ← (List.range (max a.width b.width)).mapM fun lane => do
    let first ← a.guardedLane lane
    let second ← b.guardedLane lane
    pure (relation.accepts (a.mode.compare first second))
  pure (tests.all id)

end LaneVector

namespace Machine

def guardedEffectiveAddress (m : Machine) : Base → LaneVector → Guarded Nat
  | .absolute, v => v.guardedAddress
  | .frame, v => do
    let distance ← v.guardedDistance
    pure (Address.move m.fp distance)
  | .stack, v => do
    let distance ← v.guardedDistance
    pure (Address.move m.sp distance)

def guardedReadAddress (m : Machine) (address : Nat) : Guarded (Nat × Machine) := do
  let (target, m) ← m.guardedReadNat address Address.byteCount
  pure (wrap target, m)

def guardedBranch (m : Machine) (taken : Bool) (target : LaneVector) : Guarded Machine :=
  if taken then do
    let target ← target.guardedAddress
    pure (m.withPc target)
  else pure m

def guardedEnter (m : Machine) (target : Nat) : Guarded Machine := do
  let distance ← Guard.signed 63 (-(frameBytes : Int))
  let frame := Address.move m.sp distance
  let memory ← m.memory.guardedWriteNat frame Address.byteCount m.fp
  let memory ← memory.guardedWriteNat (Address.move frame Address.byteCount) Address.byteCount m.pc
  pure { m with memory, registers := ⟨target, frame, frame⟩ }

def guardedLeave (m : Machine) : Guarded Machine := do
  let frame := m.fp
  let (fp, m) ← m.guardedReadAddress frame
  let (pc, m) ← m.guardedReadAddress (Address.move frame Address.byteCount)
  pure { m with registers := ⟨pc, fp, Address.move frame frameBytes⟩ }

def guardedTextAt (m : Machine) (address : Nat) : Guarded (String × Machine) := do
  let (length, m) ← m.guardedReadNat address 1
  let (bytes, m) ← m.guardedRead (Address.move address 1) length
  pure (String.ofList (Text.decodeLossy bytes), m)

def guardedLoad (m : Machine) (out : Shape) (address : Nat) :
    Guarded (LaneVector × Machine) := do
  let length ← out.guardedByteLength
  let (bytes, m) ← m.guardedRead address length
  let lanes ← LaneVector.guardedOfBytes out.type out.width bytes
  pure (lanes, m)

def guardedStore (m : Machine) (a : LaneVector) (address : Nat) : Guarded Machine := do
  let _ ← Shape.guardedByteLength ⟨a.type, a.width⟩
  let bytes ← a.guardedEncode
  let memory ← m.memory.guardedWrite address bytes
  pure { m with memory }

/-- Perform an operation on inputs already popped. Operands other than those of its template are
elements that the machine does not have. -/
def guardedExecute (m : Machine) :
    Opcode → List Input → List Shape → Guarded (Machine × List LaneVector)
  | .halt, [], [] => pure (m.setSleep halted, [])
  | .load base, [a], [out] => do
    let address ← m.guardedEffectiveAddress base a.lanes
    let (lanes, m) ← m.guardedLoad out address
    pure (m, [lanes])
  | .store base, [a, target], [] => do
    let address ← m.guardedEffectiveAddress base target.lanes
    let m ← m.guardedStore a.lanes address
    pure (m, [])
  | .getRegister register, [], [out] => do
    let lanes ← LaneVector.guardedTabulate out.type out.width fun _ =>
      pure (UInt64.ofNat (m.readRegister register))
    pure (m, [lanes])
  | .setRegister register, [a], [] => do
    let address ← a.lanes.guardedAddress
    pure (m.writeRegister register address, [])
  | .moveRegister register, [a], [] => do
    let distance ← a.lanes.guardedDistance
    pure (m.writeRegister register (Address.move (m.readRegister register) distance), [])
  | .jump, [a], [] => do
    let target ← a.lanes.guardedAddress
    pure (m.withPc target, [])
  | .branchZero test, [a, target], [] => do
    let taken ← a.lanes.guardedAll test
    let m ← m.guardedBranch taken target.lanes
    pure (m, [])
  | .branchCompare relation, [a, b, target], [] => do
    let taken ← a.lanes.guardedAllPairs relation b.lanes
    let m ← m.guardedBranch taken target.lanes
    pure (m, [])
  | .switch, [index, table], [] => do
    let number ← index.lanes.guardedNumber
    let distance ← Guard.unsigned 64 ((number * Address.byteCount : Nat) : Int)
    let table ← table.lanes.guardedAddress
    let (target, m) ← m.guardedReadAddress (Address.move table distance)
    pure (m.withPc target, [])
  | .call, [a], [] => do
    let target ← a.lanes.guardedAddress
    let m ← m.guardedEnter target
    pure (m, [])
  | .reserve, [a], [] => do
    let distance ← a.lanes.guardedDistance
    let distance ← Guard.signed 63 (-distance)
    pure (m.withSp (Address.move m.fp distance), [])
  | .ret, [], [] => do
    let m ← m.guardedLeave
    pure (m, [])
  | .random, [], [out] => do
    let (bits, generator) := m.generator.drawMany out.width
    let lanes ← LaneVector.guardedTabulate out.type out.width fun lane =>
      match bits[lane]? with
      | some bits => pure (out.type.mode.ofRandomBits bits)
      | none => throw .bounds
    pure ({ m with generator }, [lanes])
  | .sleep, [a], [] => do
    let count ← a.lanes.guardedNumber
    pure (m.setSleep count, [])
  | .mapDevice, [device, address, length], [] => do
    let device ← device.lanes.guardedNumber
    let address ← address.lanes.guardedAddress
    let length ← length.lanes.guardedNumber
    pure ({ m with memory := (m.memory.map? address device 0 length).getD m.memory }, [])
  | .debug, [a], [] => do
    let line ← a.lanes.guardedFormat
    pure (m.print line, [])
  | .debugText, [a], [] => do
    let (line, m) ← m.guardedTextAt a.address
    pure (m.print line, [])
  | op, inputs, outputs => do
    let results ← op.guardedResults (inputs.map Input.lanes) outputs
    pure (m, results)

end Machine

namespace LaneVector

variable {v a b : LaneVector}

theorem Fits.guardedAddress_eq (hfits : v.Fits) : v.guardedAddress = .ok v.address := by
  rw [guardedAddress, hfits.guardedLane_eq]
  rfl

theorem Fits.guardedDistance_eq (hfits : v.Fits) : v.guardedDistance = .ok v.distance := by
  rw [guardedDistance, hfits.guardedLane_eq]
  rfl

theorem Fits.guardedNumber_eq (hfits : v.Fits) : v.guardedNumber = .ok v.number := by
  rw [guardedNumber, hfits.guardedLane_eq]
  rfl

theorem Fits.guardedAll_eq (hfits : v.Fits) (test : ZeroTest) :
    v.guardedAll test = .ok (v.all test) := by
  rw [guardedAll, hfits.guardedLanes_eq]
  rfl

theorem Fits.guardedAllPairs_eq (ha : a.Fits) (hb : b.Fits) (relation : Relation) :
    a.guardedAllPairs relation b = .ok (a.allPairs relation b) := by
  have htests : (List.range (max a.width b.width)).mapM (fun lane => do
      let first ← a.guardedLane lane
      let second ← b.guardedLane lane
      pure (relation.accepts (a.mode.compare first second))) =
        .ok ((List.range (max a.width b.width)).map fun lane =>
          relation.accepts (a.mode.compare (a.lane lane) (b.lane lane))) := by
    apply Guarded.mapM_eq
    intro lane _
    rw [ha.guardedLane_eq, Guarded.ok_bind, hb.guardedLane_eq]
    rfl
  rw [guardedAllPairs, htests, Guarded.ok_bind, allPairs, List.all_map]
  rfl

/-- The number in a lane of 32 bits without a sign has 32 bits. -/
theorem number_ofBytes_lt {width : Nat} (hpos : 1 ≤ width) (bytes : Bytes) :
    (ofBytes .u32 width bytes).number < 2 ^ 32 := by
  have hlane : ((DataType.u32.decodeLane bytes).toNat : Int) =
      (Bytes.toNat (bytes.take 4) : Int) % (2 ^ 32 : Nat) :=
    @DataType.integer_decodeLane .u32 trivial bytes
  rw [number, lane_zero_ofBytes hpos]
  omega

/-- The distance in a lane of 32 bits with a sign has 32 bits. -/
theorem distance_ofBytes_bounds {width : Nat} (hpos : 1 ≤ width) (bytes : Bytes) :
    -(2 ^ 31 : Int) ≤ (ofBytes .i32 width bytes).distance ∧
      (ofBytes .i32 width bytes).distance < 2 ^ 31 := by
  have hlane : (DataType.i32.decodeLane bytes).signed =
      Int.bmod (Bytes.toNat (bytes.take 4)) (2 ^ 32) :=
    @DataType.integer_decodeLane .i32 trivial bytes
  have hlow := Int.le_bmod (x := Bytes.toNat (bytes.take 4)) (by decide : 0 < 2 ^ 32)
  have hhigh := Int.bmod_lt (x := Bytes.toNat (bytes.take 4)) (by decide : 0 < 2 ^ 32)
  rw [distance, lane_zero_ofBytes hpos, hlane]
  omega

end LaneVector

namespace Machine

/-- The registers are numbers of 32 bits and the sleep counter is one of 64 bits. -/
structure Fits (m : Machine) : Prop where
  pc_lt : m.pc < 2 ^ 32
  fp_lt : m.fp < 2 ^ 32
  sp_lt : m.sp < 2 ^ 32
  sleep_lt : m.sleep < 2 ^ 64

variable {m : Machine} {v : LaneVector}

theorem Fits.withPc (hfits : m.Fits) {pc : Nat} (hlt : pc < 2 ^ 32) : (m.withPc pc).Fits :=
  ⟨hlt, hfits.fp_lt, hfits.sp_lt, hfits.sleep_lt⟩

theorem Fits.withSp (hfits : m.Fits) {sp : Nat} (hlt : sp < 2 ^ 32) : (m.withSp sp).Fits :=
  ⟨hfits.pc_lt, hfits.fp_lt, hlt, hfits.sleep_lt⟩

theorem Fits.observed {after : Machine} (hfits : m.Fits) (hobserved : m.Observed after) :
    after.Fits := by
  obtain ⟨memory, -, rfl⟩ := hobserved
  exact ⟨hfits.pc_lt, hfits.fp_lt, hfits.sp_lt, hfits.sleep_lt⟩

theorem effectiveAddress_lt (m : Machine) (base : Base) (v : LaneVector) :
    m.effectiveAddress base v < space := by
  cases base with
  | absolute => exact Address.wrap_lt _
  | frame | stack => exact Address.move_lt _ _

theorem guardedEffectiveAddress_eq (m : Machine) (base : Base) (hfits : v.Fits) :
    m.guardedEffectiveAddress base v = .ok (m.effectiveAddress base v) := by
  cases base with
  | absolute => exact hfits.guardedAddress_eq
  | frame | stack =>
      rw [guardedEffectiveAddress, hfits.guardedDistance_eq]
      rfl

theorem guardedReadAddress_eq (hsound : m.memory.Sound) {address : Nat} (hlt : address < 2 ^ 32) :
    m.guardedReadAddress address =
      .ok (m.readAddress address, m.afterRead address Address.byteCount) := by
  rw [guardedReadAddress, guardedReadNat_eq hsound hlt (by decide)]
  rfl

theorem guardedBranch_eq (m : Machine) (taken : Bool) (hfits : v.Fits) :
    m.guardedBranch taken v = .ok (m.branch taken v.address) := by
  cases taken with
  | false => rfl
  | true =>
      rw [guardedBranch, if_pos rfl, hfits.guardedAddress_eq]
      rfl

theorem guardedEnter_eq (hsound : m.memory.Sound) (target : Nat) :
    m.guardedEnter target = .ok (m.enter target) := by
  have hdistance : Guard.signed 63 (-(frameBytes : Int)) = .ok (-(frameBytes : Int)) :=
    Guard.signed_eq (by decide) (by decide)
  let frame := Address.move m.sp (-(frameBytes : Int))
  have hframe : frame < 2 ^ 32 := lt_of_lt_space (Address.move_lt _ _)
  have hreturn := lt_of_lt_space (Address.move_lt frame Address.byteCount)
  have hcount : Address.byteCount ≤ 8 := by decide
  have hsaved : (m.memory.writeNat frame Address.byteCount m.fp).Sound :=
    hsound.later (m.memory.later_write _ _)
  have hfirst := hsound.guardedWriteNat_eq hframe hcount m.fp
  have hsecond := hsaved.guardedWriteNat_eq hreturn hcount m.pc
  rw [guardedEnter, hdistance, Guarded.ok_bind]
  change (m.memory.guardedWriteNat frame _ _ >>= fun memory =>
    memory.guardedWriteNat _ _ _ >>= _) = _
  rw [hfirst, Guarded.ok_bind, hsecond]
  rfl

theorem guardedLeave_eq (hsound : m.memory.Sound) (hfp : m.fp < 2 ^ 32) :
    m.guardedLeave = .ok m.leave := by
  have hreturn := lt_of_lt_space (Address.move_lt m.fp Address.byteCount)
  have hnext : (m.afterRead m.fp Address.byteCount).memory.Sound :=
    hsound.observed (m.observed_afterRead _ _).memory
  simp only [guardedLeave, guardedReadAddress_eq hsound hfp, guardedReadAddress_eq hnext hreturn,
    Guarded.ok_bind]
  rfl

theorem guardedTextAt_eq (hsound : m.memory.Sound) {address : Nat} (hlt : address < 2 ^ 32) :
    m.guardedTextAt address = .ok (m.textAt address) := by
  have hlength : m.memory.readNat address 1 < 256 := by
    have hbytes := Bytes.toNat_lt (m.memory.read address 1)
    rw [Memory.length_read] at hbytes
    exact hbytes
  have hstart := Address.move_lt address 1
  have hspace : space = 0x1000000 := rfl
  have hnext : (m.afterRead address 1).memory.Sound :=
    hsound.observed (m.observed_afterRead _ _).memory
  rw [guardedTextAt, guardedReadNat_eq hsound hlt (by decide), Guarded.ok_bind]
  dsimp only
  rw [guardedRead_eq hnext (by omega)]
  rfl

theorem guardedLoad_eq (hsound : m.memory.Sound) {out : Shape} (hout : out.Fits) {address : Nat}
    (hlt : address < space) :
    m.guardedLoad out address =
      .ok (.ofBytes out.type out.width (m.memory.read address out.byteLength),
        m.afterRead address out.byteLength) := by
  have hread := guardedRead_eq hsound
    (add_le_of_le_operandBytes (lt_of_lt_space hlt) hout.byteLength_le)
  simp only [guardedLoad, hout.guardedByteLength_eq, Guarded.ok_bind, hread,
    LaneVector.guardedOfBytes_eq _ _ hout.width_le]
  rfl

theorem guardedStore_eq (hsound : m.memory.Sound) (hfits : v.Fits) {address : Nat}
    (hlt : address < space) :
    m.guardedStore v address =
      .ok { m with memory := m.memory.write address v.encode } := by
  have hshape : Shape.Fits ⟨v.type, v.width⟩ := ⟨hfits.width_pos, hfits.width_le⟩
  have hend := add_le_of_le_operandBytes (lt_of_lt_space hlt) hfits.length_encode_le
  rw [guardedStore, hshape.guardedByteLength_eq, Guarded.ok_bind, hfits.guardedEncode_eq,
    Guarded.ok_bind, hsound.guardedWrite_eq hend]
  rfl

/-- An input that was read for a slot of a template. -/
structure Reads (width : Nat) (slot : Slot) (input : Input) : Prop where
  address_lt : input.address < 2 ^ 32
  fits : input.lanes.Fits
  exists_eq : ∃ type bytes,
    input.lanes = .ofBytes (slot.resolveType type) (slot.resolveWidth width) bytes

variable {width : Nat} {input : Input}

/-- The place of an entry in a table of addresses has 64 bits. -/
theorem Reads.entry_lt (hreads : Reads width (.scalar .u32) input) :
    input.lanes.number * Address.byteCount < 2 ^ 64 := by
  obtain ⟨type, bytes, hlanes⟩ := hreads.exists_eq
  have hnumber : input.lanes.number < 2 ^ 32 := by
    rw [hlanes]
    exact LaneVector.number_ofBytes_lt (Nat.le_refl 1) bytes
  unfold Address.byteCount
  omega

theorem Reads.distance_bounds (hreads : Reads width .distance input) :
    -(2 ^ 31 : Int) ≤ input.lanes.distance ∧ input.lanes.distance < 2 ^ 31 := by
  obtain ⟨type, bytes, hlanes⟩ := hreads.exists_eq
  rw [hlanes]
  exact LaneVector.distance_ofBytes_bounds (Nat.le_refl 1) bytes

theorem fits_of_reads {slots : List Slot} {inputs : List Input}
    (hinputs : List.Forall₂ (Reads width) slots inputs) :
    ∀ v ∈ inputs.map Input.lanes, v.Fits := by
  induction hinputs with
  | nil => simp
  | cons hreads hrest ih =>
      intro v hmem
      rcases List.mem_cons.mp hmem with rfl | hmem
      · exact hreads.fits
      · exact ih v hmem

/-- No guard fails in an operation that only computes. -/
theorem Computes.guardedExecute_eq {op : Opcode} (hcomputes : op.Computes) {inputs : List Input}
    {outputs : List Shape} (hinputs : List.Forall₂ (Reads width) op.template.inputs inputs)
    (houtputs : outputs.length = op.template.outputs.length) (hshapes : ∀ out ∈ outputs, out.Fits) :
    m.guardedExecute op inputs outputs = .ok (m.execute op inputs outputs) ∧
      Opcode.Answers outputs (m.execute op inputs outputs).2 := by
  have hlength : (inputs.map Input.lanes).length = op.template.inputs.length := by
    rw [List.length_map, hinputs.length_eq]
  obtain ⟨hresults, hanswers⟩ :=
    hcomputes.passes hlength houtputs (fits_of_reads hinputs) hshapes
  have hguarded : m.guardedExecute op inputs outputs =
      op.guardedResults (inputs.map Input.lanes) outputs >>= fun results => pure (m, results) := by
    cases op with
    | nop | pop | push | dup | swizzle | unary | binary | reduce | convert | real | atan2 => rfl
    | _ => exact hcomputes.elim
  rw [hguarded, hresults, hcomputes.execute_eq]
  exact ⟨rfl, hanswers⟩

/-- No guard fails in an operation without outputs if none fails where it is given none. -/
theorem guardedExecute_of_outputs_nil {op : Opcode} (hnone : op.template.outputs = [])
    {inputs : List Input} {outputs : List Shape}
    (houtputs : outputs.length = op.template.outputs.length)
    (hexecute : m.guardedExecute op inputs [] = .ok (m.execute op inputs [])) :
    m.guardedExecute op inputs outputs = .ok (m.execute op inputs outputs) ∧
      Opcode.Answers outputs (m.execute op inputs outputs).2 := by
  rw [hnone] at houtputs
  rw [List.length_eq_zero_iff.mp houtputs, m.results_execute_eq_nil hnone]
  exact ⟨hexecute, Opcode.answers_nil⟩

/-- No guard fails in an operation with one input and no outputs if none fails on what is read for
the input. -/
theorem guardedExecute_of_input {op : Opcode} {slot : Slot} (hslot : op.template.inputs = [slot])
    (hnone : op.template.outputs = [])
    (hexecute : ∀ input, Reads width slot input →
      m.guardedExecute op [input] [] = .ok (m.execute op [input] []))
    {inputs : List Input} {outputs : List Shape}
    (hinputs : List.Forall₂ (Reads width) op.template.inputs inputs)
    (houtputs : outputs.length = op.template.outputs.length) :
    m.guardedExecute op inputs outputs = .ok (m.execute op inputs outputs) ∧
      Opcode.Answers outputs (m.execute op inputs outputs).2 := by
  rw [hslot] at hinputs
  obtain _ | ⟨hreads, _ | _⟩ := hinputs
  exact guardedExecute_of_outputs_nil hnone houtputs (hexecute _ hreads)

/-- No guard fails in an operation with one output if none fails on the shape of the output, which
the result fits. -/
theorem guardedExecute_of_output {op : Opcode} {slot : Slot} (hslot : op.template.outputs = [slot])
    {inputs : List Input}
    (hexecute : ∀ out : Shape, out.Fits →
      ∃ after result, m.execute op inputs [out] = (after, [result]) ∧ result.Fits ∧
        m.guardedExecute op inputs [out] = .ok (after, [result]))
    {outputs : List Shape} (houtputs : outputs.length = op.template.outputs.length)
    (hshapes : ∀ out ∈ outputs, out.Fits) :
    m.guardedExecute op inputs outputs = .ok (m.execute op inputs outputs) ∧
      Opcode.Answers outputs (m.execute op inputs outputs).2 := by
  rw [hslot] at houtputs
  obtain ⟨out, rfl⟩ := List.length_eq_one_iff.mp houtputs
  obtain ⟨after, result, hresult, hfits, hguarded⟩ := hexecute out (hshapes out List.mem_cons_self)
  rw [hresult]
  exact ⟨hguarded, Opcode.answers_singleton hfits⟩

/-- There is a random number for every lane. -/
theorem guardedExecute_random {out : Shape} (hout : out.Fits) :
    m.guardedExecute .random [] [out] = .ok (m.execute .random [] [out]) := by
  have hbits : ∀ lane < out.width,
      (match (m.generator.drawMany out.width).1[lane]? with
      | some bits => pure (out.type.mode.ofRandomBits bits)
      | none => throw .bounds : Guarded Cell) =
        .ok (out.type.mode.ofRandomBits ((m.generator.drawMany out.width).1.getD lane 0)) := by
    intro lane hlt
    rw [List.getD_eq_getElem?_getD, List.getElem?_eq_getElem (by simpa using hlt)]
    rfl
  simp only [guardedExecute]
  rw [LaneVector.guardedTabulate_eq _ hout.width_le hbits]
  rfl

/-- No guard fails in an operation, and its outputs can be written. -/
theorem guardedExecute_eq (hsound : m.memory.Sound) (hregisters : m.Fits) {op : Opcode}
    (hop : op ≠ .invalid) {inputs : List Input} {outputs : List Shape}
    (hinputs : List.Forall₂ (Reads width) op.template.inputs inputs)
    (houtputs : outputs.length = op.template.outputs.length) (hshapes : ∀ out ∈ outputs, out.Fits) :
    m.guardedExecute op inputs outputs = .ok (m.execute op inputs outputs) ∧
      Opcode.Answers outputs (m.execute op inputs outputs).2 := by
  cases op with
  | invalid => exact absurd rfl hop
  | nop | pop | push | dup | swizzle | unary | binary | reduce | convert | real | atan2 =>
      exact Computes.guardedExecute_eq (by trivial) hinputs houtputs hshapes
  | halt =>
      cases hinputs
      exact guardedExecute_of_outputs_nil rfl houtputs rfl
  | ret =>
      cases hinputs
      refine guardedExecute_of_outputs_nil rfl houtputs ?_
      rw [guardedExecute, guardedLeave_eq hsound hregisters.fp_lt]
      rfl
  | setRegister register | jump =>
      refine guardedExecute_of_input rfl rfl (fun a ha => ?_) hinputs houtputs
      rw [guardedExecute, ha.fits.guardedAddress_eq]
      rfl
  | moveRegister register =>
      refine guardedExecute_of_input rfl rfl (fun a ha => ?_) hinputs houtputs
      rw [guardedExecute, ha.fits.guardedDistance_eq]
      rfl
  | reserve =>
      refine guardedExecute_of_input rfl rfl (fun a ha => ?_) hinputs houtputs
      obtain ⟨hlow, hhigh⟩ := ha.distance_bounds
      rw [guardedExecute, ha.fits.guardedDistance_eq, Guarded.ok_bind,
        Guard.signed_eq (by omega) (by omega)]
      rfl
  | call =>
      refine guardedExecute_of_input rfl rfl (fun a ha => ?_) hinputs houtputs
      rw [guardedExecute, ha.fits.guardedAddress_eq, Guarded.ok_bind, guardedEnter_eq hsound]
      rfl
  | sleep =>
      refine guardedExecute_of_input rfl rfl (fun a ha => ?_) hinputs houtputs
      rw [guardedExecute, ha.fits.guardedNumber_eq]
      rfl
  | debug =>
      refine guardedExecute_of_input rfl rfl (fun a ha => ?_) hinputs houtputs
      rw [guardedExecute, ha.fits.guardedFormat_eq]
      rfl
  | debugText =>
      refine guardedExecute_of_input rfl rfl (fun a ha => ?_) hinputs houtputs
      rw [guardedExecute, guardedTextAt_eq hsound ha.address_lt]
      rfl
  | store base =>
      rw [Opcode.template_store] at hinputs
      obtain _ | ⟨ha, _ | ⟨htarget, _ | _⟩⟩ := hinputs
      refine guardedExecute_of_outputs_nil (by rw [Opcode.template_store]) houtputs ?_
      rw [guardedExecute, m.guardedEffectiveAddress_eq base htarget.fits, Guarded.ok_bind,
        guardedStore_eq hsound ha.fits (m.effectiveAddress_lt base _)]
      rfl
  | branchZero test =>
      obtain _ | ⟨ha, _ | ⟨htarget, _ | _⟩⟩ := hinputs
      refine guardedExecute_of_outputs_nil rfl houtputs ?_
      rw [guardedExecute, ha.fits.guardedAll_eq, Guarded.ok_bind,
        m.guardedBranch_eq _ htarget.fits]
      rfl
  | switch =>
      obtain _ | ⟨hindex, _ | ⟨htable, _ | _⟩⟩ := hinputs
      refine guardedExecute_of_outputs_nil rfl houtputs ?_
      rw [guardedExecute, hindex.fits.guardedNumber_eq, Guarded.ok_bind,
        Guard.unsigned_eq hindex.entry_lt, Guarded.ok_bind, htable.fits.guardedAddress_eq,
        Guarded.ok_bind, guardedReadAddress_eq hsound (lt_of_lt_space (Address.move_lt _ _))]
      rfl
  | branchCompare relation =>
      obtain _ | ⟨ha, _ | ⟨hb, _ | ⟨htarget, _ | _⟩⟩⟩ := hinputs
      refine guardedExecute_of_outputs_nil rfl houtputs ?_
      rw [guardedExecute, ha.fits.guardedAllPairs_eq hb.fits, Guarded.ok_bind,
        m.guardedBranch_eq _ htarget.fits]
      rfl
  | mapDevice =>
      obtain _ | ⟨hdevice, _ | ⟨haddress, _ | ⟨hlength, _ | _⟩⟩⟩ := hinputs
      refine guardedExecute_of_outputs_nil rfl houtputs ?_
      rw [guardedExecute, hdevice.fits.guardedNumber_eq, Guarded.ok_bind,
        haddress.fits.guardedAddress_eq, Guarded.ok_bind, hlength.fits.guardedNumber_eq]
      rfl
  | load base =>
      rw [Opcode.template_load] at hinputs
      obtain _ | ⟨ha, _ | _⟩ := hinputs
      refine guardedExecute_of_output (by rw [Opcode.template_load]) (fun out hout =>
        ⟨_, _, rfl, LaneVector.fits_ofBytes _ _ hout.width_pos hout.width_le, ?_⟩) houtputs hshapes
      rw [guardedExecute, m.guardedEffectiveAddress_eq base ha.fits, Guarded.ok_bind,
        guardedLoad_eq hsound hout (m.effectiveAddress_lt base _)]
      rfl
  | getRegister register =>
      cases hinputs
      refine guardedExecute_of_output rfl (fun out hout =>
        ⟨_, _, rfl, LaneVector.fits_tabulate _ _ hout.width_pos hout.width_le, ?_⟩) houtputs hshapes
      simp only [guardedExecute, Guarded.pure_eq]
      rw [LaneVector.guardedTabulate_eq _ hout.width_le fun _ _ => rfl]
      rfl
  | random =>
      cases hinputs
      exact guardedExecute_of_output rfl (fun out hout =>
        ⟨_, _, rfl, LaneVector.fits_tabulate _ _ hout.width_pos hout.width_le,
          guardedExecute_random hout⟩) houtputs hshapes

end Machine

end VectorStack
