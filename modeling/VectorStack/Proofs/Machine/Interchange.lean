import VectorStack.Proofs.Machine.Forms
/-!
Operations on lanes with their inputs pushed first. A push leaves on the stack the bytes that it
reads, and the operation behind the pushes pops them as the same lanes that it would have read where
they lie. So a machine ends with the same results on the same stack either way.
-/

namespace VectorStack

open Address (space wrap)
open Instruction (pushCode)
open Located (runs)

namespace Machine

/-- Awake, over plain memory that holds code from the program counter on. -/
structure Ready (m : Machine) (code : Bytes) : Prop where
  plain : m.memory.Plain
  sleep_eq : m.sleep = 0
  holds : m.memory.Holds m.pc code

/-- Steps that execute operations one after another. -/
inductive Executes : Machine → List Opcode → Machine → Prop
  | done (m : Machine) : Executes m [] m
  | step {m next after : Machine} {op : Opcode} {rest : List Opcode}
      (hstep : m.step = (.executed op, next)) (hrest : Executes next rest after) :
      Executes m (op :: rest) after

theorem Executes.append {m next after : Machine} {first second : List Opcode}
    (hfirst : Executes m first next) (hsecond : Executes next second after) :
    Executes m (first ++ second) after := by
  induction hfirst with
  | done => exact hsecond
  | step hstep hrest ih => exact .step hstep (ih hsecond)

variable {m : Machine} {i : Instruction} {values : List Located} {more : Bytes}

/-- An instruction that only computes pushes its results. -/
theorem step_eq_pushAll (htakes : i.Takes values) (memory : Memory)
    (hempty : m.memory.mappings = []) (hsleep : m.sleep = 0)
    (hopcode : m.fetch.opcode = i.opcode)
    (hinputs : m.inputOperands.map Operand.shape = i.inputShapes)
    (houtputs : m.outputOperands = i.outputShapes.map Operand.onStack)
    (hvalues : m.inputValues.map Input.lanes =
      i.inputShapes.zipWith Shape.decode (runs values memory)) :
    m.step = (.executed i.opcode, m.popped.pushAll (i.resultRuns (runs values memory))) := by
  have hshapes : m.outputOperands.map Operand.shape = i.outputShapes := by
    rw [houtputs, List.map_map]
    exact List.map_id _
  have hoperands : ∀ operand ∈ m.inputOperands ++ m.outputOperands,
      operand.shape.type.isSupported = true := by
    intro operand hmem
    apply htakes.supported
    rw [← hinputs, ← hshapes, ← List.map_append]
    exact List.mem_map_of_mem hmem
  have hvalid : m.fetch.opcode ≠ .invalid := by
    rw [hopcode]
    exact htakes.onLanes.1.ne_invalid
  have hperformed : m.performed = (m.popped, i.results (runs values memory)) := by
    rw [performed, hopcode, htakes.onLanes.1.execute_eq, hvalues, hshapes, supplied_eq hempty]
    rfl
  rw [step_eq_executed hsleep hvalid hoperands, hopcode, hperformed, houtputs,
    writeOutputs_eq_pushAll _ (htakes.hasShape_results memory)]
  rfl

theorem popInputs_located (sp : Nat) (values : List Located) :
    popInputs sp (values.map fun value => ⟨value.shape, .memory (wrap value.address)⟩) =
      (sp, values.map fun value => wrap value.address) := by
  induction values with
  | nil => rfl
  | cons value rest ih => simp only [List.map_cons, popInputs, ih]

theorem lanes_located (hplain : m.memory.Plain) (values : List Located) :
    ((values.map fun value => (⟨value.shape, .memory (wrap value.address)⟩ : Operand)).zipWith
        m.readInput (values.map fun value => wrap value.address)).map Input.lanes =
      (values.map Located.shape).zipWith Shape.decode (runs values m.memory) := by
  induction values with
  | nil => rfl
  | cons value rest ih =>
      simp only [runs] at ih
      simp only [runs, List.map_cons, List.zipWith_cons_cons, ih, readInput, Located.bytes,
        Memory.read_wrap hplain.size_eq, Shape.decode]

/-- With addresses for its inputs, an operation computes on what lies there. -/
theorem step_onAddresses (htakes : i.Takes values)
    (hready : m.Ready (i.onAddresses.code (values.map Located.address) ++ more)) :
    m.step = (.executed i.opcode,
      (m.withPc (wrap (m.pc + (i.onAddresses.code (values.map Located.address)).length))).pushAll
        (i.resultRuns (runs values m.memory))) := by
  have hempty := hready.plain.mappings_eq
  have hfetch : m.fetch = i.onAddresses :=
    fetch_eq hready.plain (Instruction.fits_onAddresses htakes.fits) hready.holds.left
  have hsize : i.onAddresses.size = (i.onAddresses.code (values.map Located.address)).length := by
    rw [Instruction.length_code, List.length_map, htakes.length_eq]
    rfl
  have hinputs : m.inputOperands =
      values.map fun value => ⟨value.shape, .memory (wrap value.address)⟩ := by
    rw [inputOperands, hfetch, passed_eq hempty]
    exact inputs_onAddresses (m := m.withPc (Address.move m.pc m.fetch.size)) hready.plain
      hready.holds htakes
  have hpop := popInputs_located m.sp values
  have hpopped : m.popped =
      m.withPc (wrap (m.pc + (i.onAddresses.code (values.map Located.address)).length)) := by
    rw [popped_eq hempty, hinputs, hpop, passed_eq hempty, hfetch, Address.move_ofNat, hsize]
    rfl
  rw [← hpopped]
  apply step_eq_pushAll htakes m.memory hempty hready.sleep_eq (by rw [hfetch]; rfl)
  · rw [hinputs, List.map_map, ← htakes.shapes_eq]
    rfl
  · rw [outputOperands, hfetch]
    exact outputs_onAddresses m.passed i m.pc
  · rw [inputValues_eq hempty, inputAddresses, hinputs, hpop, ← htakes.shapes_eq]
    exact lanes_located hready.plain values

/-- With its inputs on the stack, an operation computes on what was pushed there. -/
theorem step_onStack (htakes : i.Takes values) (hready : m.Ready (i.onStack.code []))
    {memory : Memory} (hholds : m.memory.Holds m.sp (runs values memory).reverse.flatten) :
    ∃ popped : Machine, wrap popped.sp = wrap (m.sp + i.inputBytes) ∧ popped.memory = m.memory ∧
      m.step = (.executed i.opcode, popped.pushAll (i.resultRuns (runs values memory))) := by
  have hempty := hready.plain.mappings_eq
  have hfetch : m.fetch = i.onStack :=
    fetch_eq hready.plain (Instruction.fits_onStack htakes.fits) hready.holds
  have hinputs : m.inputOperands = i.inputShapes.map Operand.onStack := by
    rw [inputOperands, hfetch]
    exact inputs_onStack m.passed i m.pc
  have hsp := m.wrap_sp_popped
  have hvalues := lanes_popInputs hready.plain (htakes.forall₂_runs memory) hholds
  rw [hinputs, stackBytes_onStack] at hsp
  rw [← hinputs] at hvalues
  refine ⟨m.popped, hsp, memory_popped hempty, ?_⟩
  apply step_eq_pushAll htakes memory hempty hready.sleep_eq (by rw [hfetch]; rfl)
  · rw [hinputs, List.map_map]
    exact List.map_id _
  · rw [outputOperands, hfetch]
    exact outputs_onStack m.passed i m.pc
  · rw [inputValues_eq hempty]
    exact hvalues

/-- A push leaves on the stack what it reads. -/
theorem step_push {value : Located}
    (hready : m.Ready ((Instruction.push value.shape).code [value.address] ++ more))
    (hfits : value.shape.Fits) (hsupported : value.shape.type.isSupported = true)
    (hfloat : value.shape.type ≠ .f32) :
    m.step = (.executed .push, (m.pushBytes (value.bytes m.memory)).withPc
      (wrap (m.pc + ((Instruction.push value.shape).code [value.address]).length))) := by
  have hstep := step_onAddresses (Instruction.takes_push hfits hsupported) hready
  rw [runs, List.map_singleton, List.map_singleton,
    Instruction.resultRuns_push hfloat (value.length_bytes m.memory)] at hstep
  exact hstep

theorem pushAll_withPc (m : Machine) (pc : Nat) (runs : List Bytes) :
    (m.withPc pc).pushAll runs = (m.pushAll runs).withPc pc := by
  induction runs generalizing m with
  | nil => rfl
  | cons bytes rest ih => exact ih (m.pushBytes bytes)

/-- The code behind a push is still there, and the machine is at it. -/
theorem Ready.pushBytes {code : Bytes} (hready : m.Ready (code ++ more)) {bytes : Bytes}
    (hapart : Span.Apart ⟨wrap (m.pc + code.length), more.length⟩
      (pushedSpan m.sp bytes.length)) :
    ((m.pushBytes bytes).withPc (wrap (m.pc + code.length))).Ready more := by
  have hafter := hready.plain.write (Address.move m.sp (-(bytes.length : Int))) bytes
  have hkept := hready.plain.keptOutside_write (Address.move m.sp (-(bytes.length : Int))) bytes
  exact ⟨hafter, hready.sleep_eq, hready.holds.right.kept hready.plain hafter hkept
    (List.forall_mem_singleton.mpr hapart)⟩

/-- A push leaves values alone that lie apart from what it pushes. -/
theorem runs_pushBytes (hplain : m.memory.Plain) {bytes : Bytes}
    (hapart : ∀ value ∈ values, value.span.Apart (pushedSpan m.sp bytes.length)) :
    runs values (m.pushBytes bytes).memory = runs values m.memory := by
  apply List.map_congr_left
  intro value hvalue
  exact Memory.read_kept hplain (hplain.write _ _) (hplain.keptOutside_write _ bytes)
    (List.forall_mem_singleton.mpr (hapart value hvalue))

/-- Pushes put values on the stack one after another, as long as they do not reach the code and the
values that are still to come. -/
theorem executes_pushes (hready : m.Ready (pushCode values ++ more))
    (hvalues : ∀ value ∈ values, value.shape.Fits ∧ value.shape.type.isSupported = true ∧
      value.shape.type ≠ .f32) {count : Nat}
    (hcount : ((values.map Located.shape).map Shape.byteLength).sum = count)
    (hcode : Span.Apart (pushedSpan m.sp count) ⟨m.pc, (pushCode values ++ more).length⟩)
    (hapart : ∀ value ∈ values, (pushedSpan m.sp count).Apart value.span) :
    ∃ pc, Executes m (List.replicate values.length .push)
        ((m.pushAll (runs values m.memory)).withPc pc) ∧
      ((m.pushAll (runs values m.memory)).withPc pc).Ready more := by
  induction values generalizing m count with
  | nil => exact ⟨m.pc, .done m, hready⟩
  | cons value rest ih =>
      obtain ⟨hfits, hsupported, hfloat⟩ := hvalues value List.mem_cons_self
      let code := (Instruction.push value.shape).code [value.address]
      let bytes := value.bytes m.memory
      let next := (m.pushBytes bytes).withPc (wrap (m.pc + code.length))
      let later := ((rest.map Located.shape).map Shape.byteLength).sum
      rw [List.map_cons, List.map_cons, List.sum_cons, ← value.length_bytes m.memory] at hcount
      rw [pushCode, List.flatMap_cons, List.append_assoc] at hready hcode
      -- this push and the later ones share what is pushed, and the code behind it is code
      have hfirst : (pushedSpan m.sp bytes.length).Within (pushedSpan m.sp count) := by
        rw [← hcount]
        exact pushedSpan_within_left _ _ _
      have hlater : (pushedSpan next.sp later).Within (pushedSpan m.sp count) := by
        rw [← hcount]
        exact pushedSpan_within_right _ _ _
      have hbehind : Span.Within ⟨wrap (m.pc + code.length), (pushCode rest ++ more).length⟩
          ⟨m.pc, (code ++ (pushCode rest ++ more)).length⟩ := fun _ hcovers =>
        Span.Covers.of_part hcovers (Nat.le_of_eq (List.length_append).symm)
      have hnext : next.Ready (pushCode rest ++ more) :=
        hready.pushBytes (hcode.within hfirst hbehind).symm
      have hsame : runs rest next.memory = runs rest m.memory :=
        runs_pushBytes hready.plain fun other hother =>
          ((hapart other (List.mem_cons_of_mem _ hother)).within hfirst (.refl _)).symm
      obtain ⟨pc, hexecutes, hafter⟩ := ih hnext
        (fun other hother => hvalues other (List.mem_cons_of_mem _ hother)) rfl
        (hcode.within hlater hbehind)
        fun other hother => (hapart other (List.mem_cons_of_mem _ hother)).within hlater (.refl _)
      rw [hsame, pushAll_withPc] at hexecutes hafter
      exact ⟨pc, .step (step_push hready hfits hsupported hfloat) hexecutes, hafter⟩

/-- What lies on the stack behind an operation on lanes. -/
theorem read_pushAll (hplain : m.memory.Plain) (htakes : i.Takes values) (memory : Memory) :
    let after := m.pushAll (i.resultRuns (runs values memory))
    after.sp = Address.move m.sp (-(i.outputBytes : Int)) ∧
      after.memory.read after.sp i.outputBytes =
        (i.resultRuns (runs values memory)).reverse.flatten := by
  intro after
  have hcount := htakes.length_flatten_resultRuns memory
  have hspace := Instruction.operandBytes_le htakes.fits
  have hsp := m.wrap_sp_pushAll (i.resultRuns (runs values memory))
  rw [Address.wrap_eq_self (m.sp_pushAll_lt (htakes.resultRuns_ne_nil memory)), hcount] at hsp
  have hread := (holds_pushAll hplain (by omega)).read_eq
    (plain_pushAll hplain (i.resultRuns (runs values memory)))
  rw [Bytes.length_flatten_reverse, hcount] at hread
  exact ⟨hsp, hread⟩

/-- Machines with the two forms of an operation. One has an instruction with the addresses of the
values, and the other one pushes from these addresses and the instruction without them. The values
are the same and the stacks start at the same place, and the pushes do not reach the code or the
values. -/
structure Forms (i : Instruction) (values : List Located) (direct pushing : Machine) : Prop where
  direct_ready : direct.Ready (i.onAddresses.code (values.map Located.address))
  pushing_ready : pushing.Ready (pushCode values ++ i.onStack.code [])
  bytes_eq : ∀ value ∈ values, value.bytes pushing.memory = value.bytes direct.memory
  sp_eq : pushing.sp = direct.sp
  code_apart : Span.Apart (pushedSpan pushing.sp i.inputBytes)
    ⟨pushing.pc, (pushCode values ++ i.onStack.code []).length⟩
  values_apart : ∀ value ∈ values, Span.Apart (pushedSpan pushing.sp i.inputBytes) value.span

/-- Pushes and the operation behind them leave the results of the operation on the values. -/
theorem exists_executes_onStack (htakes : i.Takes values)
    (hfloat : ∀ shape ∈ i.inputShapes, shape.type ≠ .f32)
    (hready : m.Ready (pushCode values ++ i.onStack.code []))
    (hcode : Span.Apart (pushedSpan m.sp i.inputBytes)
      ⟨m.pc, (pushCode values ++ i.onStack.code []).length⟩)
    (hapart : ∀ value ∈ values, Span.Apart (pushedSpan m.sp i.inputBytes) value.span) :
    ∃ after, Executes m (List.replicate values.length .push ++ [i.opcode]) after ∧
      after.sp = Address.move m.sp (-(i.outputBytes : Int)) ∧
      after.memory.read after.sp i.outputBytes =
        (i.resultRuns (runs values m.memory)).reverse.flatten := by
  have hvalues : ∀ value ∈ values, value.shape.Fits ∧ value.shape.type.isSupported = true ∧
      value.shape.type ≠ .f32 := by
    intro value hmem
    have hshape : value.shape ∈ i.inputShapes := by
      rw [← htakes.shapes_eq]
      exact List.mem_map_of_mem hmem
    have hall := List.mem_append_left i.outputShapes hshape
    exact ⟨Instruction.fits_of_mem_shapes htakes.fits hall, htakes.supported _ hall,
      hfloat _ hshape⟩
  have hcount : ((values.map Located.shape).map Shape.byteLength).sum = i.inputBytes := by
    rw [htakes.shapes_eq]
    rfl
  obtain ⟨pc, hpushes, hpushed⟩ := executes_pushes hready hvalues hcount hcode hapart
  have hbytes := htakes.length_flatten_runs m.memory
  have hspace := Instruction.operandBytes_le htakes.fits
  have hfits : (runs values m.memory).flatten.length ≤ space := by omega
  have hholds := holds_pushAll hready.plain hfits
  obtain ⟨popped, hsp, hmemory, hstep⟩ := step_onStack htakes hpushed hholds
  have hback : wrap popped.sp = wrap m.sp := by
    have hbelow := m.wrap_sp_pushAll (runs values m.memory)
    change wrap popped.sp = wrap ((m.pushAll (runs values m.memory)).sp + i.inputBytes) at hsp
    rw [hbytes] at hbelow
    unfold wrap Address.move space at *
    omega
  have hplain : popped.memory.Plain := by
    rw [hmemory]
    exact hpushed.plain
  obtain ⟨hafter, hread⟩ := read_pushAll hplain htakes m.memory
  rw [← Address.move_wrap, hback, Address.move_wrap] at hafter
  exact ⟨_, hpushes.append (.step hstep (.done _)), hafter, hread⟩

/-- An operation on lanes leaves the same results on the stack, and the stack pointer at the same
address, whether it reads its inputs where they lie or they are pushed before it. -/
theorem forms_agree {direct pushing : Machine} (htakes : i.Takes values)
    (hfloat : ∀ shape ∈ i.inputShapes, shape.type ≠ .f32)
    (hforms : Forms i values direct pushing) :
    ∃ first second, Executes direct [i.opcode] first ∧
      Executes pushing (List.replicate values.length .push ++ [i.opcode]) second ∧
      first.sp = Address.move direct.sp (-(i.outputBytes : Int)) ∧ second.sp = first.sp ∧
      second.memory.read second.sp i.outputBytes = first.memory.read first.sp i.outputBytes := by
  have hdirect := hforms.direct_ready
  rw [← List.append_nil (i.onAddresses.code _)] at hdirect
  have hstep := step_onAddresses htakes hdirect
  obtain ⟨hsp, hread⟩ := read_pushAll (m := direct.withPc (wrap (direct.pc +
    (i.onAddresses.code (values.map Located.address)).length))) hdirect.plain htakes direct.memory
  obtain ⟨second, hexecutes, hsp', hread'⟩ := exists_executes_onStack htakes hfloat
    hforms.pushing_ready hforms.code_apart hforms.values_apart
  have hsame : runs values pushing.memory = runs values direct.memory :=
    List.map_congr_left hforms.bytes_eq
  refine ⟨_, second, .step hstep (.done _), hexecutes, hsp, ?_, ?_⟩
  · rw [hsp', hforms.sp_eq]
    exact hsp.symm
  · rw [hread', hsame]
    exact hread.symm

/-- A difference of lanes of two sizes, on a stack that goes on at the top of memory. -/
theorem forms_agree_sub :
    let i : Instruction := ⟨.binary .sub, 2, 0, (.i16, .u8, .i32), 0, 0⟩
    let values : List Located := [⟨⟨.i16, 2⟩, 0x200⟩, ⟨⟨.u8, 2⟩, 0x210⟩]
    let memory := (((Memory.ofRam .full).write 0x200 [0xff, 0xff, 7, 0]).write 0x210 [2, 9]).write
      0x100 (i.onAddresses.code [0x200, 0x210] ++ (pushCode values ++ i.onStack.code []))
    let direct : Machine := { Machine.new ⟨0x100, 0, 3⟩ default with memory }
    let pushing : Machine := { Machine.new ⟨0x10e, 0, 3⟩ default with memory }
    i.Takes values ∧ Forms i values direct pushing ∧
      ∃ first second, Executes direct [.binary .sub] first ∧
        Executes pushing [.push, .push, .binary .sub] second ∧ first.sp = 0xfffffb ∧
        second.sp = first.sp ∧ second.memory.read second.sp 8 = first.memory.read first.sp 8 := by
  intro i values memory direct pushing
  have hbefore := (Memory.plain_full.write 0x200 [0xff, 0xff, 7, 0]).write 0x210 [2, 9]
  have hplain : memory.Plain := hbefore.write _ _
  have hholds : memory.Holds 0x100
      (i.onAddresses.code [0x200, 0x210] ++ (pushCode values ++ i.onStack.code [])) :=
    Memory.holds_write hbefore (by decide)
  have hbehind := hholds.right
  rw [(by decide : wrap (0x100 + (i.onAddresses.code [0x200, 0x210]).length) = 0x10e)] at hbehind
  have htakes : i.Takes values := by
    refine ⟨⟨?_, ?_, ?_, ?_, ?_⟩, ⟨trivial, ?_⟩, ?_, ?_⟩
    all_goals decide
  have hforms : Forms i values direct pushing := by
    refine ⟨⟨hplain, rfl, hholds.left⟩, ⟨hplain, rfl, hbehind⟩, fun _ _ => rfl, rfl, ?_,
      fun value hmem => ?_⟩
    · apply Span.apart_of_distance <;> decide +kernel
    · rcases List.mem_pair.mp hmem with rfl | rfl
      all_goals apply Span.apart_of_distance <;> decide +kernel
  have hsp : Address.move direct.sp (-(i.outputBytes : Int)) = 0xfffffb := by decide +kernel
  have hagree := forms_agree htakes (by decide) hforms
  rw [hsp] at hagree
  exact ⟨htakes, hforms, hagree⟩

end Machine

end VectorStack
