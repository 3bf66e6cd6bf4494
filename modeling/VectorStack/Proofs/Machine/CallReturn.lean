import VectorStack.Proofs.Machine.Execution
import VectorStack.Proofs.Machine.Fetch
/-!
Calls and returns. A return undoes a call as long as the frame that the call pushed is still there:
the machine goes on behind the call with the registers of the caller, whatever ran in between and
wherever the frame lies, also around the end of memory.
-/

namespace VectorStack

open Address (space wrap wrap_eq_self wrap_wrap wrap_wrap_add)

namespace Memory

variable {memory : Memory}

theorem afterGet_wrap (memory : Memory) (address : Nat) :
    memory.afterGet (wrap address) = memory.afterGet address := by
  rw [afterGet, afterGet, wrap_wrap]

theorem read_wrap (hsize : memory.ram.size = space) (address count : Nat) :
    memory.read (wrap address) count = memory.read address count := by
  induction count generalizing memory address with
  | zero => simp
  | succ count ih =>
      have hkept : (memory.afterGet address).ram.size = space := by
        rw [(memory.observed_afterGet address).ram_eq, hsize]
      rw [read_succ, read_succ, get_wrap hsize, afterGet_wrap, ← ih hkept (wrap address + 1),
        ← ih hkept (address + 1), wrap_wrap_add]

theorem read_add (memory : Memory) (address first second : Nat) :
    memory.read address (first + second) = memory.read address first ++
      (memory.afterRead address first).read (address + first) second := by
  induction first generalizing memory address with
  | zero => simp
  | succ first ih =>
      have hnext : address + 1 + first = address + (first + 1) := by omega
      rw [Nat.succ_add, read_succ, ih, read_succ, afterRead_succ, hnext, List.cons_append]

theorem read_add_of_unmapped (hempty : memory.mappings = []) (address first second : Nat) :
    memory.read address (first + second) =
      memory.read address first ++ memory.read (address + first) second := by
  rw [read_add, afterRead_eq_self hempty]

theorem write_append (memory : Memory) (address : Nat) (bytes more : Bytes) :
    memory.write address (bytes ++ more) =
      (memory.write address bytes).write (address + bytes.length) more := by
  induction bytes generalizing memory address with
  | nil => simp
  | cons byte rest ih =>
      have hnext : address + 1 + rest.length = address + (rest.length + 1) := by omega
      rw [List.cons_append, write_cons, ih, write_cons, List.length_cons, hnext]

theorem Plain.set_wrap (hplain : memory.Plain) (address : Nat) (value : UInt8) :
    memory.set (wrap address) value = memory.set address value := by
  have hempty := hplain.isEmpty_mappings
  have hplace : wrap address % memory.ram.size = address % memory.ram.size := by
    rw [hplain.size_eq]
    exact Nat.mod_mod _ _
  rw [Memory.set, if_pos hempty, Memory.set, if_pos hempty]
  simp only [Ram.set, hplace]

theorem Plain.write_wrap (hplain : memory.Plain) (address : Nat) (bytes : Bytes) :
    memory.write (wrap address) bytes = memory.write address bytes := by
  induction bytes generalizing memory address with
  | nil => simp
  | cons byte rest ih =>
      have hrest := hplain.set address byte
      rw [write_cons, write_cons, hplain.set_wrap, ← ih hrest (wrap address + 1),
        ← ih hrest (address + 1), wrap_wrap_add]

end Memory

namespace Machine

/-- What a call pushes: the frame pointer of the caller and the address to go on at. -/
def savedFrame (fp pc : Nat) : Bytes :=
  Bytes.ofNat Address.byteCount fp ++ Bytes.ofNat Address.byteCount pc

theorem length_savedFrame (fp pc : Nat) : (savedFrame fp pc).length = frameBytes := by
  simp [savedFrame, frameBytes, Nat.two_mul]

/-- A call writes the frame in one piece. -/
theorem memory_enter {m : Machine} (hplain : m.memory.Plain) (target : Nat) :
    (m.enter target).memory = m.memory.write (m.enter target).fp (savedFrame m.fp m.pc) := by
  rw [savedFrame, Memory.write_append, Bytes.length_ofNat, ← (hplain.write _ _).write_wrap (_ + _),
    ← Address.move_ofNat]
  rfl

/-- Memory holds the frame that a call pushed. -/
theorem read_enter {m : Machine} (hplain : m.memory.Plain) (target : Nat) :
    (m.enter target).memory.read (m.enter target).fp frameBytes = savedFrame m.fp m.pc := by
  have hframe := memory_enter hplain target
  have hlength := length_savedFrame m.fp m.pc
  have hholds : (m.enter target).memory.Holds (m.enter target).fp (savedFrame m.fp m.pc) := by
    rw [hframe]
    apply Memory.holds_write hplain
    rw [hlength]
    decide
  rw [← hlength]
  apply hholds.read_eq
  rw [hframe]
  exact hplain.write _ _

/-- An address is read where its bytes lie. -/
theorem readAddress_of_read {m : Machine} {address target : Nat}
    (hread : m.memory.read address Address.byteCount = Bytes.ofNat Address.byteCount target) :
    m.readAddress address = wrap target := by
  rw [readAddress, Memory.readNat, hread, Bytes.toNat_address, Address.wrap_wrap]

theorem readAddress_wrap {m : Machine} (hsize : m.memory.ram.size = space) (address : Nat) :
    m.readAddress (wrap address) = m.readAddress address := by
  rw [readAddress, Memory.readNat, Memory.read_wrap hsize, ← Memory.readNat, ← readAddress]

/-- A return takes its frame apart again. -/
theorem leave_eq {m : Machine} (hsize : m.memory.ram.size = space) {fp pc : Nat}
    (hread : m.memory.read m.fp frameBytes = savedFrame fp pc) :
    m.leave.registers = ⟨wrap pc, wrap fp, Address.move m.fp frameBytes⟩ := by
  have hcount : frameBytes = Address.byteCount + Address.byteCount := rfl
  have hkept : (m.afterRead m.fp Address.byteCount).memory.ram.size = space := by
    rw [(m.observed_afterRead _ _).memory.ram_eq, hsize]
  rw [hcount, Memory.read_add] at hread
  obtain ⟨hfp, hpc⟩ := List.append_inj hread (by simp)
  have hreturn : (m.afterRead m.fp Address.byteCount).readAddress (m.fp + Address.byteCount) =
      wrap pc := readAddress_of_read hpc
  simp only [leave, readAddress_of_read hfp, Address.move_ofNat, readAddress_wrap hkept, hreturn]

/-- A call pops its target, if it is on the stack, and enters a frame. -/
theorem step_call {m : Machine} (hempty : m.memory.mappings = []) (hsleep : m.sleep = 0)
    (hcall : m.fetch.opcode = .call) :
    ∃ target, m.step = (.executed .call,
      ({ m with registers := ⟨Address.move m.pc m.fetch.size, m.fp,
          if m.fetch.isImmediate 0 then m.sp else Address.move m.sp Address.byteCount⟩ } :
        Machine).enter target) := by
  have hinputs : m.inputOperands = [⟨⟨.p24, 1⟩, m.passed.place m.fetch m.pc 0⟩] := by
    rw [inputOperands, inputs, hcall]
    rfl
  have houtputs : m.outputOperands = [] := by
    rw [outputOperands, outputs, hcall]
    rfl
  obtain ⟨target, htarget⟩ : ∃ target, m.inputValues = [target] := by
    rw [← List.length_eq_one_iff, length_inputValues, hcall]
    rfl
  have hsp : (popInputs m.sp m.inputOperands).1 =
      if m.fetch.isImmediate 0 then m.sp else Address.move m.sp Address.byteCount := by
    rw [hinputs]
    unfold place
    split
    · split <;> rfl
    · rfl
  have hperformed : m.performed = (m.popped.enter target.lanes.address, []) := by
    rw [performed, hcall, htarget, supplied_eq hempty]
    rfl
  have hstep := step_eq_executed hsleep (by rw [hcall]; decide) (by
    intro operand hmem
    rw [hinputs, houtputs] at hmem
    cases List.mem_singleton.mp hmem
    rfl)
  refine ⟨target.lanes.address, ?_⟩
  rw [hstep, hcall, hperformed, houtputs, ← hsp, popped_eq hempty, passed_eq hempty]
  rfl

theorem step_ret {m : Machine} (hsleep : m.sleep = 0) (hret : m.fetch.opcode = .ret) :
    m.step = (.executed .ret, m.supplied.leave) := by
  have hinputs : m.inputOperands = [] := by
    rw [inputOperands, inputs, hret]
    rfl
  have houtputs : m.outputOperands = [] := by
    rw [outputOperands, outputs, hret]
    rfl
  have hperformed : m.performed = (m.supplied.leave, []) := by
    rw [performed, hret]
    rfl
  have hstep := step_eq_executed hsleep (by rw [hret]; decide) (by simp [hinputs, houtputs])
  rw [hstep, hret, hperformed, houtputs]
  rfl

/-- The bytes that a return finds at the frame pointer, once the instruction itself was read. -/
def frameRead (m : Machine) : Bytes := m.supplied.memory.read m.fp frameBytes

/-- Where no range covers the frame, these are the bytes that lie there. -/
theorem frameRead_eq {m : Machine}
    (hfree : ∀ index < frameBytes, m.memory.route (wrap (m.fp + index)) = none) :
    m.frameRead = m.memory.read m.fp frameBytes :=
  m.observed_supplied.read_eq hfree

/-- A call is undone by every return that still finds the frame of the call: the machine goes on
behind the call, with the frame pointer and the stack pointer that the caller had, less a target
that was popped. The frame may lie anywhere, and what runs in between may do anything else. Unless
it maps a device there, what the return finds is what lies in memory. -/
theorem ret_of_call {m : Machine} (hplain : m.memory.Plain) (hsleep : m.sleep = 0)
    (hfp : m.fp < space) (hsp : m.sp < space) (hcall : m.fetch.opcode = .call) :
    ∃ called, m.step = (.executed .call, called) ∧
      called.memory.read called.fp frameBytes =
        savedFrame m.fp (Address.move m.pc m.fetch.size) ∧
      ∀ count later, (called.run count).2 = later → later.fetch.opcode = .ret → later.sleep = 0 →
        later.fp = called.fp →
        ((∀ index < frameBytes, later.memory.route (wrap (called.fp + index)) = none) →
          later.frameRead = later.memory.read called.fp frameBytes) ∧
        (later.frameRead = called.memory.read called.fp frameBytes →
          ∃ returned, later.step = (.executed .ret, returned) ∧
            returned.pc = Address.move m.pc m.fetch.size ∧ returned.fp = m.fp ∧
            returned.sp =
              if m.fetch.isImmediate 0 then m.sp else wrap (m.sp + Address.byteCount)) := by
  obtain ⟨target, hstep⟩ := step_call hplain.mappings_eq hsleep hcall
  let caller : Machine := { m with
    registers := ⟨Address.move m.pc m.fetch.size, m.fp,
      if m.fetch.isImmediate 0 then m.sp else Address.move m.sp Address.byteCount⟩ }
  have hcaller : caller.memory.Plain := hplain
  have hframe := read_enter hcaller target
  refine ⟨caller.enter target, hstep, hframe, ?_⟩
  intro count later hlater hret hsleep' hfp'
  refine ⟨fun hfree => hfp' ▸ frameRead_eq (hfp' ▸ hfree), fun hkept => ?_⟩
  have hsize : later.supplied.memory.ram.size = space := by
    rw [later.observed_supplied.ram_eq, ← hlater, ((caller.enter target).later_run count).size_eq,
      (caller.later_enter target).size_eq]
    exact hplain.size_eq
  have hread : later.supplied.memory.read later.supplied.fp frameBytes =
      savedFrame m.fp (Address.move m.pc m.fetch.size) := by
    rw [fp_supplied, ← frameRead, hkept, hframe]
    rfl
  have hleave := leave_eq hsize hread
  rw [fp_supplied] at hleave
  refine ⟨_, step_ret hsleep' hret, ?_, ?_, ?_⟩
  · rw [pc, hleave]
    exact wrap_eq_self (Address.move_lt _ _)
  · rw [fp, hleave]
    exact wrap_eq_self hfp
  · have hback : Address.move later.fp frameBytes = Address.move caller.sp 0 := by
      rw [hfp']
      exact Address.move_move caller.sp (-(frameBytes : Int)) frameBytes
    rw [sp, hleave, hback]
    change Address.move (if m.fetch.isImmediate 0 then m.sp
      else Address.move m.sp Address.byteCount) 0 = _
    split
    · exact (Address.move_ofNat m.sp 0).trans (wrap_eq_self hsp)
    · rw [Address.move_move, Int.add_zero, Address.move_ofNat]

/-- A call with a frame around the end of memory, and a return where it goes. -/
theorem ret_of_call_around_end :
    let m : Machine := { Machine.new ⟨0x40, 0xffffff, 2⟩ default with
      memory := (Memory.ofRam .full).write 0x40
        (Bytes.ofWord 8 (Instruction.encode ⟨.call, 1, 1, (.p24, .u8, .u8), 1, 1⟩) ++
          [0x4b, 0, 0] ++ Bytes.ofWord 8 (Instruction.encode ⟨.ret, 1, 0, (.u8, .u8, .u8), 0, 0⟩)) }
    ∃ called returned, m.step = (.executed .call, called) ∧ called.fp = 0xfffffc ∧
      called.step = (.executed .ret, returned) ∧ returned.registers = ⟨0x4b, 0xffffff, 2⟩ := by
  intro m
  have hplain : m.memory.Plain := Memory.plain_full.write _ _
  have hcall : m.fetch.opcode = .call ∧ m.fetch.size = 11 ∧ m.fetch.isImmediate 0 = true := by
    decide +kernel
  have hcalled : m.step.2.fetch.opcode = .ret ∧ m.step.2.sleep = 0 ∧ m.step.2.fp = 0xfffffc := by
    decide +kernel
  have hmappings : m.step.2.memory.mappings = [] := by decide +kernel
  obtain ⟨called, hstep, -, hreturns⟩ :=
    ret_of_call hplain rfl (by decide) (by decide) hcall.1
  rw [hstep] at hcalled hmappings
  have hfree : ∀ index < frameBytes, called.memory.route (wrap (called.fp + index)) = none := by
    intro index _
    rw [Memory.route, hmappings]
    rfl
  obtain ⟨hfound, hreturns⟩ := hreturns 0 called rfl hcalled.1 hcalled.2.1 rfl
  obtain ⟨returned, hreturned, hpc, hfp, hsp⟩ := hreturns (hfound hfree)
  refine ⟨called, returned, hstep, hcalled.2.2, hreturned, ?_⟩
  rw [hcall.2.1] at hpc
  rw [if_pos hcall.2.2] at hsp
  change (⟨returned.pc, returned.fp, returned.sp⟩ : Registers) = _
  rw [hpc, hfp, hsp]
  rfl

end Machine

end VectorStack
