import VectorStack.Proofs.Arithmetic.Integer
import VectorStack.Proofs.Machine.Frame
import VectorStack.Proofs.Machine.Reachable
import VectorStack.Proofs.Safety.Step
/-!
Sleeping, halting and running. The counter that a `sleep` sets counts down to the next fetch, and
the same counter stands still at `halted`. A run is a sequence of steps that a halt cuts short, so a
run of a sum of steps is two runs one after the other; no operand and no countdown is ever `halted`,
so that nothing but a `halt` stops a machine.
-/

namespace VectorStack

/-- Requests that can set a stopped machine going again. -/
def Request.Wakes : Request → Prop
  | .setSleep _ | .reset => True
  | _ => False

namespace Machine

variable {m : Machine}

theorem step_of_halted (hsleep : m.sleep = halted) : m.step = (.halted, m) := if_pos hsleep

theorem step_of_sleeping (hpos : 0 < m.sleep) (hlt : m.sleep < halted) :
    m.step = (.sleeping, m.setSleep (m.sleep - 1)) := by
  rw [step, if_neg (Nat.ne_of_lt hlt), if_pos hpos]

theorem step_of_awake (hsleep : m.sleep = 0) : m.step = m.advance := by
  rw [step, if_neg (by rw [hsleep]; decide), if_neg (by rw [hsleep]; decide)]

/-- A fetched instruction is executed or passed over. -/
theorem advance_fst (m : Machine) :
    m.advance.1 = .skipped ∨ m.advance.1 = .executed m.fetch.opcode := by
  unfold advance
  dsimp only
  split
  · exact .inr rfl
  · exact .inl rfl

theorem fst_step_eq_halted_iff : m.step.1 = .halted ↔ m.sleep = halted := by
  constructor
  · intro houtcome
    have hstepped := m.stepped_step
    generalize m.step.2 = after at hstepped
    rw [houtcome] at hstepped
    cases hstepped with
    | halted hsleep => exact hsleep
  · intro hsleep
    rw [step_of_halted hsleep]

/-- Steps taken before a run are added to those of the run. -/
theorem runFrom_eq (taken : Nat) (m : Machine) (count : Nat) :
    m.runFrom taken count = (taken + (m.run count).1, (m.run count).2) := by
  induction count generalizing taken m with
  | zero => rfl
  | succ count ih =>
      unfold run runFrom
      split
      · rfl
      · rw [ih, ih (0 + 1), Nat.zero_add, Nat.add_assoc]

@[simp] theorem run_zero (m : Machine) : m.run 0 = (0, m) := rfl

theorem run_of_halted (hsleep : m.sleep = halted) (count : Nat) : m.run count = (0, m) := by
  cases count with
  | zero => rfl
  | succ count => rw [run, runFrom, step_of_halted hsleep]

theorem run_succ (hawake : m.sleep ≠ halted) (count : Nat) :
    m.run (count + 1) = ((m.step.2.run count).1 + 1, (m.step.2.run count).2) := by
  have houtcome : m.step.1 ≠ .halted := fun heq => hawake (fst_step_eq_halted_iff.mp heq)
  rw [run, runFrom]
  split
  · next hstep =>
      rw [hstep] at houtcome
      exact absurd rfl houtcome
  · next hstep =>
      rw [hstep, runFrom_eq, Nat.zero_add, Nat.add_comm]

/-- Running on where a run ended is running for the sum of the steps. -/
theorem run_add (m : Machine) (first second : Nat) :
    m.run (first + second) =
      ((m.run first).1 + ((m.run first).2.run second).1, ((m.run first).2.run second).2) := by
  induction first generalizing m with
  | zero => simp
  | succ first ih =>
      by_cases hsleep : m.sleep = halted
      · simp [run_of_halted hsleep]
      · rw [Nat.succ_add, run_succ hsleep, run_succ hsleep, ih]
        simp only [Nat.add_right_comm]

/-- A machine whose next `count` steps do nothing but count down, and that fetches then. -/
structure SleepsFor (m : Machine) (count : Nat) : Prop where
  /-- Only the counter changes. -/
  run_eq : ∀ elapsed ≤ count, m.run elapsed = (elapsed, m.setSleep (count - elapsed))
  sleeping : ∀ elapsed < count, (m.run elapsed).2.step.1 = .sleeping
  fetches : (m.run count).2.step = (m.run count).2.advance
  awake : (m.run count).2.step.1 ≠ .sleeping

theorem sleepsFor (hlt : m.sleep < halted) : m.SleepsFor m.sleep := by
  have hstep (elapsed : Nat) (hless : elapsed < m.sleep) :
      (m.setSleep (m.sleep - elapsed)).step =
        (.sleeping, m.setSleep (m.sleep - (elapsed + 1))) :=
    step_of_sleeping (m := m.setSleep (m.sleep - elapsed)) (Nat.sub_pos_of_lt hless)
      (Nat.lt_of_le_of_lt (Nat.sub_le _ _) hlt)
  have hrun (elapsed : Nat) (hle : elapsed ≤ m.sleep) :
      m.run elapsed = (elapsed, m.setSleep (m.sleep - elapsed)) := by
    induction elapsed with
    | zero => rfl
    | succ elapsed ih =>
        have hawake : (m.setSleep (m.sleep - elapsed)).sleep ≠ halted :=
          Nat.ne_of_lt (Nat.lt_of_le_of_lt (Nat.sub_le _ _) hlt)
        rw [m.run_add, ih (Nat.le_of_succ_le hle), run_succ hawake, hstep elapsed hle]
        rfl
  have hfetches : (m.run m.sleep).2.step = (m.run m.sleep).2.advance := by
    rw [hrun _ (Nat.le_refl _)]
    exact step_of_awake (Nat.sub_self _)
  refine ⟨hrun, ?_, hfetches, ?_⟩
  · intro elapsed hless
    rw [hrun elapsed (Nat.le_of_lt hless), hstep elapsed hless]
  · rw [hfetches]
    rcases (m.run m.sleep).2.advance_fst with hskipped | hexecuted
    · simp [hskipped]
    · simp [hexecuted]

/-- Four bytes hold a number of 32 bits. -/
theorem readNat_lt (m : Machine) (address : Nat) : m.memory.readNat address 4 < 2 ^ 32 := by
  have hlt := Bytes.toNat_lt (m.memory.read address 4)
  rwa [Memory.length_read] at hlt

theorem number_readInput (m : Machine) (place : Place) (address : Nat) :
    (m.readInput ⟨⟨.u32, 1⟩, place⟩ address).lanes.number = m.memory.readNat address 4 := by
  have hlt := m.readNat_lt address
  have hlane := @DataType.integer_decodeLane .u32 trivial (m.memory.read address 4)
  rw [List.take_of_length_le (by rw [Memory.length_read]; rfl)] at hlane
  have hcell : ((DataType.u32.decodeLane (m.memory.read address 4)).toNat : Int) =
      (m.memory.readNat address 4 : Int) % (2 ^ 32 : Nat) := hlane
  change (LaneVector.lane (.ofBytes .u32 1 (m.memory.read address 4)) 0).toNat = _
  rw [LaneVector.lane_zero_ofBytes (Nat.le_refl 1)]
  omega

/-- An executed `sleep` puts its operand in the counter. -/
theorem exists_sleep_eq {after : Machine} (hstep : m.step = (.executed .sleep, after)) :
    ∃ address, m.inputAddresses = [address] ∧
      after.sleep = m.popped.memory.readNat address 4 := by
  have hstepped := stepped_of_step hstep
  generalize houtcome : Outcome.executed .sleep = outcome at hstepped
  cases hstepped with
  | halted | sleeping | skipped => cases houtcome
  | executed =>
      have hop : m.fetch.opcode = .sleep := (Outcome.executed.inj houtcome).symm
      have hoperands : m.inputOperands = [⟨⟨.u32, 1⟩, m.passed.place m.fetch m.pc 0⟩] := by
        rw [inputOperands, inputs, hop]
        rfl
      have hlength := m.length_inputAddresses
      rw [hoperands] at hlength
      obtain ⟨address, haddress⟩ := List.length_eq_one_iff.mp hlength
      refine ⟨address, haddress, ?_⟩
      have hnumber := m.popped.number_readInput (m.passed.place m.fetch m.pc 0) address
      rw [writeOutputs_performed, performed, inputValues, hop, hoperands, haddress]
      exact hnumber

/-- Nothing but a `halt` stops a machine: a countdown ends, and operands are too small. -/
theorem fst_step_of_halted (hlt : m.sleep < 2 ^ 64) (hawake : m.sleep ≠ halted)
    (hhalted : m.step.2.sleep = halted) : m.step.1 = .executed .halt := by
  have hsleeps := @exists_sleep_eq m
  have hstepped := m.stepped_step
  rw [← Prod.eta m.step] at hsleeps
  generalize m.step.1 = outcome, m.step.2 = after at hstepped hhalted hsleeps ⊢
  cases hstepped with
  | halted hsleep => exact absurd hsleep hawake
  | skipped =>
      obtain ⟨memory, -, hlocated⟩ := m.exists_located 0 m.fetch.locatedSlots
      rw [hlocated] at hhalted
      exact absurd hhalted hawake
  | sleeping _ hpos =>
      have hcount : m.sleep - 1 = 2 ^ 64 - 1 := hhalted
      omega
  | executed hsleep =>
      by_cases hhalt : m.fetch.opcode = .halt
      · rw [hhalt]
      · by_cases hop : m.fetch.opcode = .sleep
        · rw [hop] at hsleeps
          obtain ⟨address, -, hnumber⟩ := hsleeps rfl
          have hsmall := m.popped.readNat_lt address
          rw [hhalted, halted] at hnumber
          omega
        · obtain ⟨memory, -, hsupplied⟩ := m.exists_supplied
          have hkept := m.effect_performed.sleep_eq hhalt hop
          rw [hsupplied] at hkept
          rw [writeOutputs_performed] at hhalted
          exact absurd (hkept.symm.trans hhalted) hawake

theorem exists_halt_of_run (hlt : m.sleep < 2 ^ 64) (hawake : m.sleep ≠ halted) {count : Nat}
    (hhalted : (m.run count).2.sleep = halted) :
    ∃ elapsed < count, ∃ before, m.run elapsed = (elapsed, before) ∧
      before.step.1 = .executed .halt ∧ m.run count = (elapsed + 1, before.step.2) := by
  induction count generalizing m with
  | zero => exact absurd hhalted hawake
  | succ count ih =>
      rw [run_succ hawake] at hhalted ⊢
      by_cases hstep : m.step.2.sleep = halted
      · refine ⟨0, Nat.succ_pos count, m, rfl, fst_step_of_halted hlt hawake hstep, ?_⟩
        rw [run_of_halted hstep]
      · obtain ⟨elapsed, hless, before, hrun, hhalt, htaken⟩ :=
          ih (sleep_step_lt hlt) hstep hhalted
        refine ⟨elapsed + 1, Nat.succ_lt_succ hless, before, ?_, hhalt, ?_⟩
        · rw [run_succ hawake, hrun]
        · rw [htaken]

/-- A machine that does nothing when it is stepped or run. -/
structure Stopped (m : Machine) : Prop where
  step_eq : m.step = (.halted, m)
  run_eq : ∀ count, m.run count = (0, m)

theorem sleep_handle_of_halted (hsleep : m.sleep = halted) {request : Request}
    (hquiet : ¬ request.Wakes) : (m.handle request).sleep = halted := by
  cases request with
  | step =>
      rw [handle, step_of_halted hsleep]
      exact hsleep
  | run count =>
      rw [handle, run_of_halted hsleep]
      exact hsleep
  | setSleep | reset => exact absurd trivial hquiet
  | setPc | setFp | setSp | takeOutput | load | read | write | writeRam | clearRam | attach | change
  | map | unmapAll => exact hsleep

/-- A halted machine stays so until a host wakes it. -/
theorem stopped_handleAll (hsleep : m.sleep = halted) {requests : List Request}
    (hquiet : ∀ request ∈ requests, ¬ request.Wakes) : (m.handleAll requests).Stopped := by
  induction requests generalizing m with
  | nil => exact ⟨step_of_halted hsleep, run_of_halted hsleep⟩
  | cons request rest ih =>
      rw [List.forall_mem_cons] at hquiet
      exact ih (sleep_handle_of_halted hsleep hquiet.1) hquiet.2

/-- How a machine runs, sleeps and halts. -/
structure Paced (m : Machine) : Prop where
  /-- A run can be made in two parts. -/
  run_add : ∀ first second, m.run (first + second) =
    ((m.run first).1 + ((m.run first).2.run second).1, ((m.run first).2.run second).2)
  /-- Behind an executed `sleep` the machine sleeps for the number that was read at its operand. -/
  sleeps : ∀ after, m.step = (.executed .sleep, after) → ∃ address count,
    m.inputAddresses = [address] ∧ count = m.popped.memory.readNat address 4 ∧
      after.SleepsFor count ∧ (m.memory.mappings = [] → count = m.memory.readNat address 4)
  /-- Once halted, the machine does nothing until a host wakes it. -/
  stays : m.sleep = halted → ∀ requests : List Request,
    (∀ request ∈ requests, ¬ request.Wakes) → (m.handleAll requests).Stopped
  /-- A run that ends halted ends with the first `halt` that is executed. -/
  halts : m.sleep ≠ halted → ∀ count, (m.run count).2.sleep = halted →
    ∃ elapsed < count, ∃ before, m.run elapsed = (elapsed, before) ∧
      before.step.1 = .executed .halt ∧ m.run count = (elapsed + 1, before.step.2)

/-- Every machine whose counter is a number of 64 bits runs, sleeps and halts as it should. -/
theorem paced (hlt : m.sleep < 2 ^ 64) : m.Paced where
  run_add := m.run_add
  sleeps after hstep := by
    obtain ⟨address, haddress, hsleep⟩ := exists_sleep_eq hstep
    have hsmall := m.popped.readNat_lt address
    have hless : after.sleep < halted := by
      rw [hsleep, halted]
      omega
    refine ⟨address, after.sleep, haddress, hsleep, sleepsFor hless, fun hempty => ?_⟩
    rw [hsleep, memory_popped hempty]
  stays hsleep _ hquiet := stopped_handleAll hsleep hquiet
  halts hawake _ hhalted := exists_halt_of_run hlt hawake hhalted

/-- A machine that sleeps for three steps and halts then. -/
theorem paced_sleep_halt :
    let m : Machine := { Machine.new ⟨0x40, 0, 0⟩ default with
      memory := (Memory.ofRam .full).write 0x40
        (Bytes.ofWord 8 (Instruction.encode ⟨.sleep, 1, 1, (.u32, .u8, .u8), 1, 0⟩) ++
          [0x60, 0, 0] ++
          Bytes.ofWord 8 (Instruction.encode ⟨.halt, 1, 0, (.u8, .u8, .u8), 0, 0⟩) ++
          List.replicate 13 0 ++ [3, 0, 0, 0]) }
    m.Paced ∧ m.step.1 = .executed .sleep ∧ m.inputAddresses = [0x60] ∧
      (m.run 4).1 = 4 ∧ (m.run 4).2.sleep = 0 ∧ (m.run 9).1 = 5 ∧ (m.run 9).2.sleep = halted := by
  intro m
  have hlt : m.sleep < 2 ^ 64 := by decide
  refine ⟨paced hlt, ?_⟩
  decide +kernel

end Machine

end VectorStack
