import VectorStack.Machine
/-!
What reading leaves behind. A read goes to main memory, which it leaves alone, or to a device, which
may change. So a machine that reads its instruction and its operands is the same machine, less what
devices keep, and where no range is mapped it is the same machine altogether.
-/

namespace VectorStack

open Address (wrap)

/-- A device that answers how often it was read since it was last written, at every address. -/
def Device.counter : Device where
  state := .zero 1 Nat.one_pos
  read kept _ := (kept.get 0, kept.set 0 (kept.get 0 + 1))
  write kept _ value := kept.set 0 value

namespace Memory

/-- Memory after some reads: no more than what devices keep has changed. -/
structure Observed (before after : Memory) : Prop where
  ram_eq : after.ram = before.ram
  devices_eq : after.devices.size = before.devices.size
  mappings_eq : after.mappings = before.mappings
  eq_of_unmapped : before.mappings = [] → after = before

theorem Observed.refl (memory : Memory) : memory.Observed memory :=
  ⟨rfl, rfl, rfl, fun _ => rfl⟩

theorem Observed.trans {first second third : Memory} (hfirst : first.Observed second)
    (hsecond : second.Observed third) : first.Observed third where
  ram_eq := hsecond.ram_eq.trans hfirst.ram_eq
  devices_eq := hsecond.devices_eq.trans hfirst.devices_eq
  mappings_eq := hsecond.mappings_eq.trans hfirst.mappings_eq
  eq_of_unmapped hempty := by
    have hkept := hfirst.eq_of_unmapped hempty
    rw [hsecond.eq_of_unmapped (by rw [hkept, hempty]), hkept]

theorem observed_afterGet (memory : Memory) (address : Nat) :
    memory.Observed (memory.afterGet address) := by
  refine ⟨?_, ?_, memory.mappings_afterGet address, fun hempty => afterGet_eq_self hempty address⟩
  all_goals
    unfold afterGet
    repeat' split
    all_goals simp

theorem observed_afterRead (memory : Memory) (address count : Nat) :
    memory.Observed (memory.afterRead address count) := by
  induction count generalizing memory address with
  | zero =>
      rw [afterRead_zero]
      exact .refl memory
  | succ count ih =>
      rw [afterRead_succ]
      exact (memory.observed_afterGet address).trans (ih _ _)

theorem afterGet_eq_self_of_route {memory : Memory} {address : Nat}
    (hfree : memory.route (wrap address) = none) : memory.afterGet address = memory := by
  unfold afterGet
  split
  · rfl
  · rw [hfree]

theorem Observed.route_eq {before after : Memory} (hobserved : before.Observed after)
    (address : Nat) : after.route address = before.route address := by
  rw [route, hobserved.mappings_eq, route]

theorem Observed.get_eq {before after : Memory} (hobserved : before.Observed after) {address : Nat}
    (hfree : before.route (wrap address) = none) : after.get address = before.get address := by
  unfold get
  rw [hobserved.mappings_eq, hobserved.route_eq, hfree, hobserved.ram_eq]

/-- Reading leaves alone what lies at addresses that no range covers. -/
theorem Observed.read_eq {before after : Memory} (hobserved : before.Observed after)
    {address count : Nat} (hfree : ∀ index < count, before.route (wrap (address + index)) = none) :
    after.read address count = before.read address count := by
  induction count generalizing address with
  | zero => simp
  | succ count ih =>
      have hfirst : before.route (wrap address) = none := hfree 0 (Nat.zero_lt_succ count)
      have hafter : after.route (wrap address) = none := by rw [hobserved.route_eq, hfirst]
      have hrest : ∀ index < count, before.route (wrap (address + 1 + index)) = none := by
        intro index hlt
        rw [Nat.add_assoc, Nat.add_comm 1]
        exact hfree (index + 1) (Nat.succ_lt_succ hlt)
      rw [read_succ, read_succ, hobserved.get_eq hfirst, afterGet_eq_self_of_route hafter,
        afterGet_eq_self_of_route hfirst, ih hrest]

end Memory

namespace Machine

/-- The machine after some reads: only its memory may have changed, and that by reading. -/
def Observed (m after : Machine) : Prop :=
  ∃ memory, m.memory.Observed memory ∧ after = { m with memory }

theorem Observed.refl (m : Machine) : m.Observed m := ⟨m.memory, .refl _, rfl⟩

theorem Observed.trans {first second third : Machine} (hfirst : first.Observed second)
    (hsecond : second.Observed third) : first.Observed third := by
  obtain ⟨memory, hmemory, rfl⟩ := hfirst
  obtain ⟨later, hlater, rfl⟩ := hsecond
  exact ⟨later, hmemory.trans hlater, rfl⟩

theorem Observed.memory {m after : Machine} (hobserved : m.Observed after) :
    m.memory.Observed after.memory := by
  obtain ⟨memory, hmemory, rfl⟩ := hobserved
  exact hmemory

theorem Observed.registers_eq {m after : Machine} (hobserved : m.Observed after) :
    after.registers = m.registers := by
  obtain ⟨memory, -, rfl⟩ := hobserved
  rfl

theorem Observed.eq_of_unmapped {m after : Machine} (hobserved : m.Observed after)
    (hempty : m.memory.mappings = []) : after = m := by
  obtain ⟨memory, hmemory, rfl⟩ := hobserved
  rw [hmemory.eq_of_unmapped hempty]

variable (m : Machine) (i : Instruction) (start : Nat)

theorem observed_afterRead (address count : Nat) : m.Observed (m.afterRead address count) :=
  ⟨_, m.memory.observed_afterRead address count, rfl⟩

theorem observed_afterPlace (slot : Nat) : m.Observed (m.afterPlace i start slot) := by
  unfold afterPlace
  split
  · exact m.observed_afterRead _ _
  · exact .refl m

theorem observed_afterPlaces (slot count : Nat) :
    m.Observed (m.afterPlaces i start slot count) := by
  induction count generalizing m slot with
  | zero => exact .refl m
  | succ count ih => exact (m.observed_afterPlace i start slot).trans (ih _ _)

theorem observed_afterInputs (operands : List Operand) (addresses : List Nat) :
    m.Observed (m.afterInputs operands addresses) := by
  induction operands generalizing m addresses with
  | nil => exact .refl m
  | cons operand rest ih =>
      cases addresses with
      | nil => exact .refl m
      | cons address others => exact (m.observed_afterRead address _).trans (ih _ others)

theorem observed_textAt (address : Nat) : m.Observed (m.textAt address).2 :=
  (m.observed_afterRead address 1).trans (observed_afterRead _ _ _)

/-- A return reads the frame and sets the registers. -/
theorem memory_observed_leave : m.memory.Observed m.leave.memory :=
  (m.memory.observed_afterRead _ _).trans (Memory.observed_afterRead _ _ _)

/-- Operands are found for slots one after another. -/
theorem operandsFrom_append (slot : Nat) (first second : List Slot) :
    m.operandsFrom i start slot (first ++ second) =
      m.operandsFrom i start slot first ++
        (m.afterPlaces i start slot first.length).operandsFrom i start (slot + first.length)
          second := by
  induction first generalizing m slot with
  | nil => rfl
  | cons template rest ih =>
      have hnext : slot + 1 + rest.length = slot + (rest.length + 1) := by omega
      rw [List.cons_append, operandsFrom, ih, operandsFrom, List.cons_append, hnext]
      rfl

/-- The inputs and outputs of an instruction are the operands for the slots of its template. -/
theorem operandsFrom_slots :
    m.operandsFrom i start 0 i.opcode.template.slots = m.inputs i start ++ m.outputs i start := by
  rw [Template.slots, operandsFrom_append, Nat.zero_add]
  rfl

theorem getElem?_operandsFrom (first : Nat) (slots : List Slot) (index : Nat) :
    (m.operandsFrom i start first slots)[index]? = slots[index]?.map fun slot =>
      ⟨i.shape (first + index) slot,
        (m.afterPlaces i start first index).place i start (first + index)⟩ := by
  induction slots generalizing m first index with
  | nil => rfl
  | cons slot rest ih =>
      cases index with
      | zero => rfl
      | succ index =>
          have hnext : first + 1 + index = first + (index + 1) := by omega
          rw [operandsFrom, List.getElem?_cons_succ, ih, hnext]
          rfl

/-- The operands of an instruction are those of its slots, inputs before outputs. -/
theorem getElem?_operands (index : Nat) :
    (m.inputs i start ++ m.outputs i start)[index]? =
      i.opcode.template.slots[index]?.map fun slot =>
        ⟨i.shape index slot, (m.afterPlaces i start 0 index).place i start index⟩ := by
  rw [← operandsFrom_slots, getElem?_operandsFrom, Nat.zero_add]

/-- The shapes of the operands are those of the slots, whatever is read for their places. -/
theorem map_shape_operandsFrom (first : Nat) (slots : List Slot) :
    (m.operandsFrom i start first slots).map Operand.shape =
      slots.mapIdx fun index => i.shape (first + index) := by
  refine List.ext_getElem? fun index => ?_
  rw [List.getElem?_map, getElem?_operandsFrom, List.getElem?_mapIdx, Option.map_map]
  rfl

/-- Every input is read behind the ones before it. -/
theorem getElem?_readInputs (operands : List Operand) (addresses : List Nat) (index : Nat) :
    (m.readInputs operands addresses)[index]? =
      (operands.zip addresses)[index]?.map fun placed =>
        (m.afterInputs (operands.take index) (addresses.take index)).readInput placed.1
          placed.2 := by
  induction operands generalizing m addresses index with
  | nil => rfl
  | cons operand rest ih =>
      cases addresses with
      | nil => rfl
      | cons address others =>
          cases index with
          | zero => rfl
          | succ index => exact ih _ others index

/-- What is read at the addresses of operands, one after another. -/
def readBytes (m : Machine) : List Operand → List Nat → List Bytes
  | operand :: operands, address :: addresses =>
    m.memory.read address operand.shape.byteLength ::
      (m.afterRead address operand.shape.byteLength).readBytes operands addresses
  | _, _ => []

theorem length_readBytes {operands : List Operand} {addresses : List Nat}
    (hlength : addresses.length = operands.length) :
    (m.readBytes operands addresses).length = operands.length := by
  induction operands generalizing m addresses with
  | nil => simp [readBytes]
  | cons operand rest ih =>
      obtain ⟨address, others, rfl⟩ := List.exists_cons_of_length_eq_add_one hlength
      simp [readBytes, ih _ (Nat.succ.inj hlength)]

/-- An instruction that can run has all its slots located. -/
theorem locatedSlots_of_isRunnable
    (hrunnable : isRunnable i (m.inputs i start ++ m.outputs i start) = true) :
    i.locatedSlots = Template.maxOperands := by
  rw [isRunnable, Bool.and_eq_true, bne_iff_ne, List.all_eq_true, ← operandsFrom_slots] at hrunnable
  have hshapes := m.map_shape_operandsFrom i start 0 i.opcode.template.slots
  simp only [Nat.zero_add] at hshapes
  have hnone : (i.opcode.template.slots.mapIdx i.shape).findIdx?
      (fun shape => !shape.type.isSupported) = none := by
    rw [List.findIdx?_eq_none_iff]
    intro shape hmem
    rw [← hshapes] at hmem
    obtain ⟨operand, hoperand, rfl⟩ := List.mem_map.mp hmem
    rw [hrunnable.2 operand hoperand]
    rfl
  rw [Instruction.locatedSlots, if_neg hrunnable.1, hnone]

section Unmapped

variable {m} (hempty : m.memory.mappings = [])

include hempty

theorem afterRead_eq_self (address count : Nat) : m.afterRead address count = m :=
  (m.observed_afterRead address count).eq_of_unmapped hempty

theorem afterPlaces_eq_self (slot count : Nat) : m.afterPlaces i start slot count = m :=
  (m.observed_afterPlaces i start slot count).eq_of_unmapped hempty

theorem afterInputs_eq_self (operands : List Operand) (addresses : List Nat) :
    m.afterInputs operands addresses = m :=
  (m.observed_afterInputs operands addresses).eq_of_unmapped hempty

theorem readInputs_eq (operands : List Operand) (addresses : List Nat) :
    m.readInputs operands addresses = operands.zipWith m.readInput addresses := by
  induction operands generalizing addresses with
  | nil => rfl
  | cons operand rest ih =>
      cases addresses with
      | nil => rfl
      | cons address others =>
          rw [readInputs, afterRead_eq_self hempty, ih, List.zipWith_cons_cons]

theorem readBytes_eq (operands : List Operand) (addresses : List Nat) :
    m.readBytes operands addresses = operands.zipWith
      (fun operand address => m.memory.read address operand.shape.byteLength) addresses := by
  induction operands generalizing addresses with
  | nil => rfl
  | cons operand rest ih =>
      cases addresses with
      | nil => rfl
      | cons address others =>
          rw [readBytes, afterRead_eq_self hempty, ih, List.zipWith_cons_cons]

/-- The operands of an instruction are those of its slots, all of them found in the same memory. -/
theorem getElem?_operands_of_unmapped (index : Nat) :
    (m.inputs i start ++ m.outputs i start)[index]? =
      i.opcode.template.slots[index]?.map fun slot =>
        ⟨i.shape index slot, m.place i start index⟩ := by
  rw [getElem?_operands, afterPlaces_eq_self i start hempty]

end Unmapped

end Machine

end VectorStack
