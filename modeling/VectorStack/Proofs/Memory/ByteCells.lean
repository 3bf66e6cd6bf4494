import Mathlib.Algebra.Ring.Nat
import VectorStack.Memory
/-!
Mapped memory as separate bytes. The reference keeps no pages, no devices and no fast path: it has a
cell for every byte of main memory and of the attached blocks, the ranges in the order in which they
were added, and a list of everything that was ever stored. Whatever is asked of a memory, it answers
as the reference does.
-/

namespace VectorStack

open Address (space wrap)

/-- A byte of main memory or of an attached block. -/
inductive ByteCell where
  | main (index : Nat)
  | device (device index : Nat)
deriving DecidableEq

/-- A range as it was asked for. -/
structure MappedRange where
  address : Nat
  device : Nat
  offset : Nat
  length : Nat

/-- How far behind the start of a range an address lies, around the address space. -/
def MappedRange.distance (range : MappedRange) (address : Nat) : Nat :=
  (((address : Int) - range.address) % (2 ^ 24 : Nat)).toNat

/-- The range has the address. -/
def MappedRange.covers (range : MappedRange) (address : Nat) : Bool :=
  range.distance address < range.length

/-- What can be asked of a memory. Blocks that are attached have `2 ^ bits` bytes. -/
inductive MemoryRequest where
  | attach (bits : Nat)
  | map (range : MappedRange)
  | unmapAll
  | read (address count : Nat)
  | write (address : Nat) (bytes : Bytes)

inductive MemoryReply where
  | attached (device : Nat)
  | mapped (known : Bool)
  | bytes (bytes : Bytes)
  | done
deriving DecidableEq

/-- Memory as separate bytes. -/
structure ByteStore where
  /-- Main memory has `2 ^ bits` bytes. -/
  bits : Nat
  /-- The same for every attached block. -/
  deviceBits : List Nat
  /-- Ranges in the order in which they were added. -/
  ranges : List MappedRange
  /-- Every byte that was stored, in order. -/
  stored : List (ByteCell × UInt8)

namespace ByteStore

def start (bits : Nat) : ByteStore := ⟨bits, [], [], []⟩

/-- The range that was added last of those that have an address. -/
def rangeAt? (store : ByteStore) (address : Nat) : Option MappedRange :=
  store.ranges.reverse.find? (·.covers address)

/-- The cell that an address stands for. -/
def cellAt (store : ByteStore) (address : Nat) : ByteCell :=
  match store.rangeAt? address with
  | some range =>
    .device range.device
      ((range.offset + range.distance address) % 2 ^ 24 %
        2 ^ store.deviceBits.getD range.device 0)
  | none => .main (address % 2 ^ store.bits)

/-- The byte that was stored last in a cell, zero if there is none. -/
def last (store : ByteStore) (cell : ByteCell) : UInt8 :=
  ((store.stored.reverse.find? (·.1 = cell)).map Prod.snd).getD 0

/-- Bytes with the cells of consecutive addresses. -/
def placed (store : ByteStore) (address : Nat) : Bytes → List (ByteCell × UInt8)
  | [] => []
  | byte :: rest => (store.cellAt address, byte) :: store.placed (address + 1) rest

/-- What the reference answers, and the reference afterwards. -/
def answer (store : ByteStore) : MemoryRequest → MemoryReply × ByteStore
  | .attach bits =>
    (.attached store.deviceBits.length, { store with deviceBits := store.deviceBits ++ [bits] })
  | .map range =>
    if range.device < store.deviceBits.length then
      (.mapped true, { store with ranges := store.ranges ++ [range] })
    else (.mapped false, store)
  | .unmapAll => (.done, { store with ranges := [] })
  | .read address count =>
    (.bytes ((List.range count).map fun i => store.last (store.cellAt (address + i))), store)
  | .write address bytes =>
    (.done, { store with stored := store.stored ++ store.placed address bytes })

def answerAll (store : ByteStore) : List MemoryRequest → List MemoryReply × ByteStore
  | [] => ([], store)
  | request :: rest =>
    let (reply, next) := store.answer request
    let (replies, final) := next.answerAll rest
    (reply :: replies, final)

/-- The store has a cell. -/
def Has (store : ByteStore) : ByteCell → Prop
  | .main index => index < 2 ^ store.bits
  | .device device index => ∃ bits, store.deviceBits[device]? = some bits ∧ index < 2 ^ bits

variable {store : ByteStore}

/-- Attaching a block takes no cell away. -/
theorem Has.attach {cell : ByteCell} (hcell : store.Has cell) (bits : Nat) :
    Has { store with deviceBits := store.deviceBits ++ [bits] } cell := by
  cases cell with
  | main index => exact hcell
  | device device index =>
      obtain ⟨other, hother, hindex⟩ := hcell
      refine ⟨other, ?_, hindex⟩
      rw [List.getElem?_append_left (List.getElem?_eq_some_iff.mp hother).1]
      exact hother

/-- A cell that came with a block is in that block. -/
theorem Has.device_eq {bits device index : Nat}
    (hcell : Has { store with deviceBits := store.deviceBits ++ [bits] } (.device device index))
    (hnew : ¬ store.Has (.device device index)) : device = store.deviceBits.length := by
  obtain ⟨other, hother, hindex⟩ := hcell
  have hlength := (List.getElem?_eq_some_iff.mp hother).1
  rw [List.length_append, List.length_singleton] at hlength
  have hge : ¬ device < store.deviceBits.length := by
    intro hlt
    rw [List.getElem?_append_left hlt] at hother
    exact hnew ⟨other, hother, hindex⟩
  omega

end ByteStore

namespace Memory

/-- What a memory answers, and the memory afterwards. -/
def answer (memory : Memory) : MemoryRequest → MemoryReply × Memory
  | .attach bits =>
    (.attached memory.devices.size,
      memory.attach (.ofRam (.zero (2 ^ bits) (Nat.two_pow_pos bits))))
  | .map range =>
    match memory.map? range.address range.device range.offset range.length with
    | some mapped => (.mapped true, mapped)
    | none => (.mapped false, memory)
  | .unmapAll => (.done, memory.unmapAll)
  | .read address count => (.bytes (memory.read address count), memory.afterRead address count)
  | .write address bytes => (.done, memory.write address bytes)

def answerAll (memory : Memory) : List MemoryRequest → List MemoryReply × Memory
  | [] => ([], memory)
  | request :: rest =>
    let (reply, next) := memory.answer request
    let (replies, final) := next.answerAll rest
    (reply :: replies, final)

/-- The byte in a cell. -/
def byteIn (memory : Memory) : ByteCell → UInt8
  | .main index => memory.ram.get index
  | .device device index => (memory.devices[device]?.map (·.state.get index)).getD 0

/-- Memory has the blocks and the ranges of a store. -/
structure Shaped (memory : Memory) (store : ByteStore) : Prop where
  bits_le : store.bits ≤ 24
  size_eq : memory.ram.size = 2 ^ store.bits
  devices_size : memory.devices.size = store.deviceBits.length
  block_of : ∀ (device bits : Nat), store.deviceBits[device]? = some bits →
    ∃ block : Ram, memory.devices[device]? = some (.ofRam block) ∧ block.size = 2 ^ bits
  mappings_eq : memory.mappings = store.ranges.reverse.map fun range =>
    ⟨wrap range.address, range.length, range.device, range.offset⟩
  device_lt : ∀ range ∈ store.ranges, range.device < store.deviceBits.length

/-- Memory has the blocks, the ranges and the bytes of a store. -/
structure Mirrors (memory : Memory) (store : ByteStore) : Prop extends Shaped memory store where
  byteIn_eq : ∀ cell, store.Has cell → memory.byteIn cell = store.last cell
  has_stored : ∀ entry ∈ store.stored, store.Has entry.1

variable {memory : Memory} {store : ByteStore}

theorem target?_eq (range : MappedRange) (address : Nat) :
    Mapping.target? ⟨wrap range.address, range.length, range.device, range.offset⟩ (wrap address) =
      if range.covers address then
        some (range.device, (range.offset + range.distance address) % 2 ^ 24)
      else none := by
  have hdistance : Address.move (wrap address) (-(wrap range.address : Int)) =
      range.distance address := by
    unfold Address.move wrap space MappedRange.distance
    omega
  simp only [Mapping.target?, Mapping.distance?, hdistance, MappedRange.covers,
    decide_eq_true_eq]
  split <;> rfl

namespace Shaped

/-- The latest range that has an address decides where it leads. -/
theorem route_eq (hshaped : memory.Shaped store) (address : Nat) :
    memory.route (wrap address) = (store.rangeAt? address).map fun range =>
      (range.device, (range.offset + range.distance address) % 2 ^ 24) := by
  rw [route, hshaped.mappings_eq, ByteStore.rangeAt?]
  induction store.ranges.reverse with
  | nil => rfl
  | cons range rest ih =>
      rw [List.map_cons, List.findSome?_cons, target?_eq, List.find?_cons]
      cases range.covers address with
      | true => rfl
      | false => exact ih

theorem rangeAt?_device {range : MappedRange} {address : Nat} (hshaped : memory.Shaped store)
    (hrange : store.rangeAt? address = some range) :
    ∃ bits, store.deviceBits[range.device]? = some bits := by
  have hmem := List.mem_reverse.mp (List.mem_of_find?_eq_some hrange)
  exact ⟨_, List.getElem?_eq_getElem (hshaped.device_lt range hmem)⟩

theorem has_cellAt (hshaped : memory.Shaped store) (address : Nat) :
    store.Has (store.cellAt address) := by
  rw [ByteStore.cellAt]
  cases hrange : store.rangeAt? address with
  | none => exact Nat.mod_lt _ (Nat.two_pow_pos _)
  | some range =>
      obtain ⟨bits, hbits⟩ := hshaped.rangeAt?_device hrange
      refine ⟨bits, hbits, ?_⟩
      rw [List.getD_eq_getElem?_getD, hbits]
      exact Nat.mod_lt _ (Nat.two_pow_pos _)

/-- Main memory wraps at the same places with and without the address space. -/
theorem wrap_mod (hshaped : memory.Shaped store) (address : Nat) :
    wrap address % memory.ram.size = address % 2 ^ store.bits := by
  rw [hshaped.size_eq]
  exact Nat.mod_mod_of_dvd address (Nat.pow_dvd_pow 2 hshaped.bits_le)

theorem rangeAt?_eq_none (hshaped : memory.Shaped store)
    (hempty : memory.mappings.isEmpty = true) (address : Nat) :
    store.rangeAt? address = none := by
  rw [hshaped.mappings_eq, List.isEmpty_iff, List.map_eq_nil_iff] at hempty
  rw [ByteStore.rangeAt?, hempty]
  rfl

/-- A byte is read from the cell of its address. -/
theorem get_eq (hshaped : memory.Shaped store) (address : Nat) :
    memory.get address = memory.byteIn (store.cellAt address) := by
  have hroute := hshaped.route_eq address
  have hmain : memory.ram.get (wrap address) = memory.ram.get (address % 2 ^ store.bits) := by
    rw [← hshaped.wrap_mod, Ram.get_mod_size]
  have hmain' : memory.ram.get address = memory.ram.get (address % 2 ^ store.bits) := by
    rw [← hshaped.size_eq, Ram.get_mod_size]
  rw [get, ByteStore.cellAt]
  by_cases hempty : memory.mappings.isEmpty = true
  · rw [if_pos hempty, hshaped.rangeAt?_eq_none hempty address]
    exact hmain'
  · rw [if_neg hempty, hroute]
    cases hrange : store.rangeAt? address with
    | none => exact hmain
    | some range =>
        obtain ⟨bits, hbits⟩ := hshaped.rangeAt?_device hrange
        obtain ⟨block, hblock, hsize⟩ := hshaped.block_of _ bits hbits
        simp only [Option.map_some, byteIn, hblock, List.getD_eq_getElem?_getD, hbits,
          Option.getD_some, ← hsize, Ram.get_mod_size, Device.get_ofRam, Device.state_ofRam]

/-- Reading a block leaves it as it was. -/
theorem afterGet_eq_self (hshaped : memory.Shaped store) (address : Nat) :
    memory.afterGet address = memory := by
  have hroute := hshaped.route_eq address
  by_cases hempty : memory.mappings = []
  · exact Memory.afterGet_eq_self hempty address
  · rw [afterGet, if_neg (by rwa [List.isEmpty_iff]), hroute]
    cases hrange : store.rangeAt? address with
    | none => rfl
    | some range =>
        obtain ⟨bits, hbits⟩ := hshaped.rangeAt?_device hrange
        obtain ⟨block, hblock, -⟩ := hshaped.block_of _ bits hbits
        have hsame : memory.devices.modify range.device
            (·.afterGet ((range.offset + range.distance address) % 2 ^ 24)) = memory.devices := by
          refine Array.ext_getElem? fun device => ?_
          rw [Array.getElem?_modify]
          split
          · next hdevice =>
              rw [← hdevice, hblock]
              rfl
          · rfl
        rw [Option.map_some]
        simp only [hsame]

theorem afterRead_eq_self (hshaped : memory.Shaped store) (address count : Nat) :
    memory.afterRead address count = memory := by
  induction count generalizing address with
  | zero => exact memory.afterRead_zero address
  | succ count ih => rw [afterRead_succ, hshaped.afterGet_eq_self, ih]

/-- The bytes of consecutive addresses are read. -/
theorem read_eq (hshaped : memory.Shaped store) (address count : Nat) :
    memory.read address count = (List.range count).map fun i => memory.get (address + i) := by
  induction count generalizing address with
  | zero => exact memory.read_zero address
  | succ count ih =>
      have hshift (i : Nat) : address + 1 + i = address + (i + 1) := by omega
      rw [read_succ, hshaped.afterGet_eq_self, ih, List.range_succ_eq_map, List.map_cons,
        List.map_map]
      simp only [Function.comp_def, hshift, Nat.add_zero]

/-- A new block has the next number. -/
theorem attach (hshaped : memory.Shaped store) (bits : Nat) :
    (memory.attach (.ofRam (.zero (2 ^ bits) (Nat.two_pow_pos bits)))).Shaped
      { store with deviceBits := store.deviceBits ++ [bits] } := by
  refine ⟨hshaped.bits_le, hshaped.size_eq, ?_, ?_, hshaped.mappings_eq, ?_⟩
  · simp [Memory.attach, hshaped.devices_size]
  · intro device other hother
    rw [List.getElem?_append] at hother
    simp only [Memory.attach, Array.getElem?_push, hshaped.devices_size]
    split at hother
    · next hlt =>
        obtain ⟨block, hblock, hsize⟩ := hshaped.block_of device other hother
        exact ⟨block, by rw [if_neg (Nat.ne_of_lt hlt), hblock], hsize⟩
    · next hge =>
        obtain ⟨hindex, hbits⟩ := List.getElem?_eq_some_iff.mp hother
        rw [List.length_singleton] at hindex
        have hdevice : device = store.deviceBits.length := by omega
        rw [List.getElem_singleton] at hbits
        exact ⟨_, if_pos hdevice, congrArg (2 ^ ·) hbits⟩
  · intro range hmem
    have hlt := hshaped.device_lt range hmem
    rw [List.length_append]
    omega

/-- What was stored does not matter. -/
theorem restored (hshaped : memory.Shaped store) (stored : List (ByteCell × UInt8)) :
    memory.Shaped { store with stored } :=
  ⟨hshaped.bits_le, hshaped.size_eq, hshaped.devices_size, hshaped.block_of, hshaped.mappings_eq,
    hshaped.device_lt⟩

/-- Setting a byte keeps blocks and ranges. -/
theorem set (hshaped : memory.Shaped store) (address : Nat) (value : UInt8) :
    (memory.set address value).Shaped store := by
  have hmappings := memory.mappings_set address value
  have hram : (memory.set address value).ram.size = memory.ram.size := by
    unfold Memory.set
    repeat' split
    all_goals rfl
  have hdevices : (memory.set address value).devices = memory.devices ∨
      ∃ device offset, (memory.set address value).devices =
        memory.devices.modify device (·.set offset value) := by
    unfold Memory.set
    repeat' split
    all_goals first | exact .inl rfl | exact .inr ⟨_, _, rfl⟩
  refine ⟨hshaped.bits_le, hram.trans hshaped.size_eq, ?_, ?_, hmappings.trans hshaped.mappings_eq,
    hshaped.device_lt⟩
  · rcases hdevices with hdevices | ⟨device, offset, hdevices⟩
    · rw [hdevices, hshaped.devices_size]
    · rw [hdevices, Array.size_modify, hshaped.devices_size]
  · intro device bits hbits
    obtain ⟨block, hblock, hsize⟩ := hshaped.block_of device bits hbits
    rcases hdevices with hdevices | ⟨other, offset, hdevices⟩
    · exact ⟨block, by rw [hdevices, hblock], hsize⟩
    · rw [hdevices, Array.getElem?_modify, hblock]
      by_cases hother : other = device
      · exact ⟨block.set offset value, by simp [hother], hsize⟩
      · exact ⟨block, by simp [hother], hsize⟩

/-- Setting a byte changes the cell of its address and no other. -/
theorem byteIn_set (hshaped : memory.Shaped store) (address : Nat) (value : UInt8)
    {cell : ByteCell} (hcell : store.Has cell) :
    (memory.set address value).byteIn cell =
      if cell = store.cellAt address then value else memory.byteIn cell := by
  have hroute := hshaped.route_eq address
  have hmain : ∀ place, place % memory.ram.size = address % 2 ^ store.bits →
      ({ memory with ram := memory.ram.set place value } : Memory).byteIn cell =
        if cell = .main (address % 2 ^ store.bits) then value else memory.byteIn cell := by
    intro place hplace
    cases cell with
    | device device index => rfl
    | main index =>
        have hindex : index % memory.ram.size = index := by
          rw [hshaped.size_eq]
          exact Nat.mod_eq_of_lt hcell
        simp only [byteIn, Ram.get_set, hindex, hplace, ByteCell.main.injEq]
  rw [Memory.set, ByteStore.cellAt]
  by_cases hempty : memory.mappings.isEmpty = true
  · rw [if_pos hempty, hshaped.rangeAt?_eq_none hempty address]
    exact hmain address (by rw [hshaped.size_eq])
  · rw [if_neg hempty, hroute]
    cases hrange : store.rangeAt? address with
    | none => exact hmain _ (hshaped.wrap_mod address)
    | some range =>
        obtain ⟨bits, hbits⟩ := hshaped.rangeAt?_device hrange
        obtain ⟨block, hblock, hsize⟩ := hshaped.block_of _ bits hbits
        have hgetD : store.deviceBits.getD range.device 0 = bits := by
          rw [List.getD_eq_getElem?_getD, hbits, Option.getD_some]
        simp only [Option.map_some, hgetD]
        cases cell with
        | main index => rfl
        | device device index =>
            obtain ⟨other, hother, hindex⟩ := hcell
            by_cases hsame : device = range.device
            · subst hsame
              rw [hbits] at hother
              cases hother
              simp [byteIn, hblock, Array.getElem?_modify, Ram.get_set, hsize,
                Nat.mod_eq_of_lt hindex]
            · simp [byteIn, Array.getElem?_modify, hsame, Ne.symm hsame]

/-- Where no range has the address, a byte is set as if there were none at all. -/
theorem unmapAll_set (hshaped : memory.Shaped store) (address : Nat) (value : UInt8)
    (hnone : store.rangeAt? address = none) :
    (memory.set address value).unmapAll = memory.unmapAll.set address value := by
  have hroute := hshaped.route_eq address
  rw [hnone, Option.map_none] at hroute
  have hplace : wrap address % memory.ram.size = address % memory.ram.size := by
    rw [hshaped.wrap_mod, hshaped.size_eq]
  have hwrap : memory.ram.set (wrap address) value = memory.ram.set address value := by
    simp only [Ram.set, hplace]
  rw [Memory.set, Memory.set, hroute, hwrap]
  by_cases hempty : memory.mappings.isEmpty = true
  · rw [if_pos hempty]
    rfl
  · rw [if_neg hempty]
    rfl

theorem unmapAll_write (hshaped : memory.Shaped store) (address : Nat) (bytes : Bytes)
    (hnone : ∀ i < bytes.length, store.rangeAt? (address + i) = none) :
    (memory.write address bytes).unmapAll = memory.unmapAll.write address bytes := by
  induction bytes generalizing memory address with
  | nil => rw [write_nil, write_nil]
  | cons byte rest ih =>
      rw [List.length_cons] at hnone
      have hset := hshaped.unmapAll_set address byte (hnone 0 (Nat.zero_lt_succ _))
      rw [write_cons, write_cons, ← hset]
      refine ih (hshaped.set address byte) (address + 1) fun i hi => ?_
      rw [Nat.add_assoc, Nat.add_comm 1 i]
      exact hnone (i + 1) (Nat.succ_lt_succ hi)

theorem read_unmapAll (hshaped : memory.Shaped store) (address count : Nat)
    (hnone : ∀ i < count, store.rangeAt? (address + i) = none) :
    memory.read address count = memory.unmapAll.read address count := by
  rw [hshaped.read_eq, Memory.read_eq (show memory.unmapAll.mappings = [] from rfl)]
  apply List.map_congr_left
  intro i hi
  rw [hshaped.get_eq, ByteStore.cellAt, hnone i (List.mem_range.mp hi), ← hshaped.size_eq]
  exact Ram.get_mod_size _ _

/-- Main memory below a range is not written to. -/
theorem ram_write (hshaped : memory.Shaped store) (address : Nat) (bytes : Bytes)
    (hsome : ∀ i < bytes.length, store.rangeAt? (address + i) ≠ none) :
    (memory.write address bytes).ram = memory.ram := by
  induction bytes generalizing memory address with
  | nil => rw [write_nil]
  | cons byte rest ih =>
      rw [List.length_cons] at hsome
      have hset : (memory.set address byte).ram = memory.ram := by
        have hfirst : store.rangeAt? address ≠ none := hsome 0 (Nat.zero_lt_succ _)
        obtain ⟨range, hrange⟩ := Option.ne_none_iff_exists'.mp hfirst
        have hroute := hshaped.route_eq address
        rw [hrange, Option.map_some] at hroute
        have hempty : ¬ memory.mappings.isEmpty = true := by
          intro hempty
          rw [hshaped.rangeAt?_eq_none hempty] at hrange
          cases hrange
        rw [Memory.set, if_neg hempty, hroute]
      rw [write_cons, ih (hshaped.set address byte) (address + 1), hset]
      intro i hi
      rw [Nat.add_assoc, Nat.add_comm 1 i]
      exact hsome (i + 1) (Nat.succ_lt_succ hi)

end Shaped

namespace Mirrors

/-- A byte that is set is stored. -/
theorem set (hmirrors : memory.Mirrors store) (address : Nat) (value : UInt8) :
    (memory.set address value).Mirrors
      { store with stored := store.stored ++ [(store.cellAt address, value)] } := by
  refine ⟨(hmirrors.toShaped.set address value).restored _, ?_, ?_⟩
  · intro cell hcell
    rw [hmirrors.toShaped.byteIn_set address value hcell, hmirrors.byteIn_eq cell hcell]
    simp only [ByteStore.last, List.reverse_append, List.reverse_singleton, List.singleton_append,
      List.find?_cons]
    by_cases hsame : store.cellAt address = cell
    · simp [hsame]
    · simp [hsame, Ne.symm hsame]
  · intro entry hmem
    rcases List.mem_append.mp hmem with hmem | hmem
    · exact hmirrors.has_stored entry hmem
    · rw [List.mem_singleton.mp hmem]
      exact hmirrors.toShaped.has_cellAt address

/-- Bytes that are written are stored in order. -/
theorem write (hmirrors : memory.Mirrors store) (address : Nat) (bytes : Bytes) :
    (memory.write address bytes).Mirrors
      { store with stored := store.stored ++ store.placed address bytes } := by
  induction bytes generalizing memory store address with
  | nil =>
      rw [write_nil, ByteStore.placed, List.append_nil]
      exact hmirrors
  | cons byte rest ih =>
      have hrest := ih (hmirrors.set address byte) (address + 1)
      have hplaced : ∀ more address, ByteStore.placed { store with stored := more } address rest =
          store.placed address rest := by
        intro more address
        clear ih hrest
        induction rest generalizing address with
        | nil => rfl
        | cons byte rest ih => exact congrArg _ (ih (address + 1))
      rw [write_cons]
      simp only [hplaced, List.append_assoc] at hrest
      exact hrest

/-- A new block is empty. -/
theorem attach (hmirrors : memory.Mirrors store) (bits : Nat) :
    (memory.attach (.ofRam (.zero (2 ^ bits) (Nat.two_pow_pos bits)))).Mirrors
      { store with deviceBits := store.deviceBits ++ [bits] } := by
  refine ⟨hmirrors.toShaped.attach bits, ?_, ?_⟩
  · intro cell hcell
    by_cases hknown : store.Has cell
    · have hbyte := hmirrors.byteIn_eq cell hknown
      cases cell with
      | main index => exact hbyte
      | device device index =>
          obtain ⟨other, hother, -⟩ := hknown
          have hlt := (List.getElem?_eq_some_iff.mp hother).1
          rw [← hmirrors.devices_size] at hlt
          simp only [byteIn, Memory.attach, Array.getElem?_push, if_neg (Nat.ne_of_lt hlt)]
          exact hbyte
    · have hnone : store.last cell = 0 := by
        rw [ByteStore.last, List.find?_eq_none.mpr]
        · rfl
        · intro entry hmem hsame
          have hhas := hmirrors.has_stored entry (List.mem_reverse.mp hmem)
          rw [decide_eq_true_eq.mp hsame] at hhas
          exact hknown hhas
      refine Eq.trans ?_ hnone.symm
      cases cell with
      | main index => exact absurd hcell hknown
      | device device index =>
          have hdevice := hcell.device_eq hknown
          rw [← hmirrors.devices_size] at hdevice
          simp only [byteIn, Memory.attach, Array.getElem?_push, if_pos hdevice]
          exact Ram.get_zero _ index
  · intro entry hmem
    exact (hmirrors.has_stored entry hmem).attach bits

/-- A range to a block that there is hides what is below it. -/
theorem map (hmirrors : memory.Mirrors store) (range : MappedRange)
    (hdevice : range.device < store.deviceBits.length) :
    ∃ mapped, memory.map? range.address range.device range.offset range.length = some mapped ∧
      mapped.Mirrors { store with ranges := store.ranges ++ [range] } := by
  refine ⟨_, if_pos (by rwa [hmirrors.devices_size]), ?_⟩
  refine ⟨⟨hmirrors.bits_le, hmirrors.size_eq, hmirrors.devices_size, hmirrors.block_of, ?_, ?_⟩,
    hmirrors.byteIn_eq, hmirrors.has_stored⟩
  · simp only [hmirrors.mappings_eq, List.reverse_append, List.reverse_singleton,
      List.singleton_append, List.map_cons]
  · intro other hmem
    rcases List.mem_append.mp hmem with hmem | hmem
    · exact hmirrors.device_lt other hmem
    · rwa [List.mem_singleton.mp hmem]

theorem unmapAll (hmirrors : memory.Mirrors store) :
    memory.unmapAll.Mirrors { store with ranges := [] } :=
  ⟨⟨hmirrors.bits_le, hmirrors.size_eq, hmirrors.devices_size, hmirrors.block_of, rfl, nofun⟩,
    hmirrors.byteIn_eq, hmirrors.has_stored⟩

/-- Main memory alone, all zero. -/
theorem start {bits : Nat} (hbits : bits ≤ 24) :
    (ofRam (.zero (2 ^ bits) (Nat.two_pow_pos bits))).Mirrors (.start bits) := by
  refine ⟨⟨hbits, rfl, rfl, nofun, rfl, nofun⟩, ?_, nofun⟩
  intro cell hcell
  cases cell with
  | main index => exact Ram.get_zero _ index
  | device device index => rfl

/-- A read gives the bytes stored last. -/
theorem read (hmirrors : memory.Mirrors store) (address count : Nat) :
    memory.read address count =
      (List.range count).map fun i => store.last (store.cellAt (address + i)) := by
  rw [hmirrors.toShaped.read_eq]
  apply List.map_congr_left
  intro i _
  rw [hmirrors.toShaped.get_eq, hmirrors.byteIn_eq _ (hmirrors.toShaped.has_cellAt _)]

/-- Whatever is asked, memory answers as the store does and goes on mirroring it. -/
theorem answer (hmirrors : memory.Mirrors store) (request : MemoryRequest) :
    (memory.answer request).1 = (store.answer request).1 ∧
      (memory.answer request).2.Mirrors (store.answer request).2 := by
  cases request with
  | attach bits =>
      exact ⟨congrArg MemoryReply.attached hmirrors.devices_size, hmirrors.attach bits⟩
  | map range =>
      simp only [Memory.answer, ByteStore.answer]
      by_cases hdevice : range.device < store.deviceBits.length
      · obtain ⟨mapped, hmapped, hstill⟩ := hmirrors.map range hdevice
        rw [hmapped, if_pos hdevice]
        exact ⟨rfl, hstill⟩
      · have hnone : memory.map? range.address range.device range.offset range.length = none :=
          if_neg (by rwa [hmirrors.devices_size])
        rw [hnone, if_neg hdevice]
        exact ⟨rfl, hmirrors⟩
  | unmapAll => exact ⟨rfl, hmirrors.unmapAll⟩
  | read address count =>
      refine ⟨congrArg MemoryReply.bytes (hmirrors.read address count), ?_⟩
      rw [Memory.answer, hmirrors.toShaped.afterRead_eq_self]
      exact hmirrors
  | write address bytes => exact ⟨rfl, hmirrors.write address bytes⟩

theorem answerAll (hmirrors : memory.Mirrors store) (requests : List MemoryRequest) :
    (memory.answerAll requests).1 = (store.answerAll requests).1 ∧
      (memory.answerAll requests).2.Mirrors (store.answerAll requests).2 := by
  induction requests generalizing memory store with
  | nil => exact ⟨rfl, hmirrors⟩
  | cons request rest ih =>
      obtain ⟨hreply, hnext⟩ := hmirrors.answer request
      obtain ⟨hreplies, hfinal⟩ := ih hnext
      refine ⟨?_, hfinal⟩
      rw [Memory.answerAll, ByteStore.answerAll]
      exact List.cons_eq_cons.mpr ⟨hreply, hreplies⟩

end Mirrors

/-- Every memory, whatever was asked of it, is the store of separate bytes that was asked the same:
the answers are equal and so is every byte. Where no range has the addresses, memory acts as it does
without ranges; where ranges have them all, main memory is not written to; a range to a block that
there is not changes nothing. -/
theorem answerAll_eq_byteStore {bits : Nat} (hbits : bits ≤ 24) (requests : List MemoryRequest) :
    ∃ memory store replies,
      (ofRam (.zero (2 ^ bits) (Nat.two_pow_pos bits))).answerAll requests = (replies, memory) ∧
      (ByteStore.start bits).answerAll requests = (replies, store) ∧
      memory.Mirrors store ∧
      (∀ address count, (∀ i < count, store.rangeAt? (address + i) = none) →
        memory.read address count = memory.unmapAll.read address count) ∧
      (∀ address bytes, (∀ i < bytes.length, store.rangeAt? (address + i) = none) →
        (memory.write address bytes).unmapAll = memory.unmapAll.write address bytes) ∧
      (∀ address bytes, (∀ i < bytes.length, store.rangeAt? (address + i) ≠ none) →
        (memory.write address bytes).ram = memory.ram) ∧
      ∀ range : MappedRange, memory.devices.size ≤ range.device →
        memory.answer (.map range) = (.mapped false, memory) := by
  obtain ⟨hreplies, hmirrors⟩ := (Mirrors.start hbits).answerAll requests
  refine ⟨_, _, _, rfl, Prod.ext hreplies.symm rfl, hmirrors, hmirrors.toShaped.read_unmapAll,
    hmirrors.toShaped.unmapAll_write, hmirrors.toShaped.ram_write, ?_⟩
  intro range hrange
  rw [Memory.answer, map?, if_neg (Nat.not_lt.mpr hrange)]

/-- Sixteen bytes of main memory under a range around the end of the address space, whose block of
eight bytes wraps inside it, and a shorter range to a block of four bytes on top of that. -/
def overlapping : List MemoryRequest :=
  [.attach 3, .attach 2, .write 0xFFFFFE [1, 2, 3, 4], .map ⟨0xFFFFFF, 0, 6, 3⟩,
    .map ⟨0, 1, 0xFFFFFF, 1⟩, .map ⟨0, 2, 0, 4⟩, .write 0xFFFFFE [5, 6, 7, 8], .read 0xFFFFFE 4,
    .read 0x1FFFFFF 4]

theorem answerAll_overlapping :
    4 ≤ 24 ∧ ∃ memory,
      (ofRam (.zero (2 ^ 4) (Nat.two_pow_pos 4))).answerAll overlapping =
        ([.attached 0, .attached 1, .done, .mapped true, .mapped true, .mapped false, .done,
          .bytes [5, 6, 7, 8], .bytes [6, 7, 8, 0]], memory) ∧
      memory.byteIn (.main 15) = 2 ∧ memory.byteIn (.main 14) = 5 ∧
      memory.byteIn (.device 1 3) = 7 ∧
      memory.read 2 12 = memory.unmapAll.read 2 12 ∧
      (memory.write 0xFFFFFF [9, 9, 9]).ram = memory.ram := by
  refine ⟨by decide, ?_⟩
  obtain ⟨memory, store, replies, hmemory, hstore, hmirrors, hfree, -, hunder, -⟩ :=
    @answerAll_eq_byteStore 4 (by decide) overlapping
  obtain ⟨rfl, rfl⟩ := Prod.ext_iff.mp hstore
  refine ⟨memory, hmemory, ?_, ?_, ?_, hfree 2 12 (by decide),
    hunder 0xFFFFFF [9, 9, 9] (by decide)⟩
  · rw [hmirrors.byteIn_eq (.main 15) (by decide : 15 < 2 ^ 4)]
    rfl
  · rw [hmirrors.byteIn_eq (.main 14) (by decide : 14 < 2 ^ 4)]
    rfl
  · rw [hmirrors.byteIn_eq (.device 1 3) ⟨2, rfl, by decide⟩]
    rfl

end Memory

end VectorStack
