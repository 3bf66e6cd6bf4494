import VectorStack.Proofs.Machine.Execution
import VectorStack.Proofs.Program.Loading
/-!
Programs that are pushed together. Whether bytes grow the last segment or begin one depends on all
that was pushed before, but not what they leave in memory: a push adds its bytes behind the others,
one at a time, so that loading the program does all the writes in the order in which they were
pushed, and of bytes for one address the last one stays.
-/

namespace VectorStack

namespace Ram

/-- Write runs of bytes one after another. -/
def writeAll (ram : Ram) (writes : List (Nat × Bytes)) : Ram :=
  writes.foldl (fun ram write => ram.write write.1 write.2) ram

/-- Set single bytes in order. -/
def setAll (ram : Ram) (places : List (Nat × UInt8)) : Ram :=
  places.foldl (fun ram place => ram.set place.1 place.2) ram

theorem write_eq_setAll (ram : Ram) (address : Nat) (bytes : Bytes) :
    ram.write address bytes = ram.setAll (placeBytes address bytes) := by
  induction bytes generalizing ram address with
  | nil => rfl
  | cons byte rest ih => exact ih (ram.set address byte) (address + 1)

theorem writeAll_eq_setAll (ram : Ram) (writes : List (Nat × Bytes)) :
    ram.writeAll writes = ram.setAll (writes.flatMap fun write => placeBytes write.1 write.2) := by
  induction writes generalizing ram with
  | nil => rfl
  | cons write rest ih =>
      have hfirst : ram.writeAll (write :: rest) =
          (ram.write write.1 write.2).writeAll rest := rfl
      rw [hfirst, ih, write_eq_setAll, List.flatMap_cons, setAll, setAll, setAll,
        List.foldl_append]

/-- The last one of single bytes that ends up at an address of a block of some size. -/
def lastPlaced? (size : Nat) (places : List (Nat × UInt8)) (address : Nat) : Option UInt8 :=
  ((places.filter fun place => place.1 % size == address % size).getLast?).map Prod.snd

/-- A block has the last byte that was set at an address, and what it had before where none was. -/
theorem get_setAll (ram : Ram) (places : List (Nat × UInt8)) (address : Nat) :
    (ram.setAll places).get address =
      (lastPlaced? ram.size places address).getD (ram.get address) := by
  induction places generalizing ram with
  | nil => rfl
  | cons place rest ih =>
      have hrest := ih (ram.set place.1 place.2)
      rw [get_set, size_set] at hrest
      refine hrest.trans ?_
      unfold lastPlaced?
      by_cases hplace : place.1 % ram.size = address % ram.size
      · have hkept : (place.1 % ram.size == address % ram.size) = true := beq_iff_eq.mpr hplace
        rw [if_pos hplace.symm, List.filter_cons, if_pos hkept, List.getLast?_cons]
        cases (rest.filter fun place => place.1 % ram.size == address % ram.size).getLast? <;> rfl
      · have hdropped : (place.1 % ram.size == address % ram.size) ≠ true :=
          fun heq => hplace (beq_iff_eq.mp heq)
        rw [if_neg (Ne.symm hplace), List.filter_cons, if_neg hdropped]

end Ram

/-- Memory without mappings is its main memory. -/
theorem Memory.writeAll_ofRam (ram : Ram) (writes : List (Nat × Bytes)) :
    (ofRam ram).writeAll writes = ofRam (ram.writeAll writes) := by
  induction writes generalizing ram with
  | nil => rfl
  | cons write rest ih => exact ih (ram.write write.1 write.2)

namespace Program

/-- Bytes come behind all others, whichever segment they get into. -/
theorem places_extend (segments : List Segment) (address : Nat) (bytes : Bytes) :
    places (extend segments address bytes) = places segments ++ placeBytes address bytes := by
  fun_induction extend segments address bytes with
  | case1 => simp [places]
  | case2 last => simp [places, placeBytes_append]
  | case3 => simp [places]
  | case4 first second rest address bytes ih =>
      rw [places, List.flatMap_cons]
      change _ ++ places (extend (second :: rest) address bytes) = _
      rw [ih, ← List.append_assoc]
      rfl

/-- What is pushed is written after all that was there. -/
theorem load_push (program : Program) (address : Nat) (bytes : Bytes) (memory : Memory) :
    (program.push address bytes).load memory = (program.load memory).write address bytes := by
  rw [load_eq_setAll, load_eq_setAll, push, places_extend, Memory.write_eq_setAll, Memory.setAll,
    List.foldl_append]
  rfl

/-- Push runs of bytes one after another. -/
def pushAll (program : Program) (writes : List (Nat × Bytes)) : Program :=
  writes.foldl (fun program write => program.push write.1 write.2) program

theorem load_pushAll (program : Program) (writes : List (Nat × Bytes)) (memory : Memory) :
    (program.pushAll writes).load memory = (program.load memory).writeAll writes := by
  induction writes generalizing program with
  | nil => rfl
  | cons write rest ih =>
      have hrest := ih (program.push write.1 write.2)
      rw [load_push] at hrest
      exact hrest

theorem length_pushAll (program : Program) (writes : List (Nat × Bytes)) :
    (program.pushAll writes).length =
      program.length + (writes.map fun write => write.2.length).sum := by
  induction writes generalizing program with
  | nil => rfl
  | cons write rest ih =>
      have hrest := ih (program.push write.1 write.2)
      rw [length_push, Nat.add_assoc] at hrest
      rw [List.map_cons, List.sum_cons]
      exact hrest

/-- A program that is pushed together does to memory what its pushes would do one after another,
whichever of them share a segment. In main memory, where addresses wrap at any size, every address
then has the last byte that was pushed for it. -/
theorem load_pushed (writes : List (Nat × Bytes)) :
    (∀ memory : Memory, (empty.pushAll writes).load memory = memory.writeAll writes) ∧
    (∀ ram : Ram, (empty.pushAll writes).load (.ofRam ram) = .ofRam (ram.writeAll writes)) ∧
    (∀ (ram : Ram) (address : Nat), ((empty.pushAll writes).load (.ofRam ram)).get address =
      (Ram.lastPlaced? ram.size (writes.flatMap fun write => placeBytes write.1 write.2)
        address).getD (ram.get address)) ∧
    (empty.pushAll writes).length = (writes.map fun write => write.2.length).sum := by
  have hload (memory : Memory) :
      (empty.pushAll writes).load memory = memory.writeAll writes :=
    load_pushAll empty writes memory
  have hram (ram : Ram) :
      (empty.pushAll writes).load (.ofRam ram) = .ofRam (ram.writeAll writes) := by
    rw [hload, Memory.writeAll_ofRam]
  refine ⟨hload, hram, fun ram address => ?_, ?_⟩
  · rw [hram, Ram.writeAll_eq_setAll]
    exact Ram.get_setAll ram _ address
  · rw [length_pushAll]
    exact Nat.zero_add _

end Program

end VectorStack
