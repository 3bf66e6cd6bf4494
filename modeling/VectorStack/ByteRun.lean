import VectorStack.Bytes
/-!
Bytes written several times over. A run is kept as one copy and a count, so that its length is known
without writing it out. The main statement is that this is the length of what is written.
-/

namespace VectorStack

/-- Copies of the same bytes, one after another. -/
structure ByteRun where
  once : Bytes
  copies : Nat
deriving DecidableEq, Repr, Inhabited

namespace ByteRun

/-- A single copy. -/
def single (bytes : Bytes) : ByteRun := ⟨bytes, 1⟩

def length (run : ByteRun) : Nat := run.once.length * run.copies

/-- All copies written out. -/
def bytes (run : ByteRun) : Bytes := (List.replicate run.copies run.once).flatten

@[simp] theorem length_bytes (run : ByteRun) : run.bytes.length = run.length := by
  simp [bytes, length, Nat.mul_comm]

@[simp] theorem bytes_single (bytes : Bytes) : (single bytes).bytes = bytes := by
  simp [single, ByteRun.bytes]

end ByteRun

end VectorStack
