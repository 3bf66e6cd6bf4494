import VectorStack.Memory
/-!
A program image: runs of bytes and the addresses they belong at. The main statements are that the
length of an image is the sum of what was added to it, and that an image is the same whether it is
built from its first write on or from its last.
-/

namespace VectorStack

/-- Bytes that belong at consecutive addresses. -/
structure Segment where
  address : Nat
  bytes : Bytes
deriving DecidableEq, Repr

/-- An image, as its segments in the order in which they are written to memory. -/
structure Program where
  segments : List Segment
deriving DecidableEq, Repr

namespace Program

def empty : Program := ⟨[]⟩

/-- Add bytes at an address to a list of segments, growing the last one where they continue it. -/
def extend : List Segment → Nat → Bytes → List Segment
  | [], address, bytes => [⟨address, bytes⟩]
  | [last], address, bytes =>
    if last.address + last.bytes.length = address then [⟨last.address, last.bytes ++ bytes⟩]
    else [last, ⟨address, bytes⟩]
  | first :: second :: rest, address, bytes => first :: extend (second :: rest) address bytes

/-- Add bytes at an address, growing the last segment where they continue it. -/
def push (program : Program) (address : Nat) (bytes : Bytes) : Program :=
  ⟨extend program.segments address bytes⟩

/-- Put bytes at an address before segments, growing the first one where they lead up to it. -/
def join (address : Nat) (bytes : Bytes) : List Segment → List Segment
  | [] => [⟨address, bytes⟩]
  | next :: rest =>
    if address + bytes.length = next.address then ⟨address, bytes ++ next.bytes⟩ :: rest
    else ⟨address, bytes⟩ :: next :: rest

/-- The image that writes make when they are added in order. -/
def ofWrites (writes : List (Nat × Bytes)) : Program :=
  ⟨writes.foldr (fun write segments => join write.1 write.2 segments) []⟩

/-- Number of bytes in all segments. -/
def length (program : Program) : Nat :=
  program.segments.foldr (fun segment rest => segment.bytes.length + rest) 0

def isEmpty (program : Program) : Bool := program.segments.all fun s => s.bytes.isEmpty

/-- Write every segment to memory. -/
def load (program : Program) (memory : Memory) : Memory :=
  program.segments.foldl (fun memory s => memory.write s.address s.bytes) memory

theorem length_push (program : Program) (address : Nat) (bytes : Bytes) :
    (program.push address bytes).length = program.length + bytes.length := by
  obtain ⟨segments⟩ := program
  simp only [push, length]
  fun_induction extend segments address bytes with
  | case1 => simp
  | case2 => simp
  | case3 => simp
  | case4 _ _ _ _ _ ih => simp_all [Nat.add_assoc]

/-- What is added behind a segment does not change whether bytes lead up to it. -/
theorem join_extend (first second : Nat) (bytes more : Bytes) (segments : List Segment) :
    join first bytes (extend segments second more) =
      extend (join first bytes segments) second more := by
  match segments with
  | [] => simp only [extend, join]
  | [last] =>
      simp only [extend, join]
      by_cases hgrows : last.address + last.bytes.length = second <;>
        by_cases hleads : first + bytes.length = last.address <;>
        grind [extend, join]
  | next :: following :: rest =>
      simp only [extend, join]
      split <;> simp only [extend]

theorem ofWrites_append (writes : List (Nat × Bytes)) (address : Nat) (bytes : Bytes) :
    ofWrites (writes ++ [(address, bytes)]) = (ofWrites writes).push address bytes := by
  simp only [ofWrites, push, List.foldr_append, List.foldr_cons, List.foldr_nil,
    Program.mk.injEq]
  induction writes with
  | nil => rfl
  | cons write rest ih => rw [List.foldr_cons, List.foldr_cons, ih, join_extend]

theorem foldl_push_ofWrites (first second : List (Nat × Bytes)) :
    second.foldl (fun program write => program.push write.1 write.2) (ofWrites first) =
      ofWrites (first ++ second) := by
  induction second generalizing first with
  | nil => simp
  | cons write rest ih =>
      rw [List.foldl_cons, ← ofWrites_append, ih, List.append_assoc, List.singleton_append]

/-- Writes joined from the last one on give what pushing them in order gives. -/
theorem ofWrites_eq (writes : List (Nat × Bytes)) :
    ofWrites writes = writes.foldl (fun program write => program.push write.1 write.2) empty :=
  (foldl_push_ofWrites [] writes).symm

end Program

end VectorStack
