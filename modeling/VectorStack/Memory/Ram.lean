import VectorStack.Address
import VectorStack.Bytes
import VectorStack.Memory.Page
/-!
Main memory: a block of bytes at which addresses wrap. The main statement is that a byte read is
the one last written at an address with the same remainder.
-/

namespace VectorStack

/-- A block of bytes at which addresses wrap. -/
structure Ram where
  /-- Number of bytes. -/
  size : Nat
  pages : Array Page
  size_pos : 0 < size
  /-- Every address below the size has its page. -/
  size_le : size ≤ pages.size * Page.length

namespace Ram

/-- A block of a given size whose bytes are all zero. -/
def zero (size : Nat) (hpos : 0 < size) : Ram where
  size
  pages := Array.replicate (size / Page.length + 1) Page.zero
  size_pos := hpos
  size_le := by
    rw [Array.size_replicate]
    unfold Page.length
    omega

/-- The block that covers the whole address space. -/
def full : Ram := zero Address.space Address.space_pos

instance : Inhabited Ram := ⟨full⟩

/-- The page at a place, which is an address below the size. -/
@[inline] def pageAt (ram : Ram) (place : Nat) : Page :=
  ram.pages.getD (place / Page.length) Page.zero

/-- The byte at an address, which wraps. -/
def get (ram : Ram) (address : Nat) : UInt8 :=
  let place := address % ram.size
  (ram.pageAt place).get (place % Page.length)

/-- Set the byte at an address, which wraps. -/
def set (ram : Ram) (address : Nat) (value : UInt8) : Ram :=
  let place := address % ram.size
  { ram with
    pages := ram.pages.modify (place / Page.length) (·.set (place % Page.length) value)
    size_le := by
      rw [Array.size_modify]
      exact ram.size_le }

/-- The same block with every byte zero. -/
def clear (ram : Ram) : Ram := zero ram.size ram.size_pos

/-- Put `count` bytes from an address on in front of others. -/
def readOnto (ram : Ram) (address : Nat) : (count : Nat) → Bytes → Bytes
  | 0, others => others
  | count + 1, others => ram.readOnto address count (ram.get (address + count) :: others)

/-- `count` bytes from an address on. -/
def read (ram : Ram) (address count : Nat) : Bytes := ram.readOnto address count []

/-- Write bytes in order from an address on. -/
def write (ram : Ram) (address : Nat) : Bytes → Ram
  | [] => ram
  | byte :: rest => (ram.set address byte).write (address + 1) rest

@[simp] theorem size_set (ram : Ram) (address : Nat) (value : UInt8) :
    (ram.set address value).size = ram.size := rfl

theorem get_mod_size (ram : Ram) (address : Nat) :
    ram.get (address % ram.size) = ram.get address := by
  simp only [get, Nat.mod_mod]

theorem get_zero {size : Nat} (hpos : 0 < size) (address : Nat) :
    (zero size hpos).get address = 0 := by
  have hpage (place : Nat) : (zero size hpos).pageAt place = Page.zero := by
    unfold pageAt zero
    rw [Array.getD_eq_getD_getElem?, Array.getElem?_replicate]
    split <;> rfl
  rw [get, hpage]
  exact Page.get_zero (Nat.mod_lt _ (by decide))

/-- Setting a byte changes its page and no other. -/
theorem pageAt_set (ram : Ram) (address place : Nat) (value : UInt8) (hplace : place < ram.size) :
    (ram.set address value).pageAt place =
      if place / Page.length = address % ram.size / Page.length then
        (ram.pageAt place).set (address % ram.size % Page.length) value
      else ram.pageAt place := by
  have hinside : place / Page.length < ram.pages.size := by
    rw [Nat.div_lt_iff_lt_mul (by decide)]
    exact Nat.lt_of_lt_of_le hplace ram.size_le
  unfold pageAt set
  simp only [Array.getD_eq_getD_getElem?]
  rw [Array.getElem?_eq_getElem (by simpa using hinside), Array.getElem?_eq_getElem hinside]
  simp only [Option.getD_some, Array.getElem_modify, eq_comm]

theorem get_set (ram : Ram) (a b : Nat) (value : UInt8) :
    (ram.set a value).get b = if b % ram.size = a % ram.size then value else ram.get b := by
  have hlt := Nat.mod_lt b ram.size_pos
  have hindex := Nat.mod_lt (b % ram.size) (show 0 < Page.length by decide)
  have hfirst := Nat.div_add_mod (b % ram.size) Page.length
  have hsecond := Nat.div_add_mod (a % ram.size) Page.length
  simp only [get, size_set, pageAt_set ram a _ value hlt]
  by_cases hpage : b % ram.size / Page.length = a % ram.size / Page.length
  · rw [if_pos hpage, Page.get_set_of_lt _ _ hindex]
    rw [hpage] at hfirst
    congr 1
    exact propext ⟨fun hsame => by omega, fun hsame => by omega⟩
  · rw [if_neg hpage, if_neg]
    exact fun hsame => hpage (by rw [hsame])

theorem readOnto_eq (ram : Ram) (address count : Nat) (others : Bytes) :
    ram.readOnto address count others =
      ((List.range count).map fun i => ram.get (address + i)) ++ others := by
  induction count generalizing others with
  | zero => rfl
  | succ count ih =>
      rw [readOnto, ih, List.range_succ, List.map_append, List.append_assoc]
      rfl

theorem read_eq (ram : Ram) (address count : Nat) :
    ram.read address count = (List.range count).map fun i => ram.get (address + i) := by
  rw [read, readOnto_eq, List.append_nil]

end Ram

end VectorStack
