/-!
Pages: blocks of 4096 bytes, so that memory which is never written shares one page of zeros. The
main statement is that a byte read back is the one last set at its index.
-/

namespace VectorStack

/-- A block of `Page.length` bytes. -/
structure Page where
  bytes : ByteArray
  size_eq : bytes.size = 4096

namespace Page

/-- Number of bytes in a page. -/
abbrev length : Nat := 4096

/-- The page whose bytes are all zero. -/
def zero : Page := ⟨⟨Array.replicate length 0⟩, by simp [ByteArray.size, length]⟩

/-- The byte at an index below the length of a page. -/
def get (page : Page) (index : Nat) : UInt8 := page.bytes.get! index

/-- Set the byte at an index. -/
def set (page : Page) (index : Nat) (value : UInt8) : Page :=
  ⟨page.bytes.set! index value, by rw [ByteArray.size_set!, page.size_eq]⟩

theorem get_zero {index : Nat} (hlt : index < length) : zero.get index = 0 := by
  change (Array.replicate length (0 : UInt8))[index]! = 0
  rw [getElem!_pos _ _ (by simpa using hlt), Array.getElem_replicate]

theorem get_set_of_lt (page : Page) {i j : Nat} (value : UInt8) (hlt : j < length) :
    (page.set i value).get j = if j = i then value else page.get j := by
  change (page.bytes.data.set! i value)[j]! = if j = i then value else page.bytes.data[j]!
  have hsize : page.bytes.data.size = length := page.size_eq
  have hinside : j < page.bytes.data.size := by omega
  rw [getElem!_pos (page.bytes.data.set! i value) j (by simpa using hinside),
    getElem!_pos page.bytes.data j hinside]
  simp only [Array.set!_eq_setIfInBounds, Array.getElem_setIfInBounds hinside, @eq_comm _ i j]

end Page

end VectorStack
