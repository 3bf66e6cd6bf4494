/-!
Packing small numbers into consecutive fields of one number, lowest field first, and taking them
apart. A field has a size, which is one more than the largest number it can hold; a field of `w`
bits has the size `2 ^ w`. The main statements are the two round trips: packed fields come back
reduced to their sizes, and packing what was taken apart gives the low part of the number.
-/

namespace VectorStack.BitField

/-- Pack values into fields of the given sizes; a value keeps only what its field can hold. -/
def pack : List (Nat × Nat) → Nat
  | [] => 0
  | (size, value) :: rest => value % size + size * pack rest

/-- Split a number into fields of the given sizes, dropping what lies above the last. -/
def unpack : List Nat → Nat → List Nat
  | [], _ => []
  | size :: rest, n => n % size :: unpack rest (n / size)

/-- How many numbers fields of the given sizes can hold together. -/
def capacity : List Nat → Nat
  | [] => 1
  | size :: rest => size * capacity rest

theorem unpack_pack (fields : List (Nat × Nat)) (hpos : ∀ field ∈ fields, 0 < field.1) :
    unpack (fields.map Prod.fst) (pack fields) = fields.map fun field => field.2 % field.1 := by
  induction fields with
  | nil => rfl
  | cons field rest ih =>
      obtain ⟨size, value⟩ := field
      have hsize : 0 < size := hpos (size, value) List.mem_cons_self
      have hlow : value % size < size := Nat.mod_lt _ hsize
      simp only [List.map_cons, pack, unpack, Nat.add_mul_mod_self_left, Nat.mod_mod,
        Nat.add_mul_div_left _ _ hsize, Nat.div_eq_of_lt hlow, Nat.zero_add,
        ih fun field hmem => hpos field (List.mem_cons_of_mem _ hmem)]

theorem pack_unpack (sizes : List Nat) (n : Nat) :
    pack (sizes.zip (unpack sizes n)) = n % capacity sizes := by
  induction sizes generalizing n with
  | nil => simp [unpack, pack, capacity, Nat.mod_one]
  | cons size rest ih =>
      simp only [unpack, List.zip_cons_cons, pack, Nat.mod_mod, ih, capacity]
      rw [Nat.mod_mul]

theorem pack_lt (fields : List (Nat × Nat)) (hpos : ∀ field ∈ fields, 0 < field.1) :
    pack fields < capacity (fields.map Prod.fst) := by
  induction fields with
  | nil => simp [pack, capacity]
  | cons field rest ih =>
      obtain ⟨size, value⟩ := field
      have hlow : value % size < size := Nat.mod_lt _ (hpos (size, value) List.mem_cons_self)
      have hrest := ih fun field hmem => hpos field (List.mem_cons_of_mem _ hmem)
      simp only [pack, List.map_cons, capacity]
      calc value % size + size * pack rest
          < size + size * pack rest := by omega
        _ = size * (pack rest + 1) := by rw [Nat.mul_add, Nat.mul_one, Nat.add_comm]
        _ ≤ size * capacity (rest.map Prod.fst) := Nat.mul_le_mul_left _ hrest

end VectorStack.BitField
