/-!
The byte-address space of the machine: `2 ^ 24` addresses on which all arithmetic wraps.
The main statements say that wrapping is remainder and that moving an address twice is moving it
once by the sum.
-/

namespace VectorStack.Address

/-- Number of addressable bytes. -/
def space : Nat := 0x1000000

/-- Number of bytes an address takes in memory. -/
def byteCount : Nat := 3

/-- Bring any number into the address space. -/
def wrap (n : Nat) : Nat := n % space

/-- Move an address by a signed distance, wrapping at both ends of the space. -/
def move (base : Nat) (distance : Int) : Nat := ((base + distance) % (space : Int)).toNat

theorem space_pos : 0 < space := by decide

theorem wrap_lt (n : Nat) : wrap n < space := Nat.mod_lt _ space_pos

@[simp] theorem wrap_wrap (n : Nat) : wrap (wrap n) = wrap n := Nat.mod_mod _ _

theorem wrap_wrap_add (n index : Nat) : wrap (wrap n + index) = wrap (n + index) :=
  Nat.mod_add_mod _ _ _

theorem wrap_eq_self {n : Nat} (hlt : n < space) : wrap n = n := Nat.mod_eq_of_lt hlt

theorem move_lt (base : Nat) (distance : Int) : move base distance < space := by
  unfold move space
  omega

theorem move_ofNat (base n : Nat) : move base (n : Int) = wrap (base + n) := by
  unfold move wrap
  rw [← Int.natCast_add, ← Int.natCast_emod, Int.toNat_natCast]

theorem move_move (base : Nat) (first second : Int) :
    move (move base first) second = move base (first + second) := by
  unfold move space
  omega

theorem move_wrap (base : Nat) (distance : Int) :
    move (wrap base) distance = move base distance := by
  unfold move wrap space
  omega

end VectorStack.Address
