import Mathlib.Algebra.Ring.Nat
import VectorStack.Bytes
/-!
Guards. Where the machine uses an element of an array, a part of one, a number of fixed size, a
shift or a division, there is a condition without which it could not go on. A guard answers what it
was given when the condition holds, and a fault when it does not.
-/

namespace VectorStack

/-- What could stop the machine in the middle of a step. -/
inductive Fault where
  /-- An element or a part that an array does not have. -/
  | bounds
  /-- A number that its type cannot hold, or a shift by all the bits of a number. -/
  | overflow
  /-- A division by zero. -/
  | division
deriving DecidableEq, Repr

/-- A computation that ends in a fault where a guard fails. -/
abbrev Guarded (α : Type) := Except Fault α

namespace Guard

/-- The place of an element of an array. -/
def index (length place : Nat) : Guarded Nat :=
  if place < length then .ok place else .error .bounds

/-- Where a part of an array ends or starts. -/
def part (length stop : Nat) : Guarded Nat :=
  if stop ≤ length then .ok stop else .error .bounds

/-- A number without a sign that has some bits. -/
def unsigned (bits : Nat) (n : Int) : Guarded Nat :=
  if 0 ≤ n ∧ n < (2 ^ bits : Nat) then .ok n.toNat else .error .overflow

/-- A number with a sign that has some bits and one more. -/
def signed (bits : Nat) (n : Int) : Guarded Int :=
  if -(2 ^ bits : Nat) ≤ n ∧ n < (2 ^ bits : Nat) then .ok n else .error .overflow

/-- The amount of a shift of a number of some bits. -/
def shift (bits amount : Nat) : Guarded Nat :=
  if amount < bits then .ok amount else .error .overflow

def divisor (n : Nat) : Guarded Nat := if n = 0 then .error .division else .ok n

theorem index_eq {length place : Nat} (hlt : place < length) : index length place = .ok place :=
  if_pos hlt

theorem part_eq {length stop : Nat} (hle : stop ≤ length) : part length stop = .ok stop :=
  if_pos hle

theorem unsigned_eq {bits n : Nat} (hlt : n < 2 ^ bits) : unsigned bits n = .ok n :=
  if_pos ⟨Int.natCast_nonneg n, Int.ofNat_lt.mpr hlt⟩

theorem signed_eq {bits : Nat} {n : Int} (hlow : -(2 ^ bits : Nat) ≤ n)
    (hhigh : n < (2 ^ bits : Nat)) : signed bits n = .ok n :=
  if_pos ⟨hlow, hhigh⟩

theorem shift_eq {bits amount : Nat} (hlt : amount < bits) : shift bits amount = .ok amount :=
  if_pos hlt

theorem divisor_eq {n : Nat} (hpos : 0 < n) : divisor n = .ok n :=
  if_neg (Nat.ne_of_gt hpos)

end Guard

namespace Guarded

variable {α β : Type}

-- not by definition, as simp would then leave whole chains of guards to be unfolded
@[simp] theorem ok_bind (a : α) (f : α → Guarded β) : (Except.ok a >>= f) = f a := by
  simp only [bind, Except.bind]

@[simp] theorem pure_eq (a : α) : (pure a : Guarded α) = .ok a := rfl

/-- A guarded function that never fails on the elements of a list maps the list. -/
theorem mapM_eq {f : α → Guarded β} {g : α → β} {list : List α}
    (hlist : ∀ a ∈ list, f a = .ok (g a)) : list.mapM f = .ok (list.map g) := by
  induction list with
  | nil => rfl
  | cons head rest ih =>
      rw [List.mapM_cons, hlist head List.mem_cons_self,
        ih fun a hmem => hlist a (List.mem_cons_of_mem head hmem)]
      rfl

theorem foldlM_eq {f : β → α → Guarded β} {g : β → α → β} (hstep : ∀ b a, f b a = .ok (g b a))
    (start : β) (list : List α) : list.foldlM f start = .ok (list.foldl g start) := by
  induction list generalizing start with
  | nil => rfl
  | cons head rest ih =>
      rw [List.foldlM_cons, hstep, List.foldl_cons]
      exact ih _

end Guarded

end VectorStack
