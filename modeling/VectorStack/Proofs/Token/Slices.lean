import Mathlib.Data.List.DropRight
import VectorStack.Proofs.Token.Lossless
/-!
Parts of a text between places that count bytes. A part is cut out only between boundaries of
characters, and a text that is put together from pieces is cut where they meet.
-/

namespace VectorStack

namespace Text

open Lexer (width width_append width_cons width_nil width_pos IsBoundary)

/-- Split a text at a place that counts bytes, unless the place is within a character or behind the
end. -/
def split? : List Char → Nat → Option (List Char × List Char)
  | text, 0 => some ([], text)
  | [], _ + 1 => none
  | c :: rest, place =>
    if width [c] ≤ place then
      (split? rest (place - width [c])).map fun (front, behind) => (c :: front, behind)
    else none

/-- The part of a text from one place to another, both of which count bytes. -/
def slice? (text : List Char) (start stop : Nat) : Option (List Char) := do
  let (front, _) ← split? text stop
  let (_, part) ← split? front start
  return part

/-- The bytes up to and with the last line end of a text. -/
def behindLastLineEnd (text : List Char) : Nat := width (text.rdropWhile (· != '\n'))

/-- The bytes up to the first line end of a text, or all of them. -/
def firstLineEnd (text : List Char) : Nat := width (text.takeWhile (· != '\n'))

variable {text front part behind : List Char} {place start stop : Nat}

theorem split?_append (front behind : List Char) :
    split? (front ++ behind) (width front) = some (front, behind) := by
  induction front with
  | nil => rw [width_nil, List.nil_append, split?]
  | cons c rest ih =>
      have hpos : 0 < width [c] := width_pos (List.cons_ne_nil c [])
      rw [width_cons, List.cons_append, split?, if_pos (Nat.le_add_right _ _),
        Nat.add_sub_cancel_left, ih]
      · rfl
      · omega

theorem split?_eq_some_iff :
    split? text place = some (front, behind) ↔ text = front ++ behind ∧ width front = place := by
  constructor
  · intro hsplit
    fun_induction split? text place generalizing front with
    | case1 text =>
        cases hsplit
        exact ⟨rfl, width_nil⟩
    | case2 => cases hsplit
    | case3 c rest place _ hle ih =>
        obtain ⟨⟨before, after⟩, hrest, heq⟩ := Option.map_eq_some_iff.mp hsplit
        obtain ⟨rfl, rfl⟩ := Prod.mk.inj heq
        obtain ⟨rfl, hwidth⟩ := ih hrest
        refine ⟨rfl, ?_⟩
        rw [width_cons, hwidth]
        omega
    | case4 => cases hsplit
  · rintro ⟨rfl, rfl⟩
    exact split?_append front behind

/-- A part is cut out of a text exactly where the text is put together from it and the rest. -/
theorem slice?_eq_some_iff : slice? text start stop = some part ↔
    ∃ front behind, text = front ++ (part ++ behind) ∧ width front = start ∧
      width front + width part = stop := by
  simp only [slice?, Option.bind_eq_bind, Option.bind_eq_some_iff, Prod.exists,
    split?_eq_some_iff, Option.pure_def, Option.some.injEq]
  constructor
  · rintro ⟨_, behind, ⟨rfl, rfl⟩, front, _, ⟨rfl, rfl⟩, rfl⟩
    exact ⟨front, behind, List.append_assoc _ _ _, rfl, (width_append _ _).symm⟩
  · rintro ⟨front, behind, rfl, rfl, rfl⟩
    exact ⟨front ++ part, behind, ⟨(List.append_assoc _ _ _).symm, width_append _ _⟩, front, part,
      ⟨rfl, rfl⟩, rfl⟩

theorem slice?_append (front part behind : List Char) :
    slice? (front ++ (part ++ behind)) (width front) (width front + width part) = some part :=
  slice?_eq_some_iff.mpr ⟨front, behind, rfl, rfl, rfl⟩

/-- What is cut out lies between boundaries of characters. -/
theorem isBoundary_of_slice? (hslice : slice? text start stop = some part) :
    IsBoundary text start ∧ IsBoundary text stop ∧ start ≤ stop := by
  obtain ⟨front, behind, rfl, rfl, rfl⟩ := slice?_eq_some_iff.mp hslice
  refine ⟨⟨front, _, rfl, rfl⟩, ⟨front ++ part, behind, ?_, width_append _ _⟩, Nat.le_add_right _ _⟩
  exact (List.append_assoc _ _ _).symm

end Text

end VectorStack
