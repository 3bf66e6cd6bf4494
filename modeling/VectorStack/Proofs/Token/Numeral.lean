import Mathlib.Algebra.Ring.Nat
import VectorStack.Proofs.Token.Words
import VectorStack.Token.Number
/-!
Whole numbers in decimal. Digits up to the next character that is not of a word are one number, and
it is read as the number that the digits stand for, as long as that has 64 bits.
-/

namespace VectorStack

/-- Decimal digits that stand for a number; zeros may come first. -/
structure Numeral (digits : List Char) (n : Nat) : Prop where
  ne_nil : digits ≠ []
  isDigit : ∀ c ∈ digits, c.isDigit = true
  value_eq : Nat.ofDigitChars 10 digits 0 = n

/-- Every number has its numeral. -/
theorem numeral_repr (n : Nat) : Numeral (Nat.repr n).toList n := by
  rw [Nat.toList_repr]
  exact ⟨Nat.toDigits_ne_nil, fun _ hmem =>
    Nat.isDigit_of_mem_toDigits (by decide) (by decide) hmem,
    Nat.ofDigitChars_toDigits (by decide) (by decide)⟩

namespace Lexer

variable {first : Char} {digits more rest : List Char}

/-- What a text goes on with in the middle of its digits or right behind them. -/
theorem isDigit_or_not_isWordChar (hdigits : ∀ c ∈ digits, c.isDigit = true)
    (hends : ∀ c ∈ rest.head?, isWordChar c = false) :
    ∀ c ∈ (digits ++ rest).head?, c.isDigit = true ∨ isWordChar c = false := by
  intro c hmem
  cases digits with
  | nil => exact .inr (hends c hmem)
  | cons digit others =>
      rw [List.cons_append, List.head?_cons, Option.mem_some_iff] at hmem
      exact .inl (hmem ▸ hdigits digit List.mem_cons_self)

theorem fractionLength_eq_zero (hends : ∀ c ∈ rest.head?, isWordChar c = false) :
    fractionLength rest = 0 := by
  unfold fractionLength
  split
  · exact absurd (hends '.' rfl) (by decide)
  · rfl

theorem exponentLength_eq_zero (hends : ∀ c ∈ rest.head?, isWordChar c = false) :
    exponentLength rest = 0 := by
  unfold exponentLength
  split
  · next mark behind =>
      have hmark := hends mark rfl
      rw [if_neg]
      simp only [Bool.or_eq_true, beq_iff_eq]
      rintro (rfl | rfl) <;> exact absurd hmark (by decide)
  · rfl

/-- Digits are all of a number, which is in decimal. -/
theorem numberLength_digits (hdigits : ∀ c ∈ first :: more, c.isDigit = true)
    (hends : ∀ c ∈ rest.head?, isWordChar c = false) :
    numberLength (first :: (more ++ rest)) = (true, more.length + 1) := by
  have hnext := isDigit_or_not_isWordChar (fun c hmem => hdigits c (List.mem_cons_of_mem _ hmem))
    hends
  have hcount : count Char.isDigit (first :: (more ++ rest)) = more.length + 1 := by
    refine count_append hdigits fun c hmem => ?_
    cases hdigit : c.isDigit with
    | false => rfl
    | true => exact absurd (hends c hmem) (by simp [isWordChar, Char.isAlphanum, hdigit])
  have hdrop : (first :: (more ++ rest)).drop (more.length + 1) = rest := List.drop_left
  unfold numberLength
  split
  -- a mark of another radix is neither a digit nor the end of the digits
  case h_5 =>
    simp only [hcount, hdrop, fractionLength_eq_zero hends, Nat.add_zero,
      exponentLength_eq_zero hends]
  all_goals
    next htext =>
      rw [(List.cons.inj htext).2] at hnext
      rcases hnext _ rfl with h | h <;> exact absurd h (by decide)

/-- Digits are one number, up to a character that is not of a word. -/
theorem scanNumber_digits (hdigits : ∀ c ∈ first :: more, c.isDigit = true)
    (hends : ∀ c ∈ rest.head?, isWordChar c = false) :
    scanNumber (first :: (more ++ rest)) = (.number, more.length + 1) := by
  have hglued : count isWordChar rest = 0 := @count_append _ [] rest nofun hends
  have hdrop : (first :: (more ++ rest)).drop (more.length + 1) = rest := List.drop_left
  simp [scanNumber, numberLength_digits hdigits hends, hglued]

theorem scan_digits (hdigits : ∀ c ∈ first :: more, c.isDigit = true)
    (hends : ∀ c ∈ rest.head?, isWordChar c = false) :
    scan first (more ++ rest) = ⟨.number, more.length, 0⟩ := by
  have hfirst := hdigits first List.mem_cons_self
  have hcomment : first ≠ '#' := by
    rintro rfl
    exact absurd hfirst (by decide)
  have hposition : first ≠ '@' := by
    rintro rfl
    exact absurd hfirst (by decide)
  rw [scan, if_neg hcomment, if_neg hposition, if_pos hfirst, scanNumber_digits hdigits hends]
  rfl

/-- An at sign with digits behind it is a position. -/
theorem scan_position (hdigits : ∀ c ∈ first :: more, c.isDigit = true)
    (hends : ∀ c ∈ rest.head?, isWordChar c = false) :
    scan '@' (first :: (more ++ rest)) = ⟨.position, more.length + 1, 0⟩ := by
  have hhead : ((first :: (more ++ rest)).head?.map Char.isDigit).getD false = true :=
    hdigits first List.mem_cons_self
  rw [scan, if_neg (by decide), if_pos rfl, if_pos hhead, scanNumber_digits hdigits hends]
  rfl

end Lexer

namespace Decimal

theorem digitValue_of_isDigit {c : Char} (hdigit : c.isDigit = true) :
    digitValue c = c.toNat - '0'.toNat ∧ digitValue c < 10 := by
  have hvalue : digitValue c = c.toNat - '0'.toNat := by rw [digitValue, if_pos hdigit]
  refine ⟨hvalue, ?_⟩
  simp only [Char.isDigit, Bool.and_eq_true, decide_eq_true_eq, UInt32.le_iff_toNat_le] at hdigit
  rw [hvalue]
  have hhigh : c.toNat ≤ 57 := hdigit.2
  change c.toNat - 48 < 10
  omega

theorem foldl_digitValue {digits : List Char} (hdigits : ∀ c ∈ digits, c.isDigit = true) (n : Nat) :
    digits.foldl (fun n c => n * 10 + digitValue c) n = Nat.ofDigitChars 10 digits n := by
  induction digits generalizing n with
  | nil => rfl
  | cons digit others ih =>
      have hvalue := (digitValue_of_isDigit (hdigits digit List.mem_cons_self)).1
      rw [List.foldl_cons, ih fun c hmem => hdigits c (List.mem_cons_of_mem _ hmem), hvalue,
        Nat.mul_comm]
      rfl

theorem unsigned?_numeral {digits : List Char} {n : Nat} (hnumeral : Numeral digits n)
    (hlt : n < 2 ^ 64) : unsigned? 10 digits = some (UInt64.ofNat n) := by
  have hplus : digits.head? ≠ some '+' := by
    intro hhead
    exact absurd (hnumeral.isDigit '+' (List.mem_of_head? hhead)) (by decide)
  have hsmall : digits.any (fun c => decide (10 ≤ digitValue c)) = false := by
    rw [List.any_eq_false]
    intro c hmem
    rw [decide_eq_true_eq, Nat.not_le]
    exact (digitValue_of_isDigit (hnumeral.isDigit c hmem)).2
  have hne : digits.isEmpty = false := by
    rw [Bool.eq_false_iff, ne_eq, List.isEmpty_iff]
    exact hnumeral.ne_nil
  rw [unsigned?, if_neg hplus, ofDigits?, hne, hsmall, Bool.false_or, if_neg (by decide),
    foldl_digitValue hnumeral.isDigit, hnumeral.value_eq]
  exact if_pos hlt

end Decimal

/-- A numeral of at most 64 bits is read as its number. -/
theorem Number.parse?_numeral {digits : List Char} {n : Nat} (hnumeral : Numeral digits n)
    (hlt : n < 2 ^ 64) : parse? digits = some (.integer (UInt64.ofNat n)) := by
  have hmagnitude : parseMagnitude? digits = some (.integer (UInt64.ofNat n)) := by
    have hplain : digits.any (fun c => c == '.' || c == 'e' || c == 'E') = false := by
      rw [List.any_eq_false]
      intro c hmem
      simp only [Bool.or_eq_true, beq_iff_eq]
      rintro ((rfl | rfl) | rfl) <;> exact absurd (hnumeral.isDigit _ hmem) (by decide)
    unfold parseMagnitude?
    split
    case h_5 =>
      rw [hplain, if_neg (by decide), Decimal.unsigned?_numeral hnumeral hlt]
      rfl
    all_goals
      exact absurd (hnumeral.isDigit _ (List.mem_cons_of_mem _ List.mem_cons_self)) (by decide)
  unfold parse?
  split
  · exact absurd (hnumeral.isDigit '-' List.mem_cons_self) (by decide)
  · exact hmagnitude

/-- A numeral below the numbers that are taken for negative ones is read as a natural number. -/
theorem Number.natural?_numeral {digits : List Char} {n : Nat} (hnumeral : Numeral digits n)
    (hlt : n < 2 ^ 63) : (parse? digits).bind natural? = some n := by
  have hcell : (UInt64.ofNat n).toNat = n :=
    UInt64.toNat_ofNat_of_lt' (Nat.lt_trans hlt (by decide))
  have hsigned : Cell.signed (UInt64.ofNat n) = n := by
    rw [Cell.signed, hcell, if_pos (by omega)]
  rw [parse?_numeral hnumeral (Nat.lt_trans hlt (by decide)), Option.bind_some, natural?, hsigned,
    if_pos (Int.natCast_nonneg n), hcell]

end VectorStack
