import Mathlib.Data.List.Basic
import Mathlib.Data.Nat.Digits.Defs
import VectorStack.Proofs.Arithmetic.Integer
import VectorStack.Proofs.Token.Bytewise
import VectorStack.Proofs.Token.Numeral
/-!
The spellings of numbers. A number without a sign is digits in decimal, digits in hexadecimal or in
binary behind a mark, or decimal digits with a fraction or an exponent. The main statement is that
each spelling is read as what it stands for: a whole number as long as it has 64 bits, and every
number with a fraction or an exponent as a floating-point number. What is printed in hexadecimal is
a spelling of its number.
-/

namespace VectorStack

namespace Number

open Lexer

/-- The digits of the radixes up to sixteen in order, with small letters. -/
def smallDigits : List Char :=
  ['0', '1', '2', '3', '4', '5', '6', '7', '8', '9', 'a', 'b', 'c', 'd', 'e', 'f']

/-- The same with capital letters. -/
def capitalDigits : List Char :=
  ['0', '1', '2', '3', '4', '5', '6', '7', '8', '9', 'A', 'B', 'C', 'D', 'E', 'F']

/-- The place of a digit in their order; sixteen for any other character. -/
def digitOf (c : Char) : Nat := min (smallDigits.idxOf c) (capitalDigits.idxOf c)

/-- Digits of a radix, at least one. -/
structure IsDigits (radix : Nat) (digits : List Char) : Prop where
  ne_nil : digits ≠ []
  digit_lt : ∀ c ∈ digits, digitOf c < radix

/-- The number that digits stand for, of which the last one counts least. -/
def valueOf (radix : Nat) (digits : List Char) : Nat :=
  Nat.ofDigits radix (digits.reverse.map digitOf)

section Digits

variable {c : Char} {radix : Nat} {digits : List Char}

theorem mem_of_digitOf_lt (hlt : digitOf c < 16) : c ∈ smallDigits ++ capitalDigits := by
  rcases min_lt_iff.mp hlt with hsmall | hcapital
  · exact List.mem_append_left _ (List.idxOf_lt_length_iff.mp hsmall)
  · exact List.mem_append_right _ (List.idxOf_lt_length_iff.mp hcapital)

theorem digitValue_eq (hlt : digitOf c < 16) : Decimal.digitValue c = digitOf c := by
  have hall : (smallDigits ++ capitalDigits).all
      (fun c => Decimal.digitValue c == digitOf c) = true := rfl
  exact beq_iff_eq.mp (List.all_eq_true.mp hall c (mem_of_digitOf_lt hlt))

/-- A fact about ASCII characters can be checked for each of them. -/
theorem forall_of_isAscii {P : Char → Prop} (hall : ∀ code < 128, P (Char.ofNat code))
    (hascii : isAscii c = true) : P c := by
  have hcode := hall c.toNat (of_decide_eq_true hascii)
  rwa [Char.ofNat_toNat] at hcode

theorem isDigit_iff : c.isDigit = true ↔ digitOf c < 10 := by
  constructor
  · intro hdigit
    refine forall_of_isAscii (P := fun c => c.isDigit = true → digitOf c < 10) ?_
      (picky_isDigit c hdigit).1 hdigit
    decide
  · intro hlt
    have hall : (smallDigits ++ capitalDigits).all
        (fun c => c.isDigit || decide (10 ≤ digitOf c)) = true := rfl
    have hcase := List.all_eq_true.mp hall c (mem_of_digitOf_lt (by omega))
    rcases Bool.or_eq_true_iff.mp hcase with hdigit | hge
    · exact hdigit
    · exact absurd hlt (Nat.not_lt_of_le (of_decide_eq_true hge))

theorem digitOf_lt_of_isHexDigit (hdigit : isHexDigit c = true) : digitOf c < 16 := by
  refine forall_of_isAscii (P := fun c => isHexDigit c = true → digitOf c < 16) ?_
    (picky_isHexDigit c hdigit).1 hdigit
  decide

theorem digitOf_lt_of_isBinaryDigit (hdigit : isBinaryDigit c = true) : digitOf c < 2 := by
  rcases Bool.or_eq_true_iff.mp hdigit with h | h
  · rw [beq_iff_eq.mp h]
    decide
  · rw [beq_iff_eq.mp h]
    decide

theorem foldl_digits (radix : Nat) (digits : List Char) :
    digits.foldl (fun n c => n * radix + digitOf c) 0 = valueOf radix digits := by
  rw [valueOf, Nat.ofDigits_eq_foldr, List.foldr_map, List.foldr_reverse]
  congr 1
  funext n c
  simp [Nat.mul_comm, Nat.add_comm]

theorem IsDigits.ofDigits?_eq (hdigits : IsDigits radix digits) (hradix : radix ≤ 16) :
    Decimal.ofDigits? radix digits = some (valueOf radix digits) := by
  have hvalue : ∀ c ∈ digits, Decimal.digitValue c = digitOf c := fun c hmem =>
    digitValue_eq (Nat.lt_of_lt_of_le (hdigits.digit_lt c hmem) hradix)
  have hany : digits.any (fun c => radix ≤ Decimal.digitValue c) = false := by
    rw [List.any_eq_false]
    intro c hmem
    have hlt := hdigits.digit_lt c hmem
    simpa [hvalue c hmem] using hlt
  have hempty : digits.isEmpty = false := by simpa using hdigits.ne_nil
  have hfold : digits.foldl (fun n c => n * radix + Decimal.digitValue c) 0 =
      valueOf radix digits := by
    rw [← foldl_digits]
    exact List.foldl_ext _ _ 0 fun n c hmem => by rw [hvalue c hmem]
  rw [Decimal.ofDigits?, hempty, hany, hfold]
  rfl

theorem IsDigits.unsigned?_eq (hdigits : IsDigits radix digits) (hradix : radix ≤ 16) :
    Decimal.unsigned? radix digits =
      if valueOf radix digits < 2 ^ 64 then some (UInt64.ofNat (valueOf radix digits))
      else none := by
  have hplus : digits.head? ≠ some '+' := by
    intro hhead
    have hlt := hdigits.digit_lt '+' (List.mem_of_head? hhead)
    have hnone : digitOf '+' = 16 := by decide
    omega
  rw [Decimal.unsigned?, if_neg hplus, hdigits.ofDigits?_eq hradix]
  rfl

end Digits

/-- A point with digits behind it, or nothing. -/
inductive IsFraction : List Char → Prop
  | none : IsFraction []
  | point {digits : List Char} (hdigits : IsDigits 10 digits) : IsFraction ('.' :: digits)

/-- A mark, a sign or none, and digits; or nothing. -/
inductive IsExponent : List Char → Prop
  | none : IsExponent []
  | mark {mark : Char} {sign digits : List Char} (hmark : mark = 'e' ∨ mark = 'E')
      (hsign : sign = [] ∨ sign = ['+'] ∨ sign = ['-']) (hdigits : IsDigits 10 digits) :
      IsExponent (mark :: (sign ++ digits))

/-- What a spelling stands for: a whole number, or a number with a fraction or an exponent. -/
inductive Spelling where
  | whole (n : Nat)
  | real

/-- The ways to spell a number without a sign. -/
inductive Spells : List Char → Spelling → Prop
  | decimal {digits : List Char} (hdigits : IsDigits 10 digits) :
      Spells digits (.whole (valueOf 10 digits))
  | hexadecimal {mark : Char} {digits : List Char} (hmark : mark = 'x' ∨ mark = 'X')
      (hdigits : IsDigits 16 digits) : Spells ('0' :: mark :: digits) (.whole (valueOf 16 digits))
  | binary {mark : Char} {digits : List Char} (hmark : mark = 'b' ∨ mark = 'B')
      (hdigits : IsDigits 2 digits) : Spells ('0' :: mark :: digits) (.whole (valueOf 2 digits))
  | real {digits fraction exponent : List Char} (hdigits : IsDigits 10 digits)
      (hfraction : IsFraction fraction) (hexponent : IsExponent exponent)
      (hsome : fraction ++ exponent ≠ []) : Spells (digits ++ (fraction ++ exponent)) .real

/-- What is read for a spelling: a whole number below `2 ^ 64` as the signed reading of its bits, a
larger one not at all, and any other number as a floating-point number. -/
def Spelling.ReadAs : Spelling → Option Number → Prop
  | .whole n, found =>
    if n < 2 ^ 64 then
      ∃ cell : Cell, found = some (.integer cell) ∧ cell.signed = (n : Int).bmod (2 ^ 64)
    else found = none
  | .real, found => ∃ cell, found = some (.real cell)

section Reading

variable {literal digits fraction exponent : List Char} {radix : Nat}

theorem readAs_unsigned? (hdigits : IsDigits radix digits) (hradix : radix ≤ 16) :
    (Spelling.whole (valueOf radix digits)).ReadAs
      ((Decimal.unsigned? radix digits).map integer) := by
  rw [hdigits.unsigned?_eq hradix, Spelling.ReadAs]
  by_cases hlt : valueOf radix digits < 2 ^ 64
  · rw [if_pos hlt, if_pos hlt]
    refine ⟨_, rfl, ?_⟩
    rw [Cell.signed_eq_bmod, UInt64.toNat_ofNat', Nat.mod_eq_of_lt hlt]
  · rw [if_neg hlt, if_neg hlt]
    rfl

/-- A spelling starts with a digit, so it has no sign. -/
theorem parse?_eq_parseMagnitude? (hminus : literal.head? ≠ some '-') :
    parse? literal = parseMagnitude? literal := by
  unfold parse?
  split
  · exact absurd rfl hminus
  · rfl

/-- What is neither hexadecimal nor binary is in decimal. -/
theorem parseMagnitude?_of_not_isMarked (hmarked : ¬ IsMarked literal) :
    parseMagnitude? literal =
      if literal.any (fun c => c == '.' || c == 'e' || c == 'E') then
        (Decimal.float? literal).map fun x => real (Cell.ofFloat x)
      else (Decimal.unsigned? 10 literal).map integer := by
  rw [parseMagnitude?]
  all_goals
    rintro rest rfl
    exact hmarked ⟨_, by simp [marks], rest, rfl⟩

theorem IsDigits.isDigit (hdigits : IsDigits 10 digits) : ∀ c ∈ digits, c.isDigit = true :=
  fun c hmem => isDigit_iff.mpr (hdigits.digit_lt c hmem)

/-- Digits, and what follows them in decimal, have no mark of another radix. -/
theorem IsDigits.not_isMarked (hdigits : IsDigits 10 digits) {rest : List Char}
    (hrest : ∀ c ∈ rest.head?, c ∉ marks) : ¬ IsMarked (digits ++ rest) := by
  rintro ⟨mark, hmark, others, htext⟩
  cases digits with
  | nil => exact hdigits.ne_nil rfl
  | cons first more =>
      cases more with
      | nil =>
          cases htext
          exact hrest mark rfl hmark
      | cons second more =>
          cases htext
          have hlt := hdigits.digit_lt mark (by simp)
          have hall : marks.all (fun c => decide (10 ≤ digitOf c)) = true := rfl
          have hge := of_decide_eq_true (List.all_eq_true.mp hall mark hmark)
          omega

theorem IsDigits.head?_ne (hdigits : IsDigits 10 digits) (rest : List Char) {c : Char}
    (hc : c.isDigit = false) : (digits ++ rest).head? ≠ some c := by
  intro hhead
  cases digits with
  | nil => exact hdigits.ne_nil rfl
  | cons first more =>
      cases hhead
      have hdigit := hdigits.isDigit _ List.mem_cons_self
      rw [hc] at hdigit
      cases hdigit

theorem readAs_decimal (hdigits : IsDigits 10 digits) :
    (Spelling.whole (valueOf 10 digits)).ReadAs (parse? digits) := by
  have hminus := hdigits.head?_ne [] (c := '-') rfl
  have hmarked : ¬ IsMarked (digits ++ []) := hdigits.not_isMarked nofun
  rw [List.append_nil] at hminus hmarked
  have hplain : digits.any (fun c => c == '.' || c == 'e' || c == 'E') = false := by
    rw [List.any_eq_false]
    intro c hmem
    have hdigit := hdigits.isDigit c hmem
    simp only [Bool.or_eq_true, beq_iff_eq]
    rintro ((rfl | rfl) | rfl) <;> cases hdigit
  rw [parse?_eq_parseMagnitude? hminus, parseMagnitude?_of_not_isMarked hmarked, hplain]
  exact readAs_unsigned? hdigits (by decide)

theorem IsDigits.takeWhile_append (hdigits : IsDigits 10 digits) {rest : List Char}
    (hrest : ∀ c ∈ rest.head?, c.isDigit = false) :
    (digits ++ rest).takeWhile Char.isDigit = digits := by
  rw [List.takeWhile_append_of_pos hdigits.isDigit]
  cases rest with
  | nil => simp
  | cons c rest => simp [hrest c rfl]

theorem IsDigits.append {more : List Char} (hdigits : IsDigits radix digits)
    (hmore : ∀ c ∈ more, digitOf c < radix) : IsDigits radix (digits ++ more) where
  ne_nil := by simp [hdigits.ne_nil]
  digit_lt c hmem := (List.mem_append.mp hmem).elim (hdigits.digit_lt c) (hmore c)

theorem IsDigits.exponentDigits?_isSome (hdigits : IsDigits 10 digits) :
    (Decimal.exponentDigits? digits).isSome = true := by
  have hany : digits.any (!·.isDigit) = false := by
    rw [List.any_eq_false]
    intro c hmem
    simp [hdigits.isDigit c hmem]
  have hempty : digits.isEmpty = false := by simpa using hdigits.ne_nil
  rw [Decimal.exponentDigits?, hempty, hany]
  rfl

/-- Digits behind a sign or none are an exponent. -/
theorem IsDigits.exponent?_isSome (hdigits : IsDigits 10 digits) {sign : List Char}
    (hsign : sign = [] ∨ sign = ['+'] ∨ sign = ['-']) :
    (Decimal.exponent? (sign ++ digits)).isSome = true := by
  obtain ⟨power, hpower⟩ := Option.isSome_iff_exists.mp hdigits.exponentDigits?_isSome
  rcases hsign with rfl | rfl | rfl
  · have hminus := hdigits.head?_ne [] (c := '-') rfl
    have hplus := hdigits.head?_ne [] (c := '+') rfl
    rw [List.append_nil] at hminus hplus
    rw [List.nil_append, Decimal.exponent?, hpower]
    · rfl
    · rintro rest rfl
      exact hminus rfl
    · rintro rest rfl
      exact hplus rfl
  · simp [Decimal.exponent?, hpower]
  · simp [Decimal.exponent?, hpower]

theorem head?_exponent (hexponent : IsExponent exponent) :
    ∀ c ∈ exponent.head?, c = 'e' ∨ c = 'E' := by
  intro c hmem
  cases hexponent with
  | none => cases hmem
  | mark hmark =>
      cases hmem
      exact hmark

/-- Behind the digits of a number there is a point or the mark of an exponent. -/
theorem head?_fraction_exponent (hfraction : IsFraction fraction)
    (hexponent : IsExponent exponent) :
    ∀ c ∈ (fraction ++ exponent).head?, c = '.' ∨ c = 'e' ∨ c = 'E' := by
  intro c hmem
  cases hfraction with
  | none => exact .inr (head?_exponent hexponent c hmem)
  | point =>
      cases hmem
      exact .inl rfl

/-- What is taken for the digits of a fraction, and what is left behind them. -/
theorem exists_fraction_digits (hfraction : IsFraction fraction) (hexponent : IsExponent exponent) :
    ∃ more : List Char, (∀ c ∈ more, digitOf c < 10) ∧
      (if (fraction ++ exponent).head? = some '.' then
        ((fraction ++ exponent).drop 1).takeWhile Char.isDigit else []) = more ∧
      (if (fraction ++ exponent).head? = some '.' then
        (fraction ++ exponent).drop (1 + more.length) else fraction ++ exponent) = exponent := by
  have hhead := head?_exponent hexponent
  cases hfraction with
  | none =>
      have hpoint : ([] ++ exponent).head? ≠ some '.' := by
        intro hpoint
        rcases hhead '.' hpoint with h | h <;> cases h
      exact ⟨[], nofun, if_neg hpoint, if_neg hpoint⟩
  | @point more hmore =>
      have htake : (more ++ exponent).takeWhile Char.isDigit = more := by
        refine hmore.takeWhile_append fun c hmem => ?_
        rcases hhead c hmem with rfl | rfl <;> rfl
      have hpoint : ('.' :: more ++ exponent).head? = some '.' := rfl
      refine ⟨more, hmore.digit_lt, ?_, ?_⟩
      · rw [if_pos hpoint]
        exact htake
      · rw [if_pos hpoint, Nat.add_comm]
        exact List.drop_left

theorem float?_isSome (hdigits : IsDigits 10 digits) (hfraction : IsFraction fraction)
    (hexponent : IsExponent exponent) :
    (Decimal.float? (digits ++ (fraction ++ exponent))).isSome = true := by
  have hplus := hdigits.head?_ne (fraction ++ exponent) (c := '+') rfl
  have hwhole : (digits ++ (fraction ++ exponent)).takeWhile Char.isDigit = digits := by
    refine hdigits.takeWhile_append fun c hmem => ?_
    rcases head?_fraction_exponent hfraction hexponent c hmem with rfl | rfl | rfl <;> rfl
  obtain ⟨more, hmore, htake, hdrop⟩ := exists_fraction_digits hfraction hexponent
  have hvalue := (hdigits.append hmore).ofDigits?_eq (Nat.le_of_lt (by decide : 10 < 16))
  rw [Decimal.float?]
  simp only [if_neg hplus, hwhole, List.drop_left, htake, hdrop, hvalue]
  cases hexponent with
  | none => rfl
  | mark hmark hsign hpower =>
      have hmarks := Bool.or_eq_true_iff.mpr (hmark.imp beq_iff_eq.mpr beq_iff_eq.mpr)
      obtain ⟨power, hpower⟩ := Option.isSome_iff_exists.mp (hpower.exponent?_isSome hsign)
      dsimp only
      rw [if_pos hmarks, hpower]
      rfl

theorem readAs_real (hdigits : IsDigits 10 digits) (hfraction : IsFraction fraction)
    (hexponent : IsExponent exponent) (hsome : fraction ++ exponent ≠ []) :
    Spelling.real.ReadAs (parse? (digits ++ (fraction ++ exponent))) := by
  have hminus := hdigits.head?_ne (fraction ++ exponent) (c := '-') rfl
  have hhead := head?_fraction_exponent hfraction hexponent
  have hmarked : ¬ IsMarked (digits ++ (fraction ++ exponent)) := by
    refine hdigits.not_isMarked fun c hmem => ?_
    rcases hhead c hmem with rfl | rfl | rfl <;> decide
  have hany : (digits ++ (fraction ++ exponent)).any
      (fun c => c == '.' || c == 'e' || c == 'E') = true := by
    obtain ⟨c, rest, hrest⟩ := List.exists_cons_of_ne_nil hsome
    rw [List.any_append, Bool.or_eq_true]
    refine .inr (List.any_eq_true.mpr ⟨c, by simp [hrest], ?_⟩)
    rcases hhead c (by simp [hrest]) with rfl | rfl | rfl <;> rfl
  obtain ⟨x, hx⟩ := Option.isSome_iff_exists.mp (float?_isSome hdigits hfraction hexponent)
  rw [parse?_eq_parseMagnitude? hminus, parseMagnitude?_of_not_isMarked hmarked, hany, hx]
  exact ⟨_, rfl⟩

/-- Every spelling is read as what it stands for. -/
theorem Spells.readAs {spelling : Spelling} (hspells : Spells literal spelling) :
    spelling.ReadAs (parse? literal) := by
  cases hspells with
  | decimal hdigits => exact readAs_decimal hdigits
  | hexadecimal hmark hdigits =>
      rcases hmark with rfl | rfl <;> exact readAs_unsigned? hdigits (by decide)
  | binary hmark hdigits =>
      rcases hmark with rfl | rfl <;> exact readAs_unsigned? hdigits (by decide)
  | real hdigits hfraction hexponent hsome =>
      exact readAs_real hdigits hfraction hexponent hsome

end Reading

section Printing

theorem digitOf_digitChar {n : Nat} (hlt : n < 16) : digitOf n.digitChar = n := by
  have hall : (List.range 16).all (fun n => digitOf n.digitChar == n) = true := rfl
  exact beq_iff_eq.mp (List.all_eq_true.mp hall n (List.mem_range.mpr hlt))

theorem valueOf_append (radix : Nat) (digits : List Char) (last : Char) :
    valueOf radix (digits ++ [last]) = valueOf radix digits * radix + digitOf last := by
  rw [← foldl_digits, List.foldl_append, foldl_digits]
  rfl

/-- The hexadecimal digits of a number stand for it. -/
theorem isDigits_toDigits (n : Nat) :
    IsDigits 16 (Nat.toDigits 16 n) ∧ valueOf 16 (Nat.toDigits 16 n) = n := by
  induction n using Nat.strongRecOn with
  | ind n ih =>
      by_cases hlt : n < 16
      · have hdigit := digitOf_digitChar hlt
        rw [Nat.toDigits_of_lt_base hlt]
        refine ⟨⟨List.cons_ne_nil _ _, fun c hmem => ?_⟩, ?_⟩
        · rw [List.mem_singleton.mp hmem, hdigit]
          exact hlt
        · rw [← List.nil_append [_], valueOf_append, hdigit]
          exact Nat.zero_add n
      · have hle : 16 ≤ n := Nat.not_lt.mp hlt
        have hlast := digitOf_digitChar (Nat.mod_lt n (by decide : 0 < 16))
        obtain ⟨hdigits, hvalue⟩ := ih (n / 16) (Nat.div_lt_self (by omega) (by decide))
        rw [Nat.toDigits_of_base_le (by decide) hle]
        refine ⟨hdigits.append fun c hmem => ?_, ?_⟩
        · rw [List.mem_singleton.mp hmem, hlast]
          exact Nat.mod_lt n (by decide)
        · rw [valueOf_append, hvalue, hlast]
          omega

/-- Zeros in front change nothing. -/
theorem valueOf_replicate_zero (radix count : Nat) (digits : List Char) :
    valueOf radix (List.replicate count '0' ++ digits) = valueOf radix digits := by
  induction count with
  | zero => rfl
  | succ count ih =>
      have hzero : digitOf '0' = 0 := by decide
      rw [← foldl_digits, List.replicate_succ, List.cons_append, List.foldl_cons, Nat.zero_mul,
        hzero, foldl_digits, ih]

/-- A number that is printed in hexadecimal is read as it is. -/
theorem spells_hexNat (width n : Nat) :
    Spells ("0x" ++ Bytes.hexNat width n).toList (.whole n) := by
  obtain ⟨hdigits, hvalue⟩ := isDigits_toDigits n
  have hpadded : IsDigits 16
      (List.replicate (width - (Nat.toDigits 16 n).length) '0' ++ Nat.toDigits 16 n) := by
    refine ⟨by simp [hdigits.ne_nil], fun c hmem => ?_⟩
    rcases List.mem_append.mp hmem with hzero | hdigit
    · rw [(List.mem_replicate.mp hzero).2]
      decide
    · exact hdigits.digit_lt c hdigit
  have hspells := Spells.hexadecimal (.inl rfl) hpadded
  rw [valueOf_replicate_zero, hvalue] at hspells
  simp only [String.toList_append, Bytes.hexNat, String.toList_ofList]
  exact hspells

end Printing

end Number

end VectorStack
