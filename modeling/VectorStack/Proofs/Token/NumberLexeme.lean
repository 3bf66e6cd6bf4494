import Mathlib.Data.List.TakeWhile
import VectorStack.Proofs.Token.Alone
import VectorStack.Proofs.Token.Spelling
/-!
The numbers of a text. Whatever the lexer takes for a number is spelled like one and therefore read
as what the spelling stands for, and the decimal form of a signed number is read back as the number.
-/

namespace VectorStack

namespace Number

open Lexer

section Lexed

variable {text : List Char}

theorem forall_of_count_eq {test : Char → Bool} (hcount : count test text = text.length) :
    ∀ c ∈ text, test c = true :=
  List.takeWhile_eq_self_iff.mp ((List.takeWhile_prefix test).eq_of_length hcount)

theorem isDigits_of_count_eq {test : Char → Bool} {radix : Nat}
    (htest : ∀ c, test c = true → digitOf c < radix) (hne : text ≠ [])
    (hcount : count test text = text.length) : IsDigits radix text :=
  ⟨hne, fun c hmem => htest c (forall_of_count_eq hcount c hmem)⟩

theorem isFraction_of_fractionLength_eq (hlength : fractionLength text = text.length) :
    IsFraction text := by
  unfold fractionLength at hlength
  split at hlength
  · next digit rest =>
      by_cases hdigit : digit.isDigit = true
      · rw [if_pos hdigit, List.length_cons, List.length_cons] at hlength
        have hrest := @forall_of_count_eq rest Char.isDigit (by omega)
        refine .point ⟨List.cons_ne_nil digit rest, List.forall_mem_cons.mpr ⟨?_, ?_⟩⟩
        · exact isDigit_iff.mp hdigit
        · exact fun c hmem => isDigit_iff.mp (hrest c hmem)
      · rw [if_neg hdigit] at hlength
        cases hlength
  · rw [List.length_eq_zero_iff.mp hlength.symm]
    exact .none

theorem take_signLength (text : List Char) :
    text.take (signLength text) = [] ∨ text.take (signLength text) = ['+'] ∨
      text.take (signLength text) = ['-'] := by
  unfold signLength
  by_cases hplus : text.head? = some '+'
  · obtain ⟨rest, rfl⟩ := List.head?_eq_some_iff.mp hplus
    exact .inr (.inl rfl)
  · by_cases hminus : text.head? = some '-'
    · obtain ⟨rest, rfl⟩ := List.head?_eq_some_iff.mp hminus
      exact .inr (.inr rfl)
    · simp [hplus, hminus]

theorem isExponent_of_exponentLength_eq (hlength : exponentLength text = text.length) :
    IsExponent text := by
  cases text with
  | nil => exact .none
  | cons mark rest =>
      rw [exponentLength_cons, List.length_cons] at hlength
      by_cases hmark : (mark == 'e' || mark == 'E') = true
      · by_cases hnone : count Char.isDigit (rest.drop (signLength rest)) = 0
        · rw [if_pos hmark, if_pos hnone] at hlength
          cases hlength
        · rw [if_pos hmark, if_neg hnone] at hlength
          have hsplit : rest.take (signLength rest) ++ rest.drop (signLength rest) = rest :=
            List.take_append_drop _ rest
          have hdigits : IsDigits 10 (rest.drop (signLength rest)) := by
            refine @isDigits_of_count_eq _ Char.isDigit 10 (fun c => isDigit_iff.mp) ?_ ?_
            · intro hnil
              rw [hnil] at hnone
              exact hnone rfl
            · rw [List.length_drop]
              omega
          rw [← hsplit]
          refine .mark ?_ (take_signLength rest) hdigits
          exact (Bool.or_eq_true_iff.mp hmark).imp beq_iff_eq.mp beq_iff_eq.mp
      · rw [if_neg hmark] at hlength
        cases hlength

/-- Digits behind a mark are all of what is taken for a number. -/
theorem isDigits_of_marked {test : Char → Bool} {radix : Nat}
    (htest : ∀ c, test c = true → digitOf c < radix)
    (hlength : (count test text != 0, 2 + count test text) = (true, text.length + 2)) :
    IsDigits radix text := by
  obtain ⟨hsome, hlength⟩ := Prod.mk.inj hlength
  refine isDigits_of_count_eq htest ?_ (by omega)
  rintro rfl
  cases hsome

/-- In decimal, the fraction and the exponent follow the first digits. -/
theorem exists_spells_of_not_isMarked (hdigit : (text.head?.map Char.isDigit).getD false = true)
    (hmarked : ¬ IsMarked text) (hlength : numberLength text = (true, text.length)) :
    ∃ spelling, Spells text spelling := by
  obtain ⟨digits, rest, rfl, hdigits, hcount⟩ : ∃ digits rest, text = digits ++ rest ∧
      IsDigits 10 digits ∧ count Char.isDigit text = digits.length := by
    refine ⟨_, _, List.takeWhile_append_dropWhile.symm, ⟨?_, ?_⟩, rfl⟩
    · cases text with
      | nil => cases hdigit
      | cons first more =>
          have hpass : first.isDigit = true := hdigit
          simp [hpass]
    · exact fun c hmem => isDigit_iff.mp (List.all_eq_true.mp List.all_takeWhile c hmem)
  rw [numberLength_of_not_isMarked hmarked, hcount, List.drop_left, List.drop_length_add_append,
    List.length_append] at hlength
  have htotal := (Prod.mk.inj hlength).2
  have hfraction : IsFraction (rest.take (fractionLength rest)) := by
    refine isFraction_of_fractionLength_eq ?_
    rw [settled_fractionLength rest _ (Nat.le_refl _), List.length_take]
    omega
  have hexponent : IsExponent (rest.drop (fractionLength rest)) := by
    refine isExponent_of_exponentLength_eq ?_
    rw [List.length_drop]
    omega
  by_cases hrest : rest = []
  · subst hrest
    rw [List.append_nil]
    exact ⟨_, .decimal hdigits⟩
  · have hsplit := List.take_append_drop (fractionLength rest) rest
    have hreal := Spells.real hdigits hfraction hexponent (by rw [hsplit]; exact hrest)
    rw [hsplit] at hreal
    exact ⟨_, hreal⟩

/-- What is taken whole for a number is spelled as one. -/
theorem exists_spells (hdigit : (text.head?.map Char.isDigit).getD false = true)
    (hlength : numberLength text = (true, text.length)) : ∃ spelling, Spells text spelling := by
  by_cases hmarked : IsMarked text
  · obtain ⟨mark, hmark, rest, rfl⟩ := hmarked
    simp only [marks, List.mem_cons, List.not_mem_nil, or_false] at hmark
    rcases hmark with rfl | rfl | rfl | rfl
    · exact ⟨_, .hexadecimal (.inl rfl)
        (isDigits_of_marked (fun _ => digitOf_lt_of_isHexDigit) hlength)⟩
    · exact ⟨_, .hexadecimal (.inr rfl)
        (isDigits_of_marked (fun _ => digitOf_lt_of_isHexDigit) hlength)⟩
    · exact ⟨_, .binary (.inl rfl)
        (isDigits_of_marked (fun _ => digitOf_lt_of_isBinaryDigit) hlength)⟩
    · exact ⟨_, .binary (.inr rfl)
        (isDigits_of_marked (fun _ => digitOf_lt_of_isBinaryDigit) hlength)⟩
  · exact exists_spells_of_not_isMarked hdigit hmarked hlength

theorem markKind?_ne_number (c : Char) : (markKind? c).getD .invalid ≠ .number := by
  unfold markKind?
  split <;> decide

/-- Only a digit starts a number. -/
theorem isDigit_of_kind_scan {first : Char} {rest : List Char}
    (hkind : (scan first rest).kind = .number) : first.isDigit = true := by
  by_contra hdigit
  rw [scan, if_neg hdigit] at hkind
  -- in the order in which the first character is tried
  split at hkind
  · cases hkind
  split at hkind
  · split at hkind
    · dsimp only at hkind
      split at hkind <;> cases hkind
    · cases hkind
  split at hkind
  · cases hkind
  split at hkind
  · cases hkind
  split at hkind
  · cases hkind
  split at hkind
  · dsimp only at hkind
    split at hkind <;> cases hkind
  split at hkind
  · dsimp only at hkind
    split at hkind <;> cases hkind
  split at hkind
  · cases hkind
  · exact markKind?_ne_number first hkind

/-- What is scanned whole as a number is spelled as one. -/
theorem exists_spells_of_scanNumber (hdigit : (text.head?.map Char.isDigit).getD false = true)
    (hscan : scanNumber text = (.number, text.length)) : ∃ spelling, Spells text spelling := by
  refine exists_spells hdigit ?_
  simp only [scanNumber, Prod.mk.injEq] at hscan
  obtain ⟨hnumber, hlength⟩ := hscan
  split at hnumber
  · next hvalid =>
      obtain ⟨hvalid, hglued⟩ := Bool.and_eq_true_iff.mp hvalid
      rw [beq_iff_eq.mp hglued] at hlength
      exact Prod.ext hvalid hlength
  · cases hnumber

/-- A number of any text is spelled as one. -/
theorem exists_spells_of_mem_lex {lexeme : Lexeme} (hmem : lexeme ∈ lex text)
    (hkind : lexeme.kind = .number) : ∃ spelling, Spells (lexeme.chars text) spelling := by
  obtain ⟨first, more, hchars, hscan, -⟩ := exists_scan_chars hmem
  rw [hkind] at hscan
  have hdigit : first.isDigit = true := isDigit_of_kind_scan (congrArg Scan.kind hscan)
  have hpos : 0 < (scanNumber (first :: more)).2 := scanNumber_pos hdigit
  rw [scan_digit more hdigit] at hscan
  obtain ⟨hnumber, hlength, -⟩ := Scan.mk.inj hscan
  rw [hchars]
  refine exists_spells_of_scanNumber hdigit (Prod.ext hnumber ?_)
  rw [List.length_cons, ← hlength, Nat.sub_add_cancel hpos]

end Lexed

/-- A signed number is read back from its decimal form. -/
theorem exists_parse?_repr {n : Int} (hlow : -2 ^ 63 ≤ n) (hhigh : n < 2 ^ 63) :
    ∃ cell : Cell, parse? (Int.repr n).toList = some (.integer cell) ∧ cell.signed = n := by
  cases n with
  | ofNat n =>
      have hlt : n < 2 ^ 63 := Int.ofNat_lt.mp hhigh
      refine ⟨_, parse?_numeral (numeral_repr n) (by omega), ?_⟩
      unfold Cell.signed
      rw [UInt64.toNat_ofNat', Nat.mod_eq_of_lt (by omega)]
      exact if_pos hlt
  | negSucc n =>
      have hle : n + 1 ≤ 2 ^ 63 := by omega
      have hmagnitude := parse?_numeral (numeral_repr (n + 1)) (by omega)
      have hminus : (Int.repr (.negSucc n)).toList = '-' :: (Nat.repr (n + 1)).toList :=
        String.toList_append
      refine ⟨0 - UInt64.ofNat (n + 1), ?_, ?_⟩
      · rw [hminus, parse?, hmagnitude]
        rfl
      · have htoNat : (0 - UInt64.ofNat (n + 1)).toNat = 2 ^ 64 - (n + 1) := by
          rw [UInt64.toNat_sub, UInt64.toNat_ofNat', UInt64.toNat_zero]
          omega
        unfold Cell.signed
        rw [htoNat, if_neg (by omega), Int.negSucc_eq]
        omega

/-- Every number in a text is spelled in one of the ways and read as what the spelling stands for,
and signed numbers are read back from their decimal form. -/
theorem parse?_lexemes (text : List Char) :
    (∀ lexeme ∈ lex text, lexeme.kind = .number →
      (∃ spelling, Spells (lexeme.chars text) spelling) ∧
      ∀ spelling, Spells (lexeme.chars text) spelling →
        spelling.ReadAs (parse? (lexeme.chars text))) ∧
    ∀ n : Int, -2 ^ 63 ≤ n → n < 2 ^ 63 →
      ∃ cell : Cell, parse? (Int.repr n).toList = some (.integer cell) ∧ cell.signed = n := by
  refine ⟨?_, fun n hlow hhigh => exists_parse?_repr hlow hhigh⟩
  intro lexeme hmem hkind
  exact ⟨exists_spells_of_mem_lex hmem hkind, fun spelling hspells => hspells.readAs⟩

/-- The largest word in hexadecimal, and a number with an exponent. -/
def maskText : List Char := ['0', 'X'] ++ List.replicate 16 'f' ++ [' ', '2', 'e', '-', '3']

theorem parse?_lexemes_mask :
    (⟨.number, 0, 18⟩ : Lexeme) ∈ lex maskText ∧
    Spells (Lexeme.chars ⟨.number, 0, 18⟩ maskText) (.whole (2 ^ 64 - 1)) ∧
    (∃ cell : Cell, parse? (Lexeme.chars ⟨.number, 0, 18⟩ maskText) = some (.integer cell) ∧
      cell.signed = -1) ∧
    (⟨.number, 19, 4⟩ : Lexeme) ∈ lex maskText ∧
    Spells (Lexeme.chars ⟨.number, 19, 4⟩ maskText) .real ∧
    (∃ cell, parse? (Lexeme.chars ⟨.number, 19, 4⟩ maskText) = some (.real cell)) ∧
    ∃ cell : Cell, parse? (Int.repr (-2 ^ 63)).toList = some (.integer cell) ∧
      cell.signed = -2 ^ 63 := by
  have hlex : lex maskText = [⟨.number, 0, 18⟩, ⟨.number, 19, 4⟩] := by decide +kernel
  have hmask : (⟨.number, 0, 18⟩ : Lexeme) ∈ lex maskText := by simp [hlex]
  have hreal : (⟨.number, 19, 4⟩ : Lexeme) ∈ lex maskText := by simp [hlex]
  have hmaskSpells : Spells (Lexeme.chars ⟨.number, 0, 18⟩ maskText) (.whole (2 ^ 64 - 1)) :=
    @Spells.hexadecimal _ (List.replicate 16 'f') (.inr rfl) ⟨by decide, by simp; decide⟩
  have htwo : IsDigits 10 ['2'] := ⟨by decide, by simp; decide⟩
  have hthree : IsDigits 10 ['3'] := ⟨by decide, by simp; decide⟩
  have hrealSpells : Spells (Lexeme.chars ⟨.number, 19, 4⟩ maskText) .real :=
    .real htwo .none (.mark (.inl rfl) (.inr (.inr rfl)) hthree) (List.cons_ne_nil _ _)
  obtain ⟨hread, hsigned⟩ := parse?_lexemes maskText
  exact ⟨hmask, hmaskSpells, (hread _ hmask rfl).2 _ hmaskSpells, hreal, hrealSpells,
    (hread _ hreal rfl).2 _ hrealSpells, hsigned _ (by decide) (by decide)⟩

end Number

end VectorStack
