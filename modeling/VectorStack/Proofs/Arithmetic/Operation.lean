import VectorStack.LaneVector.Operation
import VectorStack.Proofs.Arithmetic.Integer
/-!
Integer operations on cells and on numbers. Every operation is done on 64 bits, whatever the type of
the lanes; its result is congruent to that of the operation on the numbers that the cells stand for,
modulo the bits of any integer type.
-/

namespace VectorStack

/-- An operation on a number. Its result is then brought into the range of the type. -/
def UnaryOp.onIntegers (bits : Nat) : UnaryOp → Int → Int
  | .not, a => (~~~BitVec.ofInt bits a).toNat
  | .neg, a => -a
  | .abs, a => a.natAbs
  | .sign, a => a.sign

/-- An operation on two numbers. Its result is then brought into the range of the type. Division
truncates and the remainder has the sign of the divisor, a shift moves by the remainder of its
amount by 64, and a power has the exponent that its 64 bits stand for. -/
def BinaryOp.onIntegers (bits : Nat) : BinaryOp → Int → Int → Int
  | .and, a, b => (BitVec.ofInt bits a &&& BitVec.ofInt bits b).toNat
  | .or, a, b => (BitVec.ofInt bits a ||| BitVec.ofInt bits b).toNat
  | .xor, a, b => (BitVec.ofInt bits a ^^^ BitVec.ofInt bits b).toNat
  | .shl, a, b => a * 2 ^ (b % 64).toNat
  | .shr, a, b => a / 2 ^ (b % 64).toNat
  | .add, a, b => a + b
  | .sub, a, b => a - b
  | .mul, a, b => a * b
  | .div, a, b => if b = 0 then 0 else a.tdiv b
  | .mod, a, b => if b = 0 then 0 else a.fmod b
  | .pow, a, b =>
    let exponent := Int.bmod b (2 ^ 64)
    if 0 ≤ exponent then a ^ exponent.toNat else 1
  | .min, a, b => if a ≤ b then a else b
  | .max, a, b => if a ≤ b then b else a

/-- Operations whose result modulo some bits depends on these bits only. -/
def BinaryOp.IsModular : BinaryOp → Prop
  | .and | .or | .xor | .add | .sub | .mul => True
  | _ => False

namespace Cell

variable {bits : Nat} {first second cell : Cell} {a b n : Int}

/-- The lowest bits of a cell are those of a number. -/
def Carries (bits : Nat) (cell : Cell) (n : Int) : Prop :=
  (cell.toNat : Int) ≡ n [ZMOD (2 ^ bits : Nat)]

theorem carries_of_modEq (hbits : bits ≤ 64) (hmod : (cell.toNat : Int) ≡ n [ZMOD (2 ^ 64 : Nat)]) :
    Carries bits cell n :=
  hmod.of_dvd (Int.natCast_dvd_natCast.mpr (Nat.pow_dvd_pow 2 hbits))

theorem carries_ofInt (hbits : bits ≤ 64) (n : Int) : Carries bits (ofInt n) n :=
  carries_of_modEq hbits (ofInt_modEq n)

/-- A cell carries the number that it stands for. -/
theorem carries_integer (hbits : bits ≤ 64) (mode : Mode) (cell : Cell) :
    Carries bits cell (mode.integer cell) :=
  carries_of_modEq hbits (mode.integer_modEq cell).symm

theorem Carries.toNat_ofInt (hcarries : Carries bits cell n) :
    (BitVec.ofInt bits n).toNat = cell.toNat % 2 ^ bits := by
  rw [BitVec.toNat_ofInt, ← hcarries, ← Int.natCast_emod, Int.toNat_natCast]

theorem carries_low (bits : Nat) (cell : Cell) :
    Carries bits cell ((cell.toNat % 2 ^ bits : Nat) : Int) := by
  rw [Carries, Int.natCast_emod]
  exact (Int.mod_modEq _ _).symm

theorem carries_add (hbits : bits ≤ 64) (hfirst : Carries bits first a)
    (hsecond : Carries bits second b) : Carries bits (first + second) (a + b) := by
  have hsum :
      ((first + second).toNat : Int) ≡ first.toNat + second.toNat [ZMOD (2 ^ 64 : Nat)] := by
    rw [UInt64.toNat_add, Int.natCast_emod]
    exact Int.mod_modEq _ _
  exact Int.ModEq.trans (carries_of_modEq hbits hsum) (Int.ModEq.add hfirst hsecond)

theorem carries_mul (hbits : bits ≤ 64) (hfirst : Carries bits first a)
    (hsecond : Carries bits second b) : Carries bits (first * second) (a * b) := by
  have hproduct :
      ((first * second).toNat : Int) ≡ first.toNat * second.toNat [ZMOD (2 ^ 64 : Nat)] := by
    rw [UInt64.toNat_mul, Int.natCast_emod]
    exact Int.mod_modEq _ _
  exact Int.ModEq.trans (carries_of_modEq hbits hproduct) (Int.ModEq.mul hfirst hsecond)

/-- A difference added to what was taken away is the whole again. -/
theorem carries_sub (hbits : bits ≤ 64) (hfirst : Carries bits first a)
    (hsecond : Carries bits second b) : Carries bits (first - second) (a - b) := by
  have hdifference : Carries bits (first - second) (first - second).toNat := Int.ModEq.refl _
  have hwhole := carries_add hbits hdifference hsecond
  rw [UInt64.sub_add_cancel] at hwhole
  have hsum := Int.ModEq.trans hwhole.symm hfirst
  have hleft := Int.ModEq.sub_right b hsum
  rw [add_sub_cancel_right] at hleft
  exact hleft

end Cell

namespace Mode

variable {mode : Mode}

/-- The signed reading of a cell, whatever its mode. -/
theorem bmod_integer (mode : Mode) (cell : Cell) :
    Int.bmod (mode.integer cell) (2 ^ 64) = cell.signed := by
  rw [← Int.emod_bmod, mode.integer_modEq cell, Int.emod_bmod, Cell.signed_eq_bmod]

/-- The amount that a shift moves by. -/
theorem toNat_integer_emod (mode : Mode) (cell : Cell) :
    (mode.integer cell % 64).toNat = cell.toNat % 64 := by
  have hdvd : (64 : Int) ∣ (2 ^ 64 : Nat) := by decide
  have hmod := (mode.integer_modEq cell).of_dvd hdvd
  rw [hmod]
  rfl

theorem integer_eq_zero_iff (mode : Mode) (cell : Cell) : mode.integer cell = 0 ↔ cell = 0 := by
  have hlt := cell.toNat_lt
  rw [← UInt64.toNat_inj]
  cases mode with
  | signed =>
      change cell.signed = 0 ↔ cell.toNat = 0
      unfold Cell.signed
      omega
  | unsigned | float => exact Int.natCast_eq_zero

/-- Cells compare as the numbers they stand for. -/
theorem compare_eq (hmode : mode ≠ .float) (first second : Cell) :
    mode.compare first second = some (Ord.compare (mode.integer first) (mode.integer second)) := by
  cases mode with
  | float => exact absurd rfl hmode
  | signed => rfl
  | unsigned =>
      have hcompare : Ord.compare (first.toNat : Int) second.toNat =
          Ord.compare first.toNat second.toNat := by
        simp only [Ord.compare, compareOfLessAndEq, Int.ofNat_lt, Int.natCast_inj]
      exact congrArg some hcompare.symm

/-- The smaller cell stands for the smaller number. -/
theorem integer_min (hmode : mode ≠ .float) (bits : Nat) (first second : Cell) :
    mode.integer (mode.min first second) =
      BinaryOp.min.onIntegers bits (mode.integer first) (mode.integer second) := by
  simp only [Mode.min, mode.compare_eq hmode, BinaryOp.onIntegers, Option.some_inj,
    Int.compare_eq_gt]
  split <;> split <;> omega

/-- The larger cell stands for the larger number. -/
theorem integer_max (hmode : mode ≠ .float) (bits : Nat) (first second : Cell) :
    mode.integer (mode.max first second) =
      BinaryOp.max.onIntegers bits (mode.integer first) (mode.integer second) := by
  simp only [Mode.max, mode.compare_eq hmode, BinaryOp.onIntegers, Option.some_inj,
    Int.compare_eq_lt]
  split <;> split <;> omega

end Mode

section Operations

open Cell (Carries)

variable {mode : Mode} {bits : Nat} {first second : Cell} {a b : Int}

/-- A modular operation needs no more of its operands than their lowest bits. -/
theorem BinaryOp.IsModular.carries {op : BinaryOp} (hop : op.IsModular) (hmode : mode ≠ .float)
    (hbits : bits ≤ 64) (hfirst : Carries bits first a) (hsecond : Carries bits second b) :
    Carries bits (op.apply mode first second) (op.onIntegers bits a b) := by
  cases mode with
  | float => exact absurd rfl hmode
  | signed | unsigned =>
      cases op with
      | and =>
          have hboth : (first &&& second).toNat % 2 ^ bits =
              first.toNat % 2 ^ bits &&& second.toNat % 2 ^ bits := by
            rw [UInt64.toNat_and, Nat.and_mod_two_pow]
          rw [onIntegers, BitVec.toNat_and, hfirst.toNat_ofInt, hsecond.toNat_ofInt, ← hboth]
          exact Cell.carries_low bits (first &&& second)
      | or =>
          have hboth : (first ||| second).toNat % 2 ^ bits =
              first.toNat % 2 ^ bits ||| second.toNat % 2 ^ bits := by
            rw [UInt64.toNat_or, Nat.or_mod_two_pow]
          rw [onIntegers, BitVec.toNat_or, hfirst.toNat_ofInt, hsecond.toNat_ofInt, ← hboth]
          exact Cell.carries_low bits (first ||| second)
      | xor =>
          have hboth : (first ^^^ second).toNat % 2 ^ bits =
              first.toNat % 2 ^ bits ^^^ second.toNat % 2 ^ bits := by
            rw [UInt64.toNat_xor, Nat.xor_mod_two_pow]
          rw [onIntegers, BitVec.toNat_xor, hfirst.toNat_ofInt, hsecond.toNat_ofInt, ← hboth]
          exact Cell.carries_low bits (first ^^^ second)
      | add => exact Cell.carries_add hbits hfirst hsecond
      | sub => exact Cell.carries_sub hbits hfirst hsecond
      | mul => exact Cell.carries_mul hbits hfirst hsecond
      | _ => exact hop.elim

theorem carries_shl (hmode : mode ≠ .float) (hbits : bits ≤ 64) (first second : Cell) :
    Carries bits (mode.shl first second)
      (BinaryOp.shl.onIntegers bits (mode.integer first) (mode.integer second)) := by
  have hshl : mode.shl first second = first <<< second := by
    cases mode with
    | float => exact absurd rfl hmode
    | signed | unsigned => rfl
  have hmod : ((first <<< second).toNat : Int) ≡ first.toNat * 2 ^ (second.toNat % 64)
      [ZMOD (2 ^ 64 : Nat)] := by
    rw [UInt64.toNat_shiftLeft, Nat.shiftLeft_eq, Int.natCast_emod, Int.natCast_mul,
      Int.natCast_pow]
    exact Int.mod_modEq _ _
  rw [hshl, BinaryOp.onIntegers, mode.toNat_integer_emod]
  apply Cell.carries_of_modEq hbits
  exact hmod.trans ((mode.integer_modEq first).symm.mul_right _)

theorem carries_shr (hmode : mode ≠ .float) (hbits : bits ≤ 64) (first second : Cell) :
    Carries bits (mode.shr first second)
      (BinaryOp.shr.onIntegers bits (mode.integer first) (mode.integer second)) := by
  rw [BinaryOp.onIntegers, mode.toNat_integer_emod]
  cases mode with
  | float => exact absurd rfl hmode
  | signed =>
      have hshr : first.signed >>> (second.toNat % 64) =
          first.signed / 2 ^ (second.toNat % 64) := by
        rw [Int.shiftRight_eq_div_pow, Int.natCast_pow]
        rfl
      change Carries bits (Cell.ofInt (first.signed >>> (second.toNat % 64))) _
      rw [hshr]
      exact Cell.carries_ofInt hbits _
  | unsigned =>
      change Carries bits (first >>> second) _
      rw [Carries, UInt64.toNat_shiftRight, Nat.shiftRight_eq_div_pow, Int.natCast_ediv,
        Int.natCast_pow]
      rfl

theorem carries_div (hmode : mode ≠ .float) (hbits : bits ≤ 64) (first second : Cell) :
    Carries bits (mode.div first second)
      (BinaryOp.div.onIntegers bits (mode.integer first) (mode.integer second)) := by
  have hdiv : BinaryOp.div.onIntegers bits (mode.integer first) (mode.integer second) =
      (mode.integer first).tdiv (mode.integer second) := by
    rw [BinaryOp.onIntegers]
    split
    · next hzero => rw [hzero, Int.tdiv_zero]
    · rfl
  rw [hdiv]
  cases mode with
  | float => exact absurd rfl hmode
  | signed => exact Cell.carries_ofInt hbits _
  | unsigned =>
      change Carries bits (first / second) _
      rw [Carries, UInt64.toNat_div]
      exact Int.ModEq.refl _

/-- The remainder has the sign of the divisor, which no unsigned divisor has. -/
theorem carries_mod (hmode : mode ≠ .float) (hbits : bits ≤ 64) (first second : Cell) :
    Carries bits (mode.mod first second)
      (BinaryOp.mod.onIntegers bits (mode.integer first) (mode.integer second)) := by
  simp only [BinaryOp.onIntegers, mode.integer_eq_zero_iff]
  cases mode with
  | float => exact absurd rfl hmode
  | signed =>
      rw [Mode.mod]
      split
      · exact Int.ModEq.refl _
      · exact Cell.carries_ofInt hbits _
  | unsigned =>
      rw [Mode.mod]
      split
      · exact Int.ModEq.refl _
      · change Carries bits (first % second) ((first.toNat : Int).fmod second.toNat)
        rw [Carries, UInt64.toNat_mod, Int.fmod_eq_emod_of_nonneg _ (Int.natCast_nonneg _)]
        exact Int.ModEq.refl _

theorem carries_pow (hmode : mode ≠ .float) (hbits : bits ≤ 64) (first second : Cell) :
    Carries bits (mode.pow first second)
      (BinaryOp.pow.onIntegers bits (mode.integer first) (mode.integer second)) := by
  have hpow : mode.pow first second = first.power second.signed.toNat := by
    cases mode with
    | float => exact absurd rfl hmode
    | signed | unsigned => rfl
  have hmod : ((first.power second.signed.toNat).toNat : Int) ≡
      first.toNat ^ second.signed.toNat [ZMOD (2 ^ 64 : Nat)] := by
    rw [Cell.toNat_power, Int.natCast_emod, Nat.pow_eq, Int.natCast_pow]
    exact Int.mod_modEq _ _
  simp only [BinaryOp.onIntegers, mode.bmod_integer]
  rw [hpow]
  split
  · apply Cell.carries_of_modEq hbits
    exact hmod.trans ((mode.integer_modEq first).symm.pow _)
  · -- the exponent that the power is computed with is zero
    have hzero : second.signed.toNat = 0 := Int.toNat_of_nonpos (by omega)
    rw [hzero, Cell.power]
    exact Int.ModEq.refl _

/-- The result of an operation on cells carries that of the operation on the numbers that they
stand for. -/
theorem BinaryOp.carries_apply (op : BinaryOp) (hmode : mode ≠ .float) (hbits : bits ≤ 64)
    (first second : Cell) :
    Carries bits (op.apply mode first second)
      (op.onIntegers bits (mode.integer first) (mode.integer second)) := by
  have hfirst := Cell.carries_integer hbits mode first
  have hsecond := Cell.carries_integer hbits mode second
  cases op with
  | and | or | xor | add | sub | mul => exact IsModular.carries trivial hmode hbits hfirst hsecond
  | shl => exact carries_shl hmode hbits first second
  | shr => exact carries_shr hmode hbits first second
  | div => exact carries_div hmode hbits first second
  | mod => exact carries_mod hmode hbits first second
  | pow => exact carries_pow hmode hbits first second
  | min =>
      rw [← Mode.integer_min hmode bits]
      exact Cell.carries_integer hbits mode _
  | max =>
      rw [← Mode.integer_max hmode bits]
      exact Cell.carries_integer hbits mode _

theorem carries_not (hmode : mode ≠ .float) (hbits : bits ≤ 64) (cell : Cell) :
    Carries bits (mode.not cell) (UnaryOp.not.onIntegers bits (mode.integer cell)) := by
  have hnot : mode.not cell = 0 - cell - 1 := by
    cases mode with
    | float => exact absurd rfl hmode
    | signed | unsigned => exact (UInt64.not_eq_neg_sub cell).trans (by rw [UInt64.zero_sub])
  have hcell := Cell.carries_integer hbits mode cell
  have hzero : Carries bits 0 0 := Int.ModEq.refl _
  have hone : Carries bits 1 1 := Int.ModEq.refl _
  have hcells := Cell.carries_sub hbits (Cell.carries_sub hbits hzero hcell) hone
  have hbitwise : ((~~~BitVec.ofInt bits (mode.integer cell)).toNat : Int) ≡
      0 - mode.integer cell - 1 [ZMOD (2 ^ bits : Nat)] := by
    have hlt := (BitVec.ofInt bits (mode.integer cell)).isLt
    have hlow : ((BitVec.ofInt bits (mode.integer cell)).toNat : Int) ≡ mode.integer cell
        [ZMOD (2 ^ bits : Nat)] := by
      rw [hcell.toNat_ofInt]
      exact Int.ModEq.trans (Cell.carries_low bits cell).symm hcell
    have hsplit : ((~~~BitVec.ofInt bits (mode.integer cell)).toNat : Int) =
        (2 ^ bits : Nat) - (BitVec.ofInt bits (mode.integer cell)).toNat - 1 := by
      rw [BitVec.toNat_not]
      omega
    have hwhole : ((2 ^ bits : Nat) : Int) ≡ 0 [ZMOD (2 ^ bits : Nat)] := Int.emod_self
    rw [hsplit]
    exact (hwhole.sub hlow).sub_right 1
  rw [hnot]
  exact Int.ModEq.trans hcells hbitwise.symm

theorem carries_neg (hmode : mode ≠ .float) (hbits : bits ≤ 64) (cell : Cell) :
    Carries bits (mode.neg cell) (UnaryOp.neg.onIntegers bits (mode.integer cell)) := by
  have hneg : mode.neg cell = 0 - cell := by
    cases mode with
    | float => exact absurd rfl hmode
    | signed | unsigned => rfl
  have hzero : Carries bits 0 0 := Int.ModEq.refl _
  have hcells := Cell.carries_sub hbits hzero (Cell.carries_integer hbits mode cell)
  rw [Int.zero_sub] at hcells
  rw [hneg]
  exact hcells

theorem carries_abs (hmode : mode ≠ .float) (hbits : bits ≤ 64) (cell : Cell) :
    Carries bits (mode.abs cell) (UnaryOp.abs.onIntegers bits (mode.integer cell)) := by
  cases mode with
  | float => exact absurd rfl hmode
  | signed => exact Cell.carries_ofInt hbits _
  | unsigned => exact Int.ModEq.refl _

theorem carries_sign (hmode : mode ≠ .float) (hbits : bits ≤ 64) (cell : Cell) :
    Carries bits (mode.sign cell) (UnaryOp.sign.onIntegers bits (mode.integer cell)) := by
  have hzero : mode.integer 0 = 0 := (mode.integer_eq_zero_iff 0).mpr rfl
  have hofInt : ∀ n, mode.ofInt n = Cell.ofInt n := by
    cases mode with
    | float => exact absurd rfl hmode
    | signed | unsigned => exact fun _ => rfl
  rw [Mode.sign, mode.compare_eq hmode, hzero, UnaryOp.onIntegers]
  rcases lt_trichotomy (mode.integer cell) 0 with hlt | heq | hgt
  · rw [Int.compare_eq_lt.mpr hlt, Int.sign_eq_neg_one_of_neg hlt]
    change Carries bits (mode.ofInt (-1)) (-1)
    rw [hofInt]
    exact Cell.carries_ofInt hbits (-1)
  · rw [Int.compare_eq_eq.mpr heq, heq]
    exact Int.ModEq.refl _
  · rw [Int.compare_eq_gt.mpr hgt, Int.sign_eq_one_of_pos hgt]
    change Carries bits (mode.ofInt 1) 1
    rw [hofInt]
    exact Cell.carries_ofInt hbits 1

/-- The same for operations on one value. -/
theorem UnaryOp.carries_apply (op : UnaryOp) (hmode : mode ≠ .float) (hbits : bits ≤ 64)
    (cell : Cell) : Carries bits (op.apply mode cell) (op.onIntegers bits (mode.integer cell)) := by
  cases op with
  | not => exact carries_not hmode hbits cell
  | neg => exact carries_neg hmode hbits cell
  | abs => exact carries_abs hmode hbits cell
  | sign => exact carries_sign hmode hbits cell

end Operations

end VectorStack
