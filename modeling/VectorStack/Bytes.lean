/-!
Little-endian byte strings and their hexadecimal text. The main statements are the two round
trips between a number and its bytes, and that 64-bit words and numbers have the same bytes.
-/

namespace VectorStack

/-- A run of bytes in memory order. -/
abbrev Bytes := List UInt8

namespace Bytes

/-- The lowest `count` bytes of a number, least significant first. -/
def ofNat : Nat → Nat → Bytes
  | 0, _ => []
  | count + 1, n => UInt8.ofNat n :: ofNat count (n / 256)

/-- The number whose bytes these are, least significant first. -/
def toNat : Bytes → Nat
  | [] => 0
  | byte :: rest => byte.toNat + 256 * toNat rest

@[simp] theorem length_ofNat (count n : Nat) : (ofNat count n).length = count := by
  induction count generalizing n with
  | zero => rfl
  | succ count ih => simp [ofNat, ih]

theorem toNat_ofNat (count n : Nat) : toNat (ofNat count n) = n % Nat.pow 256 count := by
  simp only [Nat.pow_eq]
  induction count generalizing n with
  | zero => simp [ofNat, toNat, Nat.mod_one]
  | succ count ih =>
      have hsplit : n % (256 * 256 ^ count) = n % 256 + 256 * (n / 256 % 256 ^ count) :=
        Nat.mod_mul
      rw [ofNat, toNat, ih, UInt8.toNat_ofNat', Nat.pow_succ' (m := 256), hsplit]

theorem ofNat_toNat (bytes : Bytes) : ofNat bytes.length (toNat bytes) = bytes := by
  induction bytes with
  | nil => rfl
  | cons byte rest ih =>
      have hbyte := byte.toNat_lt
      have hrest : (byte.toNat + 256 * toNat rest) / 256 = toNat rest := by omega
      simp only [List.length_cons, ofNat, toNat, hrest, ih, List.cons.injEq, and_true]
      apply UInt8.toNat_inj.1
      rw [UInt8.toNat_ofNat']
      omega

theorem toNat_lt (bytes : Bytes) : toNat bytes < Nat.pow 256 bytes.length := by
  have hmod := toNat_ofNat bytes.length (toNat bytes)
  rw [ofNat_toNat] at hmod
  rw [hmod]
  exact Nat.mod_lt _ (Nat.pow_pos (by decide))

/-- The lowest `count` bytes of a word, least significant first. -/
def ofWord : Nat → UInt64 → Bytes
  | 0, _ => []
  | count + 1, word => word.toUInt8 :: ofWord count (word / 256)

/-- The word whose lowest bytes are the first `count` of these. -/
def toWord : Nat → Bytes → UInt64
  | 0, _ | _, [] => 0
  | count + 1, byte :: rest => byte.toUInt64 + 256 * toWord count rest

theorem ofWord_eq (count : Nat) (word : UInt64) : ofWord count word = ofNat count word.toNat := by
  induction count generalizing word with
  | zero => rfl
  | succ count ih =>
      rw [ofWord, ofNat, ih, UInt64.toNat_div]
      rfl

theorem toWord_eq (count : Nat) (bytes : Bytes) :
    toWord count bytes = UInt64.ofNat (toNat (bytes.take count)) := by
  fun_induction toWord count bytes with
  | case1 => simp [toNat]
  | case2 => simp [toNat]
  | case3 count byte rest ih =>
      rw [ih, List.take_succ_cons, toNat, UInt64.ofNat_add, UInt64.ofNat_mul,
        UInt64.ofNat_uInt8ToNat]
      rfl

/-- The lower-case hexadecimal digit of a number below sixteen. -/
def hexDigit (n : Nat) : Char := (Nat.toDigits 16 n).headD '0'

/-- Two lower-case hexadecimal digits for a byte. -/
def hexByte (byte : UInt8) : String :=
  String.ofList [hexDigit (byte.toNat / 16), hexDigit (byte.toNat % 16)]

/-- A number in lower-case hexadecimal, padded with zeros to a least width. -/
def hexNat (width n : Nat) : String :=
  let digits := Nat.toDigits 16 n
  String.ofList (List.replicate (width - digits.length) '0' ++ digits)

end Bytes

end VectorStack
