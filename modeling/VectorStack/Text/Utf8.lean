import VectorStack.Bytes
/-!
Text as bytes. Every byte string decodes: what is not text is replaced, each time by one
replacement character for the longest start of a character that it has. The main statement is that
encoded text decodes to itself.
-/

namespace VectorStack.Text

/-- The bytes of a text. -/
def encode (text : List Char) : Bytes := text.flatMap String.utf8EncodeChar

/-- Stands for bytes that are no character. -/
def replacement : Char := '\uFFFD'

/-- The values that may follow a leading byte of a character of three or four bytes. -/
def secondByteRange (lead : UInt8) : UInt8 × UInt8 :=
  if lead = 0xe0 then (0xa0, 0xbf)
  else if lead = 0xed then (0x80, 0x9f)
  else if lead = 0xf0 then (0x90, 0xbf)
  else if lead = 0xf4 then (0x80, 0x8f)
  else (0x80, 0xbf)

def isContinuation (byte : UInt8) : Bool := 0x80 ≤ byte && byte ≤ 0xbf

/-- Length of the longest start of a character at the front of bytes that hold no whole one. -/
def brokenLength : Bytes → Nat
  | lead :: second :: rest =>
    let (low, high) := secondByteRange lead
    if 0xe0 ≤ lead && lead ≤ 0xf4 && low ≤ second && second ≤ high then
      match rest with
      | third :: _ => if 0xf0 ≤ lead && isContinuation third then 3 else 2
      | [] => 2
    else 1
  | _ => 1

/-- The character at the front of a byte string; none takes more than four bytes. -/
def firstChar? (bytes : Bytes) : Option Char := (bytes.take 4).toByteArray.utf8DecodeChar? 0

/-- The text of a byte string, with replacements for what is not text. -/
def decodeLossy (bytes : Bytes) : List Char :=
  match bytes with
  | [] => []
  | byte :: rest =>
    match firstChar? (byte :: rest) with
    | some c => c :: decodeLossy (rest.drop (c.utf8Size - 1))
    | none => replacement :: decodeLossy (rest.drop (brokenLength (byte :: rest) - 1))
termination_by bytes.length
decreasing_by all_goals simp only [List.length_drop, List.length_cons]; omega

/-- The text whose bytes these are. -/
def decode? (bytes : Bytes) : Option (List Char) :=
  let text := decodeLossy bytes
  if encode text = bytes then some text else none

theorem firstChar?_encodeChar_append (c : Char) (rest : Bytes) :
    firstChar? (String.utf8EncodeChar c ++ rest) = some c := by
  have hlength : (String.utf8EncodeChar c).length ≤ 4 := by
    rw [String.length_utf8EncodeChar]
    exact c.utf8Size_le_four
  rw [firstChar?, List.take_append, List.take_of_length_le hlength, List.toByteArray_append]
  exact ByteArray.utf8DecodeChar?_utf8EncodeChar_append

theorem decodeLossy_encode (text : List Char) : decodeLossy (encode text) = text := by
  induction text with
  | nil => simp [encode, decodeLossy]
  | cons c rest ih =>
      have hencode : encode (c :: rest) = String.utf8EncodeChar c ++ encode rest := by
        simp [encode]
      have hlength := String.length_utf8EncodeChar c
      have hpos := c.utf8Size_pos
      obtain ⟨byte, tail, hbytes⟩ : ∃ byte tail, String.utf8EncodeChar c = byte :: tail :=
        List.exists_cons_of_length_pos (hlength ▸ hpos)
      have hfirst := firstChar?_encodeChar_append c (encode rest)
      rw [hencode, hbytes, List.cons_append, decodeLossy, ← List.cons_append, ← hbytes, hfirst]
      have htail : tail.length = c.utf8Size - 1 := by
        rw [hbytes, List.length_cons] at hlength
        omega
      simp only [← htail, List.drop_left, ih]

end VectorStack.Text
