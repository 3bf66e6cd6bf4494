import VectorStack.Proofs.Token.Literal
import VectorStack.Text.Utf8
/-!
Cutting a text into lexemes byte by byte. No test of the lexer passes a byte that is not ASCII,
except the ones that run up to the end of a line or of a string, so looking at single bytes of a
text leads to the same lexemes as looking at its characters, even where a backslash in a string
steps over the first byte of a longer character only.
-/

namespace VectorStack

namespace Lexer

/-- The character with the code of a byte. -/
def ofByte (byte : UInt8) : Char := Char.ofNat byte.toNat

/-- The bytes of a text, each as the character with its code. -/
def codes (text : List Char) : List Char := (Text.encode text).map ofByte

/-- Number of bytes of a text. -/
def width (text : List Char) : Nat := (Text.encode text).length

/-- The character is a single byte. -/
def isAscii (c : Char) : Bool := c.toNat < 0x80

/-- Number of bytes of the character that a byte is the first one of. -/
def leadLength (code : Char) : Nat :=
  if code.toNat < 0x80 then 1 else if code.toNat < 0xe0 then 2 else if code.toNat < 0xf0 then 3
  else 4

/-- The lexeme that starts with a byte and goes on in the bytes behind it. A character that is not
ASCII is a lexeme with all of its bytes. -/
def scanByte (first : Char) (rest : List Char) : Scan :=
  if isAscii first then scan first rest else ⟨.invalid, leadLength first - 1, 0⟩

/-- The lexemes of bytes that start at a given place; places count bytes. -/
def lexBytesFrom (place : Nat) (bytes : List Char) : List Lexeme :=
  match _unblanked : skipBlanks place bytes with
  | (_, []) => []
  | (start, first :: rest) =>
    let found := scanByte first rest
    ⟨found.kind, start, found.more + 1⟩ ::
      lexBytesFrom (start + 1 + found.more + found.skipped)
        (rest.drop (found.more + found.skipped))
termination_by bytes.length
decreasing_by
  have hends := skipBlanks_end place bytes
  have hstarts := le_skipBlanks place bytes
  rw [_unblanked] at hends hstarts
  simp only [List.length_drop, List.length_cons] at hends hstarts ⊢
  omega

/-- The lexemes of the bytes of a text. -/
def lexBytes (bytes : Bytes) : List Lexeme := lexBytesFrom 0 (bytes.map ofByte)

section Encoding

variable {c : Char} {text more : List Char}

theorem codes_append (text more : List Char) : codes (text ++ more) = codes text ++ codes more := by
  simp [codes, Text.encode]

theorem width_append (text more : List Char) : width (text ++ more) = width text + width more := by
  simp [width, Text.encode]

theorem length_codes (text : List Char) : (codes text).length = width text := List.length_map _

theorem ne_of_not_isAscii (hforeign : isAscii c = false) {other : Char}
    (hother : isAscii other = true) : c ≠ other := by
  rintro rfl
  rw [hother] at hforeign
  cases hforeign

theorem ofByte_eq_of_isAscii (hascii : isAscii c = true) : ofByte (UInt8.ofNat c.toNat) = c := by
  have hlt : c.toNat < 0x80 := of_decide_eq_true hascii
  rw [ofByte, UInt8.toNat_ofNat', Nat.mod_eq_of_lt (by omega), Char.ofNat_toNat]

theorem encode_cons_of_isAscii (hascii : isAscii c = true) (text : List Char) :
    Text.encode (c :: text) = UInt8.ofNat c.toNat :: Text.encode text := by
  have hlt : c.toNat < 0x80 := of_decide_eq_true hascii
  have hchar : String.utf8EncodeChar c = [UInt8.ofNat c.toNat] := by
    unfold String.utf8EncodeChar
    exact if_pos (by change c.toNat ≤ 127; omega)
  rw [Text.encode, List.flatMap_cons, hchar]
  rfl

theorem codes_cons_of_isAscii (hascii : isAscii c = true) (text : List Char) :
    codes (c :: text) = c :: codes text := by
  rw [codes, encode_cons_of_isAscii hascii, List.map_cons, ofByte_eq_of_isAscii hascii]
  rfl

theorem width_cons_of_isAscii (hascii : isAscii c = true) (text : List Char) :
    width (c :: text) = width text + 1 := by
  rw [width, encode_cons_of_isAscii hascii]
  rfl

theorem toNat_ofByte (byte : UInt8) : (ofByte byte).toNat = byte.toNat := by
  have hlt := byte.toNat_lt
  have hvalid : byte.toNat.isValidChar := .inl (by omega)
  rw [ofByte, Char.ofNat, dif_pos hvalid]
  rfl

theorem isAscii_ofByte_ofNat {code : Nat} (hcode : 0x80 ≤ code % 2 ^ 8) :
    isAscii (ofByte (UInt8.ofNat code)) = false := by
  rw [isAscii, toNat_ofByte, UInt8.toNat_ofNat']
  exact decide_eq_false (Nat.not_lt_of_le hcode)

/-- A character that is not ASCII has no byte that is, and its first byte tells their number. -/
theorem exists_utf8EncodeChar (hforeign : isAscii c = false) :
    ∃ lead tail, String.utf8EncodeChar c = lead :: tail ∧ isAscii (ofByte lead) = false ∧
      (∀ byte ∈ tail, isAscii (ofByte byte) = false) ∧
      leadLength (ofByte lead) = tail.length + 1 := by
  have hge : ¬ c.val.toNat ≤ 127 := fun hle => by
    have hge := Nat.le_of_not_lt (of_decide_eq_false hforeign)
    have hle : c.toNat ≤ 127 := hle
    omega
  unfold String.utf8EncodeChar
  dsimp only
  rw [if_neg hge]
  split
  · refine ⟨_, _, rfl, isAscii_ofByte_ofNat (by omega), ?_, ?_⟩
    · exact List.forall_mem_cons.mpr ⟨isAscii_ofByte_ofNat (by omega), nofun⟩
    · rw [leadLength, toNat_ofByte, UInt8.toNat_ofNat', if_neg (by omega), if_pos (by omega)]
      rfl
  · split
    · refine ⟨_, _, rfl, isAscii_ofByte_ofNat (by omega), ?_, ?_⟩
      · exact List.forall_mem_cons.mpr ⟨isAscii_ofByte_ofNat (by omega),
          List.forall_mem_cons.mpr ⟨isAscii_ofByte_ofNat (by omega), nofun⟩⟩
      · rw [leadLength, toNat_ofByte, UInt8.toNat_ofNat', if_neg (by omega), if_neg (by omega),
          if_pos (by omega)]
        rfl
    · refine ⟨_, _, rfl, isAscii_ofByte_ofNat (by omega), ?_, ?_⟩
      · exact List.forall_mem_cons.mpr ⟨isAscii_ofByte_ofNat (by omega),
          List.forall_mem_cons.mpr ⟨isAscii_ofByte_ofNat (by omega),
            List.forall_mem_cons.mpr ⟨isAscii_ofByte_ofNat (by omega), nofun⟩⟩⟩
      · rw [leadLength, toNat_ofByte, UInt8.toNat_ofNat', if_neg (by omega), if_neg (by omega),
          if_neg (by omega)]
        rfl

/-- The bytes of a character that is not ASCII come before those of what follows. -/
theorem exists_codes_cons (hforeign : isAscii c = false) :
    ∃ lead tail, (∀ text, codes (c :: text) = lead :: (tail ++ codes text)) ∧
      isAscii lead = false ∧ (∀ code ∈ tail, isAscii code = false) ∧
      width [c] = tail.length + 1 ∧ leadLength lead = width [c] := by
  obtain ⟨lead, tail, hchar, hlead, htail, hlength⟩ := exists_utf8EncodeChar hforeign
  have hwidth : width [c] = (tail.map ofByte).length + 1 := by
    simp [width, Text.encode, hchar]
  refine ⟨ofByte lead, tail.map ofByte, fun text => ?_, hlead, ?_, hwidth, ?_⟩
  · rw [codes, Text.encode, List.flatMap_cons, hchar, List.map_append]
    rfl
  · intro code hmem
    obtain ⟨byte, hbyte, rfl⟩ := List.mem_map.mp hmem
    exact htail byte hbyte
  · rw [hlength, hwidth, List.length_map]

theorem width_nil : width [] = 0 := rfl

theorem width_cons (c : Char) (text : List Char) : width (c :: text) = width [c] + width text :=
  width_append [c] text

/-- ASCII characters are their own codes. -/
theorem codes_eq_self (htext : ∀ c ∈ text, isAscii c = true) : codes text = text := by
  induction text with
  | nil => rfl
  | cons c text ih =>
      obtain ⟨hc, htext⟩ := List.forall_mem_cons.mp htext
      rw [codes_cons_of_isAscii hc, ih htext]

theorem width_eq_length (htext : ∀ c ∈ text, isAscii c = true) : width text = text.length := by
  rw [← length_codes, codes_eq_self htext]

end Encoding

section Alike

/-- Texts that are the same up to the end of both, or up to a character that is not ASCII. -/
inductive Alike : List Char → List Char → Prop
  | nil : Alike [] []
  | ascii {c : Char} {first second : List Char} (hc : isAscii c = true)
      (hrest : Alike first second) : Alike (c :: first) (c :: second)
  | foreign {c d : Char} {first second : List Char} (hc : isAscii c = false)
      (hd : isAscii d = false) : Alike (c :: first) (d :: second)

variable {first second rest : List Char} {c : Char} {test : Char → Bool}

theorem Alike.symm (halike : Alike first second) : Alike second first := by
  induction halike with
  | nil => exact .nil
  | ascii hc _ ih => exact .ascii hc ih
  | foreign hc hd => exact .foreign hd hc

/-- The bytes of a text are like the text. -/
theorem alike_codes (text : List Char) : Alike text (codes text) := by
  induction text with
  | nil => exact .nil
  | cons c text ih =>
      cases hascii : isAscii c with
      | true =>
          rw [codes_cons_of_isAscii hascii]
          exact .ascii hascii ih
      | false =>
          obtain ⟨lead, tail, hcodes, hlead, -⟩ := exists_codes_cons hascii
          rw [hcodes]
          exact .foreign hascii hlead

theorem Alike.exists_cons (hc : isAscii c = true) (halike : Alike (c :: rest) second) :
    ∃ other, second = c :: other ∧ Alike rest other := by
  cases halike with
  | ascii _ hrest => exact ⟨_, rfl, hrest⟩
  | foreign hforeign => rw [hc] at hforeign; cases hforeign

theorem Alike.exists_append (front : List Char) (hfront : ∀ c ∈ front, isAscii c = true)
    (halike : Alike (front ++ rest) second) :
    ∃ other, second = front ++ other ∧ Alike rest other := by
  induction front generalizing second with
  | nil => exact ⟨second, rfl, halike⟩
  | cons c front ih =>
      obtain ⟨hc, hfront⟩ := List.forall_mem_cons.mp hfront
      obtain ⟨next, rfl, hnext⟩ := halike.exists_cons hc
      obtain ⟨other, rfl, hother⟩ := ih hfront hnext
      exact ⟨other, rfl, hother⟩

/-- Texts that go on alike behind `length` characters, which are ASCII and end no line. -/
def Shared (length : Nat) (first second : List Char) : Prop :=
  ∃ front a b, first = front ++ a ∧ second = front ++ b ∧ front.length = length ∧
    (∀ c ∈ front, isAscii c = true ∧ c ≠ '\n') ∧ Alike a b

theorem Alike.shared (halike : Alike first second) : Shared 0 first second :=
  ⟨[], first, second, rfl, rfl, rfl, nofun, halike⟩

theorem Shared.cons {length : Nat} (hc : isAscii c = true) (hline : c ≠ '\n')
    (hshared : Shared length first second) : Shared (length + 1) (c :: first) (c :: second) := by
  obtain ⟨front, a, b, rfl, rfl, rfl, hfront, halike⟩ := hshared
  exact ⟨c :: front, a, b, rfl, rfl, rfl, List.forall_mem_cons.mpr ⟨⟨hc, hline⟩, hfront⟩, halike⟩

theorem Shared.alike_drop {length : Nat} (hshared : Shared length first second) :
    Alike (first.drop length) (second.drop length) := by
  obtain ⟨front, a, b, rfl, rfl, rfl, -, halike⟩ := hshared
  rw [List.drop_left, List.drop_left]
  exact halike

theorem Shared.add {length more : Nat} (hshared : Shared length first second)
    (hmore : Shared more (first.drop length) (second.drop length)) :
    Shared (length + more) first second := by
  obtain ⟨front, a, b, rfl, rfl, rfl, hfront, -⟩ := hshared
  rw [List.drop_left, List.drop_left] at hmore
  obtain ⟨next, a, b, rfl, rfl, rfl, hnext, halike⟩ := hmore
  refine ⟨front ++ next, a, b, by simp, by simp, by simp, ?_, halike⟩
  intro c hmem
  exact (List.mem_append.mp hmem).elim (hfront c) (hnext c)

/-- A test that only ASCII characters within a line pass. -/
def Picky (test : Char → Bool) : Prop := ∀ c, test c = true → isAscii c = true ∧ c ≠ '\n'

theorem Picky.eq_false (hpicky : Picky test) (hc : isAscii c = false) : test c = false := by
  cases hpass : test c with
  | false => rfl
  | true => exact absurd (hpicky c hpass).1 (by simp [hc])

/-- What can be told of a text from its first ASCII characters, and how far it reaches. -/
def Local (length : List Char → Nat) : Prop :=
  ∀ first second, Alike first second →
    length first = length second ∧ Shared (length first) first second

theorem local_count (hpicky : Picky test) : Local (count test) := by
  intro first second halike
  induction halike with
  | nil => exact ⟨rfl, Alike.nil.shared⟩
  | @ascii c first second hc hrest ih =>
      obtain ⟨hcount, hshared⟩ := ih
      simp only [count, List.takeWhile_cons] at hcount hshared ⊢
      cases hpass : test c with
      | false => exact ⟨rfl, (Alike.ascii hc hrest).shared⟩
      | true =>
          refine ⟨congrArg (· + 1) hcount, ?_⟩
          exact hshared.cons hc (hpicky c hpass).2
  | foreign hc hd =>
      simp only [count, List.takeWhile_cons, hpicky.eq_false hc, hpicky.eq_false hd]
      exact ⟨rfl, (Alike.foreign hc hd).shared⟩

theorem Local.then {length more : List Char → Nat} (hlength : Local length) (hmore : Local more) :
    Local fun text => length text + more (text.drop (length text)) := by
  intro first second halike
  obtain ⟨heq, hshared⟩ := hlength first second halike
  obtain ⟨heq', hshared'⟩ := hmore _ _ hshared.alike_drop
  refine ⟨?_, hshared.add hshared'⟩
  dsimp only
  rw [heq', heq]

theorem Alike.head?_test (hpicky : Picky test) (halike : Alike first second) :
    (first.head?.map test).getD false = (second.head?.map test).getD false := by
  cases halike with
  | nil => rfl
  | ascii => rfl
  | foreign hc hd =>
      change test _ = test _
      rw [hpicky.eq_false hc, hpicky.eq_false hd]

theorem Alike.head?_eq_some_iff (hc : isAscii c = true) (halike : Alike first second) :
    first.head? = some c ↔ second.head? = some c := by
  cases halike with
  | nil => rfl
  | ascii => rfl
  | foreign hd he => simp [ne_of_not_isAscii hd hc, ne_of_not_isAscii he hc]

theorem Alike.shared_head? (halike : Alike first second) (hc : isAscii c = true) (hline : c ≠ '\n')
    (hhead : first.head? = some c) : Shared 1 first second := by
  obtain ⟨rest, rfl⟩ := List.head?_eq_some_iff.mp hhead
  obtain ⟨other, rfl, hother⟩ := halike.exists_cons hc
  exact hother.shared.cons hc hline

theorem picky_of_bounds (low high : Char) (hlow : 10 < low.toNat) (hhigh : high.toNat < 0x80)
    (hbounds : ∀ c, test c = true → low.val ≤ c.val ∧ c.val ≤ high.val) : Picky test := by
  intro c hpass
  obtain ⟨habove, hbelow⟩ := hbounds c hpass
  have hmore : low.toNat ≤ c.toNat := UInt32.le_iff_toNat_le.mp habove
  have hless : c.toNat ≤ high.toNat := UInt32.le_iff_toNat_le.mp hbelow
  refine ⟨decide_eq_true (Nat.lt_of_le_of_lt hless hhigh), ?_⟩
  rintro rfl
  exact absurd (Nat.lt_of_lt_of_le hlow hmore) (by decide)

theorem picky_range (low high : Char) (hlow : 10 < low.toNat) (hhigh : high.toNat < 0x80) :
    Picky fun c => low.val ≤ c.val && c.val ≤ high.val := by
  refine picky_of_bounds low high hlow hhigh fun c hpass => ?_
  obtain ⟨habove, hbelow⟩ := Bool.and_eq_true_iff.mp hpass
  exact ⟨of_decide_eq_true habove, of_decide_eq_true hbelow⟩

theorem picky_beq {mark : Char} (hascii : isAscii mark = true) (hline : mark ≠ '\n') :
    Picky (· == mark) := by
  intro c hpass
  rw [beq_iff_eq.mp hpass]
  exact ⟨hascii, hline⟩

theorem Picky.or {other : Char → Bool} (hpicky : Picky test) (hother : Picky other) :
    Picky fun c => test c || other c :=
  fun c hpass => (Bool.or_eq_true_iff.mp hpass).elim (hpicky c) (hother c)

theorem picky_isDigit : Picky Char.isDigit :=
  picky_range '0' '9' (by decide) (by decide)

theorem picky_isAlpha : Picky Char.isAlpha :=
  (picky_of_bounds 'A' 'Z' (by decide) (by decide) fun _ => of_decide_eq_true).or
    (picky_range 'a' 'z' (by decide) (by decide))

theorem picky_isWordStart : Picky isWordStart :=
  picky_isAlpha.or (picky_beq (by decide) (by decide))

theorem picky_isWordChar : Picky isWordChar :=
  ((picky_isAlpha.or picky_isDigit).or (picky_beq (by decide) (by decide))).or
    (picky_beq (by decide) (by decide))

theorem picky_isHexDigit : Picky isHexDigit :=
  (picky_isDigit.or (picky_range 'a' 'f' (by decide) (by decide))).or
    (picky_range 'A' 'F' (by decide) (by decide))

theorem picky_isBinaryDigit : Picky isBinaryDigit :=
  (picky_beq (by decide) (by decide)).or (picky_beq (by decide) (by decide))

theorem fractionLength_of_ne (hdot : c ≠ '.') (rest : List Char) :
    fractionLength (c :: rest) = 0 := by
  rw [fractionLength]
  rintro _ _ ⟨⟩
  exact hdot rfl

theorem local_fractionLength : Local fractionLength := by
  intro first second halike
  cases halike with
  | nil => exact ⟨rfl, Alike.nil.shared⟩
  | foreign hc hd =>
      rw [fractionLength_of_ne (ne_of_not_isAscii hc (by decide)),
        fractionLength_of_ne (ne_of_not_isAscii hd (by decide))]
      exact ⟨rfl, (Alike.foreign hc hd).shared⟩
  | @ascii c first second hc hrest =>
      by_cases hdot : c = '.'
      · subst hdot
        cases hrest with
        | nil => exact ⟨rfl, (Alike.ascii hc .nil).shared⟩
        | foreign hd he =>
            simp only [fractionLength, picky_isDigit.eq_false hd, picky_isDigit.eq_false he]
            exact ⟨rfl, (Alike.ascii hc (.foreign hd he)).shared⟩
        | @ascii digit first second hd hrest =>
            obtain ⟨heq, hshared⟩ := local_count picky_isDigit first second hrest
            simp only [fractionLength]
            split
            · next hdigit =>
                refine ⟨by rw [heq], ?_⟩
                rw [Nat.add_comm]
                exact (hshared.cons hd (picky_isDigit _ hdigit).2).cons hc (by decide)
            · exact ⟨rfl, (Alike.ascii hc (.ascii hd hrest)).shared⟩
      · rw [fractionLength_of_ne hdot, fractionLength_of_ne hdot]
        exact ⟨rfl, (Alike.ascii hc hrest).shared⟩

/-- Length of a sign, if there is one. -/
def signLength (text : List Char) : Nat :=
  if text.head? == some '+' || text.head? == some '-' then 1 else 0

theorem local_signLength : Local signLength := by
  intro first second halike
  have hplus : first.head? = some '+' ↔ second.head? = some '+' :=
    halike.head?_eq_some_iff (by decide)
  have hminus : first.head? = some '-' ↔ second.head? = some '-' :=
    halike.head?_eq_some_iff (by decide)
  simp only [signLength, Bool.or_eq_true, beq_iff_eq, hplus, hminus]
  split
  · next hsign =>
      rcases hsign with hsign | hsign
      · exact ⟨trivial, halike.shared_head? (by decide) (by decide) (hplus.mpr hsign)⟩
      · exact ⟨trivial, halike.shared_head? (by decide) (by decide) (hminus.mpr hsign)⟩
  · exact ⟨trivial, halike.shared⟩

theorem exponentLength_cons (mark : Char) (rest : List Char) :
    exponentLength (mark :: rest) =
      if mark == 'e' || mark == 'E' then
        if count Char.isDigit (rest.drop (signLength rest)) = 0 then 0
        else 1 + signLength rest + count Char.isDigit (rest.drop (signLength rest))
      else 0 := rfl

theorem local_exponentLength : Local exponentLength := by
  intro first second halike
  cases halike with
  | nil => exact ⟨rfl, Alike.nil.shared⟩
  | foreign hc hd =>
      have hmark : ∀ {d : Char}, isAscii d = false → (d == 'e' || d == 'E') = false := by
        intro d hd
        simp [ne_of_not_isAscii hd (by decide : isAscii 'e' = true),
          ne_of_not_isAscii hd (by decide : isAscii 'E' = true)]
      rw [exponentLength_cons, exponentLength_cons, hmark hc, hmark hd]
      exact ⟨rfl, (Alike.foreign hc hd).shared⟩
  | @ascii mark first second hc hrest =>
      obtain ⟨hsign, hshared⟩ := local_signLength first second hrest
      obtain ⟨hdigits, hshared'⟩ :=
        local_count picky_isDigit _ _ hshared.alike_drop
      rw [exponentLength_cons, exponentLength_cons, ← hsign, ← hdigits]
      refine ⟨rfl, ?_⟩
      split
      · next hmark =>
          split
          · exact (Alike.ascii hc hrest).shared
          · rw [Nat.add_assoc, Nat.add_comm 1]
            refine (hshared.add hshared').cons hc ?_
            rintro rfl
            cases hmark
      · exact (Alike.ascii hc hrest).shared

/-- Letters that mark a hexadecimal or a binary number. -/
def marks : List Char := ['x', 'X', 'b', 'B']

theorem of_mem_marks {mark : Char} (hmark : mark ∈ marks) : isAscii mark = true ∧ mark ≠ '\n' := by
  simp only [marks, List.mem_cons, List.not_mem_nil, or_false] at hmark
  rcases hmark with rfl | rfl | rfl | rfl <;> decide

/-- The text starts like a hexadecimal or a binary number. -/
def IsMarked (text : List Char) : Prop := ∃ mark ∈ marks, ∃ rest, text = '0' :: mark :: rest

/-- Both texts start with the mark where one of them does. -/
theorem Alike.exists_marked {mark : Char} (hmark : mark ∈ marks)
    (halike : Alike ('0' :: mark :: rest) second) :
    ∃ last, second = '0' :: mark :: last ∧ Alike rest last :=
  halike.exists_append ['0', mark]
    (List.forall_mem_cons.mpr ⟨by decide, List.forall_mem_singleton.mpr (of_mem_marks hmark).1⟩)

theorem Alike.isMarked (halike : Alike first second) (hmarked : IsMarked first) :
    IsMarked second := by
  obtain ⟨mark, hmark, rest, rfl⟩ := hmarked
  obtain ⟨last, rfl, -⟩ := halike.exists_marked hmark
  exact ⟨mark, hmark, last, rfl⟩

theorem numberLength_of_not_isMarked {text : List Char} (hmarked : ¬ IsMarked text) :
    numberLength text = (true,
      count Char.isDigit text + fractionLength (text.drop (count Char.isDigit text)) +
        exponentLength (text.drop (count Char.isDigit text +
          fractionLength (text.drop (count Char.isDigit text))))) := by
  rw [numberLength]
  all_goals
    rintro rest rfl
    exact hmarked ⟨_, by simp [marks], rest, rfl⟩

/-- What is taken for a number, and its length, can be told from the first ASCII characters. -/
theorem Alike.numberLength (halike : Alike first second) :
    numberLength first = Lexer.numberLength second ∧
      Shared (Lexer.numberLength first).2 first second := by
  by_cases hmarked : IsMarked first
  · obtain ⟨mark, hmark, rest, rfl⟩ := hmarked
    obtain ⟨last, rfl, hlast⟩ := halike.exists_marked hmark
    obtain ⟨hascii, hline⟩ := of_mem_marks hmark
    have hlonger : ∀ {length}, Shared length rest last →
        Shared (2 + length) ('0' :: mark :: rest) ('0' :: mark :: last) := by
      intro length hshared
      rw [Nat.add_comm]
      exact (hshared.cons hascii hline).cons (by decide) (by decide)
    obtain ⟨hhex, hhexShared⟩ := local_count picky_isHexDigit _ _ hlast
    obtain ⟨hbinary, hbinaryShared⟩ := local_count picky_isBinaryDigit _ _ hlast
    simp only [marks, List.mem_cons, List.not_mem_nil, or_false] at hmark
    rcases hmark with rfl | rfl | rfl | rfl
    · exact ⟨by simp only [Lexer.numberLength, hhex], hlonger hhexShared⟩
    · exact ⟨by simp only [Lexer.numberLength, hhex], hlonger hhexShared⟩
    · exact ⟨by simp only [Lexer.numberLength, hbinary], hlonger hbinaryShared⟩
    · exact ⟨by simp only [Lexer.numberLength, hbinary], hlonger hbinaryShared⟩
  · have hdecimal :=
      ((local_count picky_isDigit).then local_fractionLength).then local_exponentLength
    obtain ⟨heq, hshared⟩ := hdecimal first second halike
    rw [numberLength_of_not_isMarked hmarked,
      numberLength_of_not_isMarked (mt halike.symm.isMarked hmarked)]
    exact ⟨congrArg (Prod.mk true) heq, hshared⟩

theorem Alike.scanNumber (halike : Alike first second) :
    scanNumber first = Lexer.scanNumber second ∧
      Shared (Lexer.scanNumber first).2 first second := by
  obtain ⟨hnumber, hshared⟩ := halike.numberLength
  obtain ⟨hglued, hshared'⟩ := local_count picky_isWordChar _ _ hshared.alike_drop
  rw [Lexer.scanNumber, Lexer.scanNumber, ← hnumber]
  dsimp only
  rw [← hglued]
  exact ⟨rfl, hshared.add hshared'⟩

theorem Shared.tail {length : Nat} (hshared : Shared length (c :: first) (c :: second))
    (halike : Alike first second) : Shared (length - 1) first second := by
  obtain ⟨front, a, b, hfirst, hsecond, rfl, hfront, hrest⟩ := hshared
  cases front with
  | nil => exact halike.shared
  | cons d front =>
      cases hfirst
      cases hsecond
      exact ⟨front, a, b, rfl, rfl, rfl, (List.forall_mem_cons.mp hfront).2, hrest⟩

/-- Where one of the texts starts with two dots, the other one does too. -/
theorem Alike.take_two (halike : Alike first second) (hdots : first.take 2 = ['.', '.']) :
    second.take 2 = ['.', '.'] ∧ Shared 2 first second := by
  obtain ⟨rest, rfl⟩ : ∃ rest, first = '.' :: '.' :: rest :=
    ⟨first.drop 2, (hdots ▸ List.take_append_drop 2 first).symm⟩
  obtain ⟨last, rfl, hlast⟩ := halike.exists_append ['.', '.'] (List.all_eq_true.mp rfl)
  exact ⟨rfl, (hlast.shared.cons (by decide) (by decide)).cons (by decide) (by decide)⟩

theorem isLabelEnd_of_ne (hcolon : c ≠ ':') (rest : List Char) :
    isLabelEnd (c :: rest) = false := by
  rw [isLabelEnd]
  · rintro _ _ ⟨⟩
    exact hcolon rfl
  · rintro ⟨⟩
    exact hcolon rfl

theorem exists_of_isLabelEnd {text : List Char} (hend : isLabelEnd text = true) :
    ∃ rest, text = ':' :: rest := by
  cases text with
  | nil => cases hend
  | cons c rest =>
      by_cases hcolon : c = ':'
      · exact ⟨rest, by rw [hcolon]⟩
      · rw [isLabelEnd_of_ne hcolon] at hend
        cases hend

theorem Alike.isLabelEnd (halike : Alike first second) :
    isLabelEnd first = Lexer.isLabelEnd second := by
  have hnever : ∀ {c d : Char}, isAscii c = true → isAscii d = false → (d == c) = false :=
    fun hc hd => beq_eq_false_iff_ne.mpr (ne_of_not_isAscii hd hc)
  cases halike with
  | nil => rfl
  | foreign hc hd =>
      rw [isLabelEnd_of_ne (ne_of_not_isAscii hc (by decide)),
        isLabelEnd_of_ne (ne_of_not_isAscii hd (by decide))]
  | @ascii c first second hc hrest =>
      by_cases hcolon : c = ':'
      · subst hcolon
        cases hrest with
        | nil => rfl
        | ascii => rfl
        | foreign hd he =>
            simp only [Lexer.isLabelEnd, hnever (by decide : isAscii ' ' = true),
              hnever (by decide : isAscii '\t' = true), hnever (by decide : isAscii '\r' = true),
              hnever (by decide : isAscii '\n' = true), hnever (by decide : isAscii '#' = true),
              hd, he]
      · rw [isLabelEnd_of_ne hcolon, isLabelEnd_of_ne hcolon]

/-- What is found reaches as far as both texts are the same. A character behind it that belongs to
no lexeme is the colon of a label. -/
def FoundIn (first second : List Char) (found : Scan) : Prop :=
  Shared found.more first second ∧ (found.skipped = 0 ∨ found.skipped = 1 ∧ found.kind = .label ∧
    ∃ rest, first.drop found.more = ':' :: rest)

/-- What starts with an ASCII character is the same in texts that are alike behind it, unless it is
a comment or a string. -/
theorem Alike.scan (halike : Alike first second) (hc : isAscii c = true) (hcomment : c ≠ '#')
    (hquote : c ≠ '"') :
    scan c first = Lexer.scan c second ∧ FoundIn first second (Lexer.scan c first) := by
  have hdigit := halike.head?_test picky_isDigit
  have hword : wordFollows first = wordFollows second := halike.head?_test picky_isWordStart
  have harrow : (first.head? == some '>') = (second.head? == some '>') := by
    rw [Bool.eq_iff_iff, beq_iff_eq, beq_iff_eq]
    exact halike.head?_eq_some_iff (by decide)
  have hdots : (first.take 2 == ['.', '.']) = (second.take 2 == ['.', '.']) := by
    rw [Bool.eq_iff_iff, beq_iff_eq, beq_iff_eq]
    exact ⟨fun hdots => (halike.take_two hdots).1, fun hdots => (halike.symm.take_two hdots).1⟩
  obtain ⟨hnumber, hnumberShared⟩ := halike.scanNumber
  obtain ⟨hwhole, hwholeShared⟩ := (Alike.ascii hc halike).scanNumber
  obtain ⟨hcount, hcountShared⟩ := local_count picky_isWordChar first second halike
  have hlabel := hcountShared.alike_drop.isLabelEnd
  have hsame : Lexer.scan c first = Lexer.scan c second := by
    unfold Lexer.scan
    dsimp only
    rw [if_neg hcomment, if_neg hcomment, if_neg hquote, if_neg hquote, hdigit, hword, harrow,
      hdots, hnumber, hwhole, hlabel, hcount]
  refine ⟨hsame, ?_⟩
  unfold Lexer.scan
  dsimp only
  rw [if_neg hcomment, if_neg hquote]
  split_ifs with hat hfollows hkind hdigits hellipsis hdirective htype hword hcolon harrowhead
  · exact ⟨hnumberShared, .inl rfl⟩
  · exact ⟨hnumberShared, .inl rfl⟩
  · exact ⟨halike.shared, .inl rfl⟩
  · exact ⟨hwholeShared.tail halike, .inl rfl⟩
  · exact ⟨(halike.take_two (beq_iff_eq.mp (Bool.and_eq_true_iff.mp hellipsis).2)).2, .inl rfl⟩
  · exact ⟨hcountShared, .inl rfl⟩
  · exact ⟨hcountShared, .inl rfl⟩
  · exact ⟨hcountShared, .inr ⟨rfl, rfl, exists_of_isLabelEnd hcolon⟩⟩
  · exact ⟨hcountShared, .inl rfl⟩
  · exact ⟨halike.shared_head? (by decide) (by decide)
      (beq_iff_eq.mp (Bool.and_eq_true_iff.mp harrowhead).2), .inl rfl⟩
  · exact ⟨halike.shared, .inl rfl⟩

end Alike

section Steps

variable {text rest : List Char} {c first : Char}

/-- A character that is not ASCII is a lexeme by itself. -/
theorem scan_of_not_isAscii (hforeign : isAscii first = false) (rest : List Char) :
    scan first rest = ⟨.invalid, 0, 0⟩ := by
  have hne := fun other (hother : isAscii other = true) => ne_of_not_isAscii hforeign hother
  have hmark : markKind? first = none := by
    unfold markKind?
    split <;> first | rfl | cases hforeign
  simp [scan, hmark, picky_isDigit.eq_false hforeign, picky_isWordStart.eq_false hforeign,
    hne '#' (by decide), hne '@' (by decide), hne '.' (by decide), hne ':' (by decide),
    hne '"' (by decide), hne '-' (by decide)]

/-- A comment ends with its line, in characters as in bytes. -/
theorem takeWhile_codes (text : List Char) :
    (codes text).takeWhile (· != '\n') = codes (text.takeWhile (· != '\n')) := by
  induction text with
  | nil => rfl
  | cons c text ih =>
      cases hascii : isAscii c with
      | true =>
          rw [codes_cons_of_isAscii hascii, List.takeWhile_cons, List.takeWhile_cons, ih]
          split
          · rw [codes_cons_of_isAscii hascii]
          · rfl
      | false =>
          have hpass : ∀ {d}, isAscii d = false → (d != '\n') = true :=
            fun hd => bne_iff_ne.mpr (ne_of_not_isAscii hd (by decide))
          obtain ⟨lead, tail, hcodes, hlead, htail, -⟩ := exists_codes_cons hascii
          rw [hcodes, List.takeWhile_cons_of_pos (p := (· != '\n')) (hpass hlead),
            List.takeWhile_append_of_pos fun d hd => hpass (htail d hd), ih,
            List.takeWhile_cons_of_pos (p := (· != '\n')) (hpass hascii), hcodes]

theorem scanString_cons (valid : Bool) (hescape : c ≠ '\\') (hline : c ≠ '\n') (hquote : c ≠ '"')
    (rest : List Char) :
    scanString valid (c :: rest) = ((scanString valid rest).1, (scanString valid rest).2 + 1) := by
  rw [scanString, if_neg hline, if_neg hquote]
  rintro _ _ ⟨⟩
  exact absurd rfl hescape

/-- Bytes of longer characters are passed over in a string. -/
theorem scanString_append (valid : Bool) {codes : List Char}
    (hcodes : ∀ c ∈ codes, isAscii c = false) (rest : List Char) :
    scanString valid (codes ++ rest) =
      ((scanString valid rest).1, (scanString valid rest).2 + codes.length) := by
  induction codes with
  | nil => rfl
  | cons c codes ih =>
      obtain ⟨hc, hcodes⟩ := List.forall_mem_cons.mp hcodes
      have hne := fun other (hother : isAscii other = true) => ne_of_not_isAscii hc hother
      rw [List.cons_append, scanString_cons valid (hne _ (by decide)) (hne _ (by decide))
        (hne _ (by decide)), ih hcodes, List.length_cons, Nat.add_assoc]

theorem scanString_escape (valid : Bool) (hline : c ≠ '\n') (rest : List Char) :
    scanString valid ('\\' :: c :: rest) =
      ((scanString (valid && isEscape c) rest).1,
        (scanString (valid && isEscape c) rest).2 + 2) := by
  rw [scanString, if_neg hline]

theorem isEscape_of_not_isAscii (hforeign : isAscii c = false) : isEscape c = false := by
  have hne := fun other (hother : isAscii other = true) => ne_of_not_isAscii hforeign hother
  simp [isEscape, hne 'n' (by decide), hne 'r' (by decide), hne 't' (by decide),
    hne '0' (by decide), hne '\\' (by decide), hne '"' (by decide)]

/-- Behind a backslash it makes no difference that only the first byte of a character is taken. -/
theorem scanString_codes_escape (valid : Bool) (hline : c ≠ '\n') (rest : List Char) :
    scanString valid (codes ('\\' :: c :: rest)) =
      ((scanString (valid && isEscape c) (codes rest)).1,
        (scanString (valid && isEscape c) (codes rest)).2 + width [c] + 1) := by
  rw [codes_cons_of_isAscii (by decide)]
  cases hascii : isAscii c with
  | true =>
      rw [codes_cons_of_isAscii hascii, scanString_escape valid hline,
        width_cons_of_isAscii hascii]
      rfl
  | false =>
      obtain ⟨lead, tail, hcodes, hlead, htail, hwidth, -⟩ := exists_codes_cons hascii
      rw [hcodes, scanString_escape valid (ne_of_not_isAscii hlead (by decide)),
        isEscape_of_not_isAscii hlead, isEscape_of_not_isAscii hascii,
        scanString_append _ htail, hwidth]
      rfl

/-- Any other character in a string is passed over. -/
theorem scanString_codes_cons (valid : Bool)
    (hescape : ∀ next rest', c = '\\' → rest = next :: rest' → False) (hline : c ≠ '\n')
    (hquote : c ≠ '"') :
    scanString valid (codes (c :: rest)) =
      ((scanString valid (codes rest)).1, (scanString valid (codes rest)).2 + width [c]) := by
  cases hascii : isAscii c with
  | true =>
      rw [codes_cons_of_isAscii hascii, width_cons_of_isAscii hascii, scanString, if_neg hline,
        if_neg hquote]
      · rfl
      · intro next rest' hbackslash hrest
        cases rest with
        | nil => cases hrest
        | cons other rest => exact hescape other rest hbackslash rfl
  | false =>
      obtain ⟨lead, tail, hcodes, hlead, htail, hwidth, -⟩ := exists_codes_cons hascii
      rw [hcodes, ← List.cons_append, scanString_append valid
        (List.forall_mem_cons.mpr ⟨hlead, htail⟩), hwidth, List.length_cons]

/-- Scans of a string and of its bytes have the same outcome, and end at the same place of the text
and within its line. -/
def ScansAlike (text : List Char) (scanned bytewise : Bool × Nat) : Prop :=
  bytewise.1 = scanned.1 ∧ ∃ front behind, text = front ++ behind ∧ front.length = scanned.2 ∧
    width front = bytewise.2 ∧ '\n' ∉ front

theorem scansAlike_zero (text : List Char) (valid : Bool) :
    ScansAlike text (valid, 0) (valid, 0) :=
  ⟨rfl, [], text, rfl, rfl, rfl, List.not_mem_nil⟩

theorem ScansAlike.cons {valid good : Bool} {length more : Nat} (hline : c ≠ '\n')
    (halike : ScansAlike text (valid, length) (good, more)) :
    ScansAlike (c :: text) (valid, length + 1) (good, more + width [c]) := by
  obtain ⟨hgood, front, behind, rfl, rfl, rfl, hfront⟩ := halike
  refine ⟨hgood, c :: front, behind, rfl, rfl, ?_, ?_⟩
  · rw [width_cons, Nat.add_comm]
  · exact List.not_mem_cons_of_ne_of_not_mem (Ne.symm hline) hfront

/-- A string ends at the same place in characters and in bytes. -/
theorem scansAlike_scanString (valid : Bool) (text : List Char) :
    ScansAlike text (scanString valid text) (scanString valid (codes text)) := by
  fun_induction scanString valid text with
  | case1 valid => exact scansAlike_zero [] false
  | case2 valid rest =>
      rw [codes_cons_of_isAscii (by decide), codes_cons_of_isAscii (by decide)]
      exact (scansAlike_zero ('\n' :: rest) false).cons (by decide)
  | case3 valid c rest hline good length hscan ih =>
      rw [hscan] at ih
      rw [scanString_codes_escape valid hline]
      exact (ih.cons hline).cons (by decide)
  | case4 valid rest =>
      rw [codes_cons_of_isAscii (by decide), scanString, if_pos rfl]
      · exact scansAlike_zero _ false
      · rintro _ _ ⟨⟩
  | case5 valid rest =>
      rw [codes_cons_of_isAscii (by decide), scanString, if_neg (by decide), if_pos rfl]
      · exact (scansAlike_zero rest valid).cons (by decide)
      · rintro _ _ ⟨⟩
  | case6 valid c rest hescape hline hquote good length hscan ih =>
      rw [hscan] at ih
      rw [scanString_codes_cons valid hescape hline hquote]
      exact ih.cons hline

end Steps

end Lexer

end VectorStack
