import VectorStack.Proofs.Token.Literal
import VectorStack.Proofs.Token.Lossless
/-!
Writing texts as literals and reading them back. Two readers look at the escapes of a literal: the
lexer goes from byte to byte to find where the literal ends, and later its characters are taken for
what they stand for. A text that is quoted passes both, and whatever passes the first one stands for
a text.
-/

namespace VectorStack

/-- The bytes of a lexeme whose places count bytes. -/
def Lexeme.bytes (lexeme : Lexeme) (bytes : Bytes) : Bytes :=
  (bytes.drop lexeme.start).take lexeme.length

namespace Lexer

/-- The bytes before a place of a text, and those from it on. -/
theorem encode_split (text : List Char) (place : Nat) :
    Text.encode text = Text.encode (text.take place) ++ Text.encode (text.drop place) := by
  simp only [Text.encode]
  rw [← List.flatMap_append, List.take_append_drop]

/-- The bytes of a lexeme are those of its characters. -/
theorem bytes_inBytes (text : List Char) (lexeme : Lexeme) :
    (lexeme.inBytes text).bytes (Text.encode text) = Text.encode (lexeme.chars text) := by
  have hdrop : (Text.encode text).drop (width (text.take lexeme.start)) =
      Text.encode (text.drop lexeme.start) := by
    rw [encode_split text lexeme.start, width, List.drop_left]
  rw [Lexeme.bytes, Lexeme.inBytes]
  dsimp only
  rw [hdrop, encode_split (text.drop lexeme.start) lexeme.length, width, List.take_left]
  rfl

/-- A string of the bytes of a text is one of its characters. -/
theorem exists_of_mem_lexBytes {text : List Char} {lexeme : Lexeme}
    (hmem : lexeme ∈ lexBytes (Text.encode text)) :
    ∃ other ∈ lex text, lexeme.kind = other.kind ∧
      lexeme.bytes (Text.encode text) = Text.encode (other.chars text) := by
  rw [lexBytes_encode] at hmem
  obtain ⟨other, hother, rfl⟩ := List.mem_map.mp hmem
  exact ⟨other, hother, rfl, bytes_inBytes text other⟩

end Lexer

namespace StringLiteral

open Lexer

/-- What stands for a character is one step of what is quoted. -/
theorem quoted_escapeChar_append (c : Char) {literal : List Char} (hquoted : Quoted literal) :
    Quoted (escapeChar c ++ literal) := by
  unfold escapeChar
  split
  case h_7 hline _ _ _ hbackslash hquote => exact .plain hbackslash hline hquote hquoted
  all_goals exact .escaped rfl hquoted

theorem quoted_flatMap_escapeChar (text : List Char) :
    Quoted (text.flatMap escapeChar ++ ['"']) := by
  induction text with
  | nil => exact .close
  | cons c text ih =>
      rw [List.flatMap_cons, List.append_assoc]
      exact quoted_escapeChar_append c ih

theorem lex_quote (text : List Char) : lex (quote text) = [⟨.string, 0, (quote text).length⟩] :=
  lex_quoted (quoted_flatMap_escapeChar text)

theorem lexBytes_quote (text : List Char) :
    lexBytes (Text.encode (quote text)) = [⟨.string, 0, width (quote text)⟩] := by
  rw [lexBytes_encode, lex_quote]
  simp [Lexeme.inBytes, width_nil]

/-- A string of any text stands for a text. -/
theorem exists_meaning {text : List Char} {lexeme : Lexeme} (hmem : lexeme ∈ lex text)
    (hkind : lexeme.kind = .string) : ∃ meant, unescape? (lexeme.chars text) = some meant := by
  obtain ⟨literal, hchars, hquoted⟩ := quoted_of_mem_lex hmem hkind
  rw [hchars]
  exact exists_unescape? hquoted

/-- A text that is quoted is one string, which stands for the text, and every string that is found
in a text stands for a text: in characters and byte by byte. -/
theorem quote_reads_back (text : List Char) :
    (lex (quote text) = [⟨.string, 0, (quote text).length⟩] ∧
      lexBytes (Text.encode (quote text)) = [⟨.string, 0, width (quote text)⟩] ∧
      unescape? (quote text) = some text) ∧
    (∀ lexeme ∈ lex text, lexeme.kind = .string →
      ∃ meant, unescape? (lexeme.chars text) = some meant) ∧
    ∀ lexeme ∈ lexBytes (Text.encode text), lexeme.kind = .string →
      ∃ literal meant, lexeme.bytes (Text.encode text) = Text.encode literal ∧
        unescape? literal = some meant := by
  refine ⟨⟨lex_quote text, lexBytes_quote text, unescape?_quote text⟩, ?_, ?_⟩
  · intro lexeme hmem hkind
    exact exists_meaning hmem hkind
  · intro lexeme hmem hkind
    obtain ⟨other, hother, hsame, hbytes⟩ := exists_of_mem_lexBytes hmem
    obtain ⟨meant, hmeant⟩ := exists_meaning hother (hsame ▸ hkind)
    exact ⟨other.chars text, meant, hbytes, hmeant⟩

/-- A literal whose last quote stands behind two backslashes, and which has a character of two
bytes. -/
def backslashText : List Char := ['a', ' ', '"', 'é', '\\', '\\', '"']

theorem quote_reads_back_backslash :
    unescape? (quote backslashText) = some backslashText ∧
    (⟨.string, 2, 5⟩ : Lexeme) ∈ lex backslashText ∧
    (∃ meant, unescape? (Lexeme.chars ⟨.string, 2, 5⟩ backslashText) = some meant) ∧
    (⟨.string, 2, 6⟩ : Lexeme) ∈ lexBytes (Text.encode backslashText) ∧
    ∃ literal meant, Lexeme.bytes ⟨.string, 2, 6⟩ (Text.encode backslashText) =
      Text.encode literal ∧ unescape? literal = some meant := by
  have hlex : lex backslashText = [⟨.word, 0, 1⟩, ⟨.string, 2, 5⟩] := by decide +kernel
  have hlexBytes : lexBytes (Text.encode backslashText) = [⟨.word, 0, 1⟩, ⟨.string, 2, 6⟩] := by
    decide +kernel
  have hmem : (⟨.string, 2, 5⟩ : Lexeme) ∈ lex backslashText := by simp [hlex]
  have hmemBytes : (⟨.string, 2, 6⟩ : Lexeme) ∈ lexBytes (Text.encode backslashText) := by
    simp [hlexBytes]
  obtain ⟨⟨-, -, hquote⟩, hchars, hbytes⟩ := quote_reads_back backslashText
  exact ⟨hquote, hmem, hchars _ hmem rfl, hmemBytes, hbytes _ hmemBytes rfl⟩

end StringLiteral

end VectorStack
