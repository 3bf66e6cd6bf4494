import VectorStack.Token.Lexer
/-!
String literals: the text between quotes, in which a backslash and a letter stand for a character
that cannot be written as itself. The main statement is that a quoted text reads back as itself.
-/

namespace VectorStack.StringLiteral

/-- The character that a backslash and this character stand for. -/
def unescapeChar? : Char → Option Char
  | 'n' => some '\n'
  | 'r' => some '\r'
  | 't' => some '\t'
  | '0' => some '\x00'
  | '\\' => some '\\'
  | '"' => some '"'
  | _ => none

/-- The text that the inside of a literal stands for. -/
def unescapeInner? : List Char → Option (List Char)
  | [] => some []
  | ['\\'] => none
  | '\\' :: c :: rest =>
    match unescapeChar? c, unescapeInner? rest with
    | some c, some rest => some (c :: rest)
    | _, _ => none
  | c :: rest => (unescapeInner? rest).map (c :: ·)

/-- The text that a literal in quotes stands for. -/
def unescape? (text : List Char) : Option (List Char) :=
  match text with
  | '"' :: rest => if rest.getLast? = some '"' then unescapeInner? rest.dropLast else none
  | _ => none

/-- How a character is written inside a literal. -/
def escapeChar : Char → List Char
  | '\n' => ['\\', 'n']
  | '\r' => ['\\', 'r']
  | '\t' => ['\\', 't']
  | '\x00' => ['\\', '0']
  | '\\' => ['\\', '\\']
  | '"' => ['\\', '"']
  | c => [c]

/-- A text as a literal. -/
def quote (text : List Char) : List Char := '"' :: text.flatMap escapeChar ++ ['"']

theorem unescapeInner?_escapeChar_append (c : Char) (rest : List Char) :
    unescapeInner? (escapeChar c ++ rest) = (unescapeInner? rest).map (c :: ·) := by
  unfold escapeChar
  split <;> cases hrest : unescapeInner? rest <;> simp_all [unescapeInner?, unescapeChar?]

theorem unescapeInner?_flatMap_escapeChar (text : List Char) :
    unescapeInner? (text.flatMap escapeChar) = some text := by
  induction text with
  | nil => rfl
  | cons c rest ih => rw [List.flatMap_cons, unescapeInner?_escapeChar_append, ih, Option.map_some]

theorem unescape?_quote (text : List Char) : unescape? (quote text) = some text := by
  simp [quote, unescape?, unescapeInner?_flatMap_escapeChar]

end VectorStack.StringLiteral
