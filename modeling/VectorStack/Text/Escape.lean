import VectorStack.Text.Property
/-!
Text as it is shown inside a message: control characters, quotes and backslashes are escaped, and
so is every character without a printed form of its own.
-/

namespace VectorStack.Text

/-- A character by its code point. -/
def escapeCodePoint (c : Char) : List Char :=
  "\\u\x7b".toList ++ Nat.toDigits 16 c.toNat ++ "\x7d".toList

/-- A character as shown in a message; `first` is set where nothing stands before it. -/
def escapeChar (first : Bool) (c : Char) : List Char :=
  match c with
  | '\x00' => "\\0".toList
  | '\t' => "\\t".toList
  | '\r' => "\\r".toList
  | '\n' => "\\n".toList
  | '\'' => "\\'".toList
  | '"' => "\\\"".toList
  | '\\' => "\\\\".toList
  | c => if (first && isGraphemeExtend c) || !isPrintable c then escapeCodePoint c else [c]

/-- A text as shown in a message. -/
def escape : List Char → List Char
  | [] => []
  | c :: rest => escapeChar true c ++ rest.flatMap (escapeChar false)

end VectorStack.Text
