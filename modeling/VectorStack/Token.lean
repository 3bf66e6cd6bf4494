/-!
The kinds of tokens that assembly text is made of.
-/

namespace VectorStack

inductive TokenKind where
  | lineEnd
  | word
  /-- A word with a colon right behind it; the colon is not part of the token. -/
  | label
  /-- `@` and an integer. -/
  | position
  | number
  /-- A dot and a word. -/
  | directive
  /-- A colon and a word. -/
  | type
  | string
  | openParen
  | closeParen
  | openBrace
  | closeBrace
  | comma
  | plus
  | minus
  | star
  | slash
  | tilde
  | arrow
  | ellipsis
  | comment
  /-- Anything malformed; whoever reads it reports it. -/
  | invalid
deriving DecidableEq, Repr, Inhabited

end VectorStack
