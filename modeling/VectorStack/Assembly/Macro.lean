import VectorStack.Assembly.Error
import VectorStack.Assembly.Expression
import VectorStack.Token.StringLiteral
/-!
The shapes that the macro language reads from the tokens behind a directive: macro definitions,
argument lists, conditions and blocks. Each reader takes the tokens to come and gives what it read
and how many tokens that took.
-/

namespace VectorStack

/-- A macro: names for its arguments, a name for the arguments beyond them, and its text. -/
structure Macro where
  params : List String
  rest : Option String
  body : List TokenId
deriving DecidableEq, Repr

namespace TokenStore

def expansionFault (store : TokenStore) (id : TokenId) (message : String) : AssemblyError :=
  store.faultAt id (.expansion message)

/-- The next token, which is missing on account of `cause` if there is none. -/
def require (store : TokenStore) (cause : TokenId) (what : String) :
    List TokenId → Except AssemblyError (WithRest TokenId)
  | [] => .error (store.expansionFault cause ("expected " ++ what ++ ", found end of input"))
  | token :: rest => .ok (token, rest)

/-- The next token, which must be of a given kind. -/
def expect (store : TokenStore) (cause : TokenId) (kind : TokenKind) (what : String)
    (tokens : List TokenId) : Except AssemblyError (WithRest TokenId) := do
  let (token, rest) ← store.require cause what tokens
  if store.kind token = kind then .ok (token, rest)
  else .error (store.expansionFault token (store.unexpected token what))

end TokenStore

/-- Arguments read so far. -/
structure ArgumentReader where
  /-- Finished arguments, the last one first. -/
  finished : List (List TokenId)
  /-- Tokens of the argument being read, the last one first. -/
  current : List TokenId
  /-- Open parentheses inside the list. -/
  depth : Nat
deriving DecidableEq, Repr

namespace ArgumentReader

def start : ArgumentReader := ⟨[], [], 0⟩

/-- The arguments; a list without any token has none. -/
def arguments (reader : ArgumentReader) : List (List TokenId) :=
  if reader.finished.isEmpty && reader.current.isEmpty then []
  else (reader.current.reverse :: reader.finished).reverse

def append (reader : ArgumentReader) (token : TokenId) : ArgumentReader :=
  { reader with current := token :: reader.current }

/-- Read one token. Commas outside inner parentheses separate arguments, but not within argument
number `restFrom` and later ones. The result is the arguments when the token closes the list. -/
def feed (reader : ArgumentReader) (restFrom : Option Nat) (kind : TokenKind) (token : TokenId) :
    ArgumentReader ⊕ List (List TokenId) :=
  match kind with
  | .comment => .inl reader
  | .openParen => .inl { reader.append token with depth := reader.depth + 1 }
  | .closeParen =>
    if reader.depth = 0 then .inr reader.arguments
    else .inl { reader.append token with depth := reader.depth - 1 }
  | .comma =>
    let splits := reader.depth == 0 && restFrom.all fun rest => reader.finished.length < rest
    if splits then .inl ⟨reader.current.reverse :: reader.finished, [], 0⟩
    else .inl (reader.append token)
  | _ => .inl (reader.append token)

/-- The fault of a list that does not end on its line. -/
def unclosed (store : TokenStore) (opening : TokenId) : AssemblyError :=
  store.expansionFault opening "unbalanced `(`: argument list is never closed"

/-- Read arguments from behind the opening parenthesis, after `taken` tokens. -/
def readFrom (store : TokenStore) (opening : TokenId) (restFrom : Option Nat)
    (reader : ArgumentReader) (taken : Nat) :
    List TokenId → Except AssemblyError (WithCount (List (List TokenId)))
  | [] => .error (unclosed store opening)
  | token :: rest =>
    if store.kind token = .lineEnd then .error (unclosed store opening)
    else
      match reader.feed restFrom (store.kind token) token with
      | .inl reader => readFrom store opening restFrom reader (taken + 1) rest
      | .inr arguments => .ok (arguments, taken + 1)

end ArgumentReader

namespace TokenStore

/-- Read a parenthesized argument list. -/
def readArguments (store : TokenStore) (cause : TokenId) (restFrom : Option Nat)
    (tokens : List TokenId) : Except AssemblyError (WithCount (List (List TokenId))) := do
  let (opening, rest) ← store.expect cause .openParen "`(`" tokens
  ArgumentReader.readFrom store opening restFrom .start 1 rest

/-- Read up to the parenthesis that closes the last of `depth` open ones; comments are dropped. -/
def readGroupFrom (store : TokenStore) (opening : TokenId) (depth : Nat) :
    List TokenId → Except AssemblyError (WithCount (List TokenId))
  | [] => .error (store.expansionFault opening "unbalanced `(`")
  | token :: rest =>
    let keep := Except.map fun ((group, taken) : WithCount (List TokenId)) =>
      (token :: group, taken + 1)
    match store.kind token with
    | .lineEnd => .error (store.expansionFault opening "unbalanced `(`")
    | .comment =>
      (store.readGroupFrom opening depth rest).map fun (group, taken) => (group, taken + 1)
    | .closeParen =>
      if depth ≤ 1 then .ok ([token], 1) else keep (store.readGroupFrom opening (depth - 1) rest)
    | .openParen => keep (store.readGroupFrom opening (depth + 1) rest)
    | _ => keep (store.readGroupFrom opening depth rest)

/-- Read a parenthesized group on one line, with its parentheses. -/
def readGroup (store : TokenStore) (cause : TokenId) (tokens : List TokenId) :
    Except AssemblyError (WithCount (List TokenId)) := do
  let (opening, rest) ← store.expect cause .openParen "`(`" tokens
  let (group, taken) ← store.readGroupFrom opening 1 rest
  .ok (opening :: group, taken + 1)

/-- Read up to the brace that opens a block, after `taken` tokens; line ends and comments may stand
before it. -/
def readBlockStart (store : TokenStore) (cause : TokenId) (taken : Nat) :
    List TokenId → Except AssemblyError (WithCount TokenId)
  | [] => .error (store.expansionFault cause "expected `\x7b`, found end of input")
  | token :: rest =>
    match store.kind token with
    | .lineEnd | .comment => store.readBlockStart cause (taken + 1) rest
    | .openBrace => .ok (token, taken + 1)
    | _ => .error (store.expansionFault token "expected `\x7b` to open the conditional block")

/-- Read past the brace that closes the last of `depth` open blocks, after `taken` tokens. The
result is the number of tokens it took. -/
def skipBlock (store : TokenStore) (opening : TokenId) (depth taken : Nat) :
    List TokenId → Except AssemblyError Nat
  | [] => .error (store.expansionFault opening "unbalanced `\x7b`: block is never closed")
  | token :: rest =>
    match store.kind token with
    | .openBrace => store.skipBlock opening (depth + 1) (taken + 1) rest
    | .closeBrace =>
      if depth ≤ 1 then .ok (taken + 1) else store.skipBlock opening (depth - 1) (taken + 1) rest
    | _ => store.skipBlock opening depth (taken + 1) rest

/-- Read what ends a parameter list or separates two parameters; only a parenthesis may follow the
rest parameter. The result says whether the list ends. -/
def readSeparator (store : TokenStore) (directive : TokenId) (afterRest : Bool)
    (tokens : List TokenId) : Except AssemblyError Bool := do
  let (separator, _) ← store.require directive "`,` or `)`" tokens
  match store.kind separator, afterRest with
  | .closeParen, _ => .ok true
  | .comma, false => .ok false
  | _, _ => .error (store.expansionFault separator "expected `)` after the parameters")

/-- Read parameters from behind the opening parenthesis, of a list that is not empty, after `taken`
tokens. -/
def readParameters (store : TokenStore) (directive : TokenId) (params : List String)
    (taken : Nat) : List TokenId → Except AssemblyError (WithCount (List String × Option String))
  | [] => .error
    (store.expansionFault directive "expected a parameter name, found end of input")
  | param :: tokens =>
    match store.kind param with
    | .word =>
      match tokens with
      | [] => (store.readSeparator directive false []).map fun _ => ((params, none), taken + 1)
      | separator :: rest =>
        match store.readSeparator directive false [separator] with
        | .error fault => .error fault
        | .ok true => .ok (((store.text param :: params).reverse, none), taken + 2)
        | .ok false =>
          store.readParameters directive (store.text param :: params) (taken + 2) rest
    | .ellipsis => do
      let (word, tokens) ← store.expect param .word "a name after `...`" tokens
      let _ ← store.readSeparator directive true tokens
      .ok ((params.reverse, some (store.text word)), taken + 3)
    | _ => .error (store.expansionFault param "expected a parameter name")

/-- Read the parameters of a macro, if a list of them follows its name. -/
def readParameterList (store : TokenStore) (directive : TokenId) (tokens : List TokenId) :
    Except AssemblyError (WithCount (List String × Option String)) :=
  match tokens with
  | opening :: rest =>
    if store.kind opening = .openParen then
      match rest with
      | closing :: _ =>
        if store.kind closing = .closeParen then .ok (([], none), 2)
        else store.readParameters directive [] 1 rest
      | [] => store.readParameters directive [] 1 []
    else .ok (([], none), 0)
  | [] => .ok (([], none), 0)

/-- Read the body of a macro up to the brace that closes the last of `depth` open ones. -/
def readBracedBody (store : TokenStore) (opening : TokenId) (depth : Nat) :
    List TokenId → Except AssemblyError (WithCount (List TokenId))
  | [] => .error
    (store.expansionFault opening "unbalanced `\x7b`: macro body is never closed")
  | token :: rest =>
    let keep := Except.map fun ((body, taken) : WithCount (List TokenId)) =>
      (token :: body, taken + 1)
    match store.kind token with
    | .comment =>
      (store.readBracedBody opening depth rest).map fun (body, taken) => (body, taken + 1)
    | .openBrace => keep (store.readBracedBody opening (depth + 1) rest)
    | .closeBrace =>
      if depth ≤ 1 then .ok ([], 1) else keep (store.readBracedBody opening (depth - 1) rest)
    | _ => keep (store.readBracedBody opening depth rest)

/-- Read the body of a macro: what stands in braces, or else the rest of the line. Comments are
dropped. -/
def readBody (store : TokenStore) (tokens : List TokenId) :
    Except AssemblyError (WithCount (List TokenId)) :=
  let ofLine :=
    let line := tokens.takeWhile fun token => store.kind token != .lineEnd
    (line.filter fun token => store.kind token != .comment, line.length)
  match tokens with
  | opening :: rest =>
    if store.kind opening = .openBrace then
      (store.readBracedBody opening 1 rest).map fun (body, taken) => (body, taken + 1)
    else .ok ofLine
  | [] => .ok ofLine

end TokenStore

namespace Macro

/-- The tokens that stand for one token of the body. -/
def substitute (definition : Macro) (store : TokenStore) (arguments : List (List TokenId))
    (token : TokenId) : List TokenId :=
  if store.kind token = .word then
    let name := store.text token
    match definition.params.findIdx? (· == name) with
    | some index => arguments.getD index []
    | none =>
      if definition.rest = some name then arguments.getD definition.params.length [] else [token]
  else [token]

/-- Whether the macro can be used with this many arguments. -/
def accepts (definition : Macro) (given : Nat) : Bool :=
  definition.params.length ≤ given && (given ≤ definition.params.length || definition.rest.isSome)

/-- The body with arguments in place of parameters. -/
def instantiate (definition : Macro) (store : TokenStore) (arguments : List (List TokenId)) :
    List TokenId :=
  definition.body.flatMap (definition.substitute store arguments)

end Macro

end VectorStack
