import VectorStack.Assembly.Expression
import VectorStack.Instruction
/-!
Statements: labels, positions, data declarations and instructions. A line is read on its own, so the
statements of a text are those of its lines one after another.
-/

namespace VectorStack

/-- What an operand or data item is written as. -/
inductive Written where
  /-- `_`: the value is on the stack. -/
  | placeholder
  | literal (token : TokenId) (negative : Bool)
  /-- A label name. -/
  | word (token : TokenId)
  | string (token : TokenId)
  | expression (expression : Expression)
deriving DecidableEq, Repr

/-- An operand or data item of a statement. -/
structure Term where
  written : Written
  /-- Its first token. -/
  token : TokenId
  /-- The number behind a star, one without it. -/
  copies : Nat
deriving DecidableEq, Repr

/-- An instruction as it is written. -/
structure InstructionStatement where
  opcode : Opcode
  token : TokenId
  type : Option DataType
  width : Nat
  /-- Operands before an arrow. -/
  inputs : List Term
  /-- Operands behind an arrow. -/
  outputs : List Term
deriving DecidableEq, Repr

inductive Statement where
  | label (token : TokenId)
  | position (token : TokenId)
  /-- One item of a declaration. -/
  | data (type : DataType) (item : Term)
  | instruction (statement : InstructionStatement)
deriving DecidableEq, Repr

namespace Statement

/-- The token that a statement is reported at. -/
def token : Statement → TokenId
  | label token | position token => token
  | data _ item => item.token
  | instruction statement => statement.token

end Statement

theorem Expression.length_parseInside_lt {store : TokenStore} {opening : TokenId}
    {state : Partial} {tokens rest : List TokenId} {expression : Expression}
    (hparse : parseInside store opening state tokens = .ok (expression, rest)) :
    rest.length < tokens.length := by
  fun_induction parseInside store opening state tokens <;> grind

theorem Expression.length_parse_lt {store : TokenStore} {tokens rest : List TokenId}
    {expression : Expression} (hparse : parse store tokens = .ok (expression, rest)) :
    rest.length < tokens.length := by
  unfold parse at hparse
  split at hparse
  · cases hparse
  · split at hparse
    · exact Nat.lt_succ_of_lt (length_parseInside_lt hparse)
    · cases hparse

namespace TokenStore

def grammarFault (store : TokenStore) (id : TokenId) (message : String) : AssemblyError :=
  store.faultAt id (.grammar message)

/-- A token is not what was expected. -/
def unexpectedFault (store : TokenStore) (id : TokenId) (what : String) : AssemblyError :=
  store.grammarFault id (store.unexpected id what)

/-- Kind of the next token. -/
def nextKind (store : TokenStore) (tokens : List TokenId) : Option TokenKind :=
  tokens.head?.map store.kind

/-- Nothing more is on the line. -/
def atLineEnd (store : TokenStore) (tokens : List TokenId) : Bool :=
  match store.nextKind tokens with
  | none | some .lineEnd => true
  | _ => false

/-- The type that a type token names. -/
def readType (store : TokenStore) (token : TokenId) : Except AssemblyError DataType :=
  let name := String.ofList ((store.chars token).drop 1)
  match DataType.parse? name with
  | some type => .ok type
  | none => .error (store.grammarFault token ("unknown type `" ++ name ++ "`"))

/-- Read a number that is below `2 ^ 32` and not negative. -/
def readCount (store : TokenStore) (cause : TokenId) :
    List TokenId → Except AssemblyError (WithRest Nat)
  | [] => .error (store.grammarFault cause "expected a count")
  | token :: rest =>
    if store.kind token = .number then
      match (Number.parse? (store.chars token)).bind Number.natural? with
      | some count =>
        if count < UInt32.size then .ok (count, rest)
        else .error (store.grammarFault token "count must be a small non-negative integer")
      | none => .error (store.grammarFault token "count must be a small non-negative integer")
    else .error (store.unexpectedFault token "a count")

/-- Read what an operand is written as. -/
def readWritten (store : TokenStore) (cause : TokenId) :
    List TokenId → Except AssemblyError (WithRest Written)
  | [] => .error (store.grammarFault cause "expected an operand")
  | token :: rest =>
    match store.kind token with
    | .word => .ok (if store.text token = "_" then .placeholder else .word token, rest)
    | .number => .ok (.literal token false, rest)
    | .minus =>
      match rest with
      | number :: left =>
        if store.kind number = .number then .ok (.literal number true, left)
        else .error (store.grammarFault token "`-` must be followed by a number")
      | [] => .error (store.grammarFault token "`-` must be followed by a number")
    | .string => .ok (.string token, rest)
    | .openParen =>
      match Expression.parse store (token :: rest) with
      | .ok (expression, left) => .ok (.expression expression, left)
      | .error fault => .error fault
    | _ => .error (store.unexpectedFault token "an operand")

/-- Read an operand and how many copies of it there are. -/
def readTerm (store : TokenStore) (cause : TokenId) (tokens : List TokenId) :
    Except AssemblyError (WithRest Term) :=
  match store.readWritten cause tokens with
  | .error fault => .error fault
  | .ok (written, rest) =>
    let token := tokens.headD cause
    match rest with
    | star :: left =>
      if store.kind star = .star then
        match store.readCount token left with
        | .ok (copies, left) => .ok (⟨written, token, copies⟩, left)
        | .error fault => .error fault
      else .ok (⟨written, token, 1⟩, rest)
    | [] => .ok (⟨written, token, 1⟩, [])

theorem length_readCount_lt {store : TokenStore} {cause : TokenId} {tokens rest : List TokenId}
    {count : Nat} (hread : store.readCount cause tokens = .ok (count, rest)) :
    rest.length < tokens.length := by
  unfold readCount at hread
  grind

theorem length_readWritten_lt {store : TokenStore} {cause : TokenId} {tokens rest : List TokenId}
    {written : Written} (hread : store.readWritten cause tokens = .ok (written, rest)) :
    rest.length < tokens.length := by
  unfold readWritten at hread
  have hparse := @Expression.length_parse_lt store
  grind

theorem length_readTerm_lt {store : TokenStore} {cause : TokenId} {tokens rest : List TokenId}
    {term : Term} (hread : store.readTerm cause tokens = .ok (term, rest)) :
    rest.length < tokens.length := by
  unfold readTerm at hread
  have hwritten := @length_readWritten_lt store cause tokens
  have hcopies := @length_readCount_lt store
  grind

/-- Read the items of a declaration; commas between them may be left out. -/
def readItems (store : TokenStore) (typeToken : TokenId) (type : DataType)
    (tokens : List TokenId) : Except AssemblyError (List Statement) :=
  if store.atLineEnd tokens then .ok []
  else
    match _read : store.readTerm typeToken tokens with
    | .error fault => .error fault
    | .ok (item, rest) =>
      if item.written = .placeholder then
        .error (store.grammarFault item.token "`_` is not a value")
      else
        let rest' := if store.nextKind rest = some .comma then rest.drop 1 else rest
        (store.readItems typeToken type rest').map (.data type item :: ·)
termination_by tokens.length
decreasing_by
  have hlt := length_readTerm_lt _read
  split
  · rw [List.length_drop]
    exact Nat.lt_of_le_of_lt (Nat.sub_le _ _) hlt
  · exact hlt

/-- Read a declaration. -/
def readData (store : TokenStore) (typeToken : TokenId) (tokens : List TokenId) :
    Except AssemblyError (List Statement) :=
  match store.readType typeToken with
  | .error fault => .error fault
  | .ok type =>
    if store.atLineEnd tokens then
      .error (store.grammarFault typeToken "declaration has no values")
    else store.readItems typeToken type tokens

/-- Read the operands of an instruction, those before an arrow and those behind it. -/
def readTerms (store : TokenStore) (mnemonic : TokenId) (afterArrow : Bool)
    (tokens : List TokenId) : Except AssemblyError (List Term × List Term) :=
  match tokens with
  | [] => .ok ([], [])
  | first :: behind =>
    if store.kind first = .lineEnd then .ok ([], [])
    else if store.kind first = .arrow then
      if afterArrow then .error (store.grammarFault first "second `->`")
      else store.readTerms mnemonic true behind
    else
      match _read : store.readTerm mnemonic (first :: behind) with
      | .error fault => .error fault
      | .ok (term, rest) =>
        let add (terms : List Term × List Term) : List Term × List Term :=
          if afterArrow then (terms.1, term :: terms.2) else (term :: terms.1, terms.2)
        match _rest : rest with
        | [] => .ok (add ([], []))
        | next :: left =>
          match store.kind next with
          | .comma => (store.readTerms mnemonic afterArrow left).map add
          | .lineEnd | .arrow => (store.readTerms mnemonic afterArrow (next :: left)).map add
          | _ => .error (store.unexpectedFault next "`,`, `->` or the end of the line")
termination_by tokens.length
decreasing_by
  · simp
  · exact Nat.lt_of_succ_lt (length_readTerm_lt _read)
  · exact length_readTerm_lt _read

/-- Read the type behind a mnemonic, if there is one. -/
def readTypeSuffix (store : TokenStore) :
    List TokenId → Except AssemblyError (WithRest (Option DataType))
  | token :: rest =>
    if store.kind token = .type then (store.readType token).map fun type => (some type, rest)
    else .ok (none, token :: rest)
  | [] => .ok (none, [])

/-- Read the width behind a mnemonic, one if there is none. -/
def readWidthSuffix (store : TokenStore) (mnemonic : TokenId) :
    List TokenId → Except AssemblyError (WithRest Nat)
  | star :: rest =>
    if store.kind star = .star then
      match store.readCount mnemonic rest with
      | .error fault => .error fault
      | .ok (count, rest) =>
        if count = 0 ∨ Instruction.maxWidth < count then
          .error (store.grammarFault mnemonic "width must be 1 to 8")
        else .ok (count, rest)
    else .ok (1, star :: rest)
  | [] => .ok (1, [])

/-- Read an instruction. -/
def readInstruction (store : TokenStore) (mnemonic : TokenId) (tokens : List TokenId) :
    Except AssemblyError Statement := do
  let name := store.text mnemonic
  match Opcode.parse? name with
  | none => .error (store.grammarFault mnemonic ("unknown instruction `" ++ name ++ "`"))
  | some opcode =>
    let (type, rest) ← store.readTypeSuffix tokens
    let (width, rest) ← store.readWidthSuffix mnemonic rest
    let (inputs, outputs) ← store.readTerms mnemonic false rest
    let template := opcode.template
    if template.inputs.length < inputs.length ∨ template.outputs.length < outputs.length then
      .error (store.grammarFault mnemonic ("`" ++ name ++ "` takes " ++
        Nat.repr template.inputs.length ++ " inputs and " ++
        Nat.repr template.outputs.length ++ " outputs"))
    else .ok (.instruction ⟨opcode, mnemonic, type, width, inputs, outputs⟩)

/-- Read the statements of one line. -/
def readLine (store : TokenStore) : List TokenId → Except AssemblyError (List Statement)
  | [] => .ok []
  | token :: rest =>
    match store.kind token with
    | .lineEnd => .ok []
    | .label => (store.readLine rest).map (.label token :: ·)
    | .position => (store.readLine rest).map (.position token :: ·)
    | .type => store.readData token rest
    | .word => (store.readInstruction token rest).map ([·])
    | _ => .error (store.unexpectedFault token "a label, declaration or instruction")

/-- Cut tokens behind every line end. -/
def lines (store : TokenStore) : List TokenId → List (List TokenId)
  | [] => []
  | token :: rest =>
    if store.kind token = .lineEnd then [token] :: store.lines rest
    else
      match store.lines rest with
      | [] => [[token]]
      | line :: below => (token :: line) :: below

/-- Read the statements of lines, one after another. -/
def readLines (store : TokenStore) : List (List TokenId) → Except AssemblyError (List Statement)
  | [] => .ok []
  | line :: below => do
    let statements ← store.readLine line
    let others ← store.readLines below
    .ok (statements ++ others)

/-- The statements that tokens stand for. -/
def statements (store : TokenStore) (tokens : List TokenId) :
    Except AssemblyError (List Statement) :=
  store.readLines (store.lines tokens)

end TokenStore

end VectorStack
