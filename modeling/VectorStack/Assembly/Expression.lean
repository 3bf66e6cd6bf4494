import VectorStack.Assembly.Error
import VectorStack.Text.Escape
import VectorStack.Token.Number
/-!
Constant expressions: numbers, label names, the binary operators `+ - * /` with the usual
precedence, unary `-`, `~` and `+`, and parentheses. An expression is kept in postfix order, in
which it is evaluated with a stack.
-/

namespace VectorStack

namespace TokenStore

/-- The characters of a token as a message shows them. -/
def shown (store : TokenStore) (id : TokenId) : String :=
  String.ofList (Text.escape (store.chars id))

/-- The message for a token that is not what was expected. -/
def unexpected (store : TokenStore) (id : TokenId) (what : String) : String :=
  "expected " ++ what ++ ", found `" ++ store.shown id ++ "`"

end TokenStore

/-- One step of a postfix expression. -/
inductive ExpressionNode where
  /-- A number or a label name. -/
  | leaf (token : TokenId)
  | neg | not
  | add | sub | mul | div
deriving DecidableEq, Repr

/-- A constant expression in postfix order. -/
structure Expression where
  nodes : List ExpressionNode
  /-- The opening parenthesis, where faults of evaluation are reported. -/
  opening : TokenId
deriving DecidableEq, Repr

namespace ExpressionNode

/-- Operators with a higher precedence bind tighter. -/
def precedence : ExpressionNode → Nat
  | leaf _ => 0
  | add | sub => 1
  | mul | div => 2
  | neg | not => 3

/-- The unary operator that a token stands for where a value is expected; a plus sign stands for
none. -/
def unary? : TokenKind → Option (List ExpressionNode)
  | .plus => some []
  | .minus => some [neg]
  | .tilde => some [not]
  | _ => none

/-- The binary operator that a token stands for. -/
def binary? : TokenKind → Option ExpressionNode
  | .plus => some add
  | .minus => some sub
  | .star => some mul
  | .slash => some div
  | _ => none

end ExpressionNode

namespace Expression

/-- Whether the value depends on where a label is. -/
def referencesLabel (expression : Expression) (store : TokenStore) : Bool :=
  expression.nodes.any fun node =>
    match node with
    | .leaf token => store.kind token == .word
    | _ => false

/-- What is known in the middle of an expression. -/
structure Partial where
  /-- Finished nodes, the last one first. -/
  nodes : List ExpressionNode
  /-- Operators of the innermost open group that still wait for a value, the last one first. -/
  waiting : List ExpressionNode
  /-- Waiting operators of the groups around it, innermost first. -/
  outer : List (List ExpressionNode)
  /-- Whether a value stands right before. -/
  afterValue : Bool
deriving DecidableEq, Repr

namespace Partial

/-- Behind the opening parenthesis. -/
def start : Partial := ⟨[], [], [], false⟩

/-- Finish the waiting operators that bind at least as tight as a binary one, which then waits. -/
def pushBinary (state : Partial) (op : ExpressionNode) : Partial :=
  let tight := state.waiting.takeWhile fun other => op.precedence ≤ other.precedence
  { state with
    nodes := tight.reverse ++ state.nodes
    waiting := op :: state.waiting.drop tight.length
    afterValue := false }

/-- Finish all waiting operators of the innermost group. -/
def closeGroup (state : Partial) : List ExpressionNode := state.waiting.reverse ++ state.nodes

end Partial

/-- A value is missing, or an operator is missing, at a token. -/
def expected (store : TokenStore) (token : TokenId) (what : String) : AssemblyError :=
  store.faultAt token (.grammar (store.unexpected token what))

/-- Read an expression from behind its opening parenthesis to the matching closing one. The second
part of the result is what follows it. The signs `*` and `/` are taken as they come: without a value
before them the expression reads, and has no value. -/
def parseInside (store : TokenStore) (opening : TokenId) (state : Partial) :
    List TokenId → Except AssemblyError (WithRest Expression)
  | [] => .error (store.faultAt opening (.grammar "unterminated expression"))
  | token :: rest =>
    let kind := store.kind token
    if state.afterValue then
      match kind, ExpressionNode.binary? kind with
      | _, some op => parseInside store opening (state.pushBinary op) rest
      | .closeParen, none =>
        match state.outer with
        | [] => .ok (⟨state.closeGroup.reverse, opening⟩, rest)
        | waiting :: outer =>
          parseInside store opening ⟨state.closeGroup, waiting, outer, true⟩ rest
      | .number, none | .word, none | .openParen, none =>
        .error (expected store token "an operator")
      | _, none => .error (expected store token "an operator or `)`")
    else
      match kind, ExpressionNode.unary? kind, ExpressionNode.binary? kind with
      | _, some ops, _ =>
        parseInside store opening { state with waiting := ops ++ state.waiting } rest
      | _, none, some op => parseInside store opening (state.pushBinary op) rest
      | .number, none, none | .word, none, none =>
        parseInside store opening
          { state with nodes := .leaf token :: state.nodes, afterValue := true } rest
      | .openParen, none, none =>
        parseInside store opening ⟨state.nodes, [], state.waiting :: state.outer, false⟩ rest
      | _, none, none => .error (expected store token "a value")

/-- Read an expression in parentheses. The second part of the result is what follows it. -/
def parse (store : TokenStore) : List TokenId → Except AssemblyError (WithRest Expression)
  | [] => .error ⟨.grammar "expected `(`, found end of input", []⟩
  | opening :: rest =>
    if store.kind opening = .openParen then parseInside store opening .start rest
    else .error (store.faultAt opening (.grammar "expected `(`"))

/-- The value of a number or a label. -/
def leafValue (store : TokenStore) (labels : String → Option Nat) (token : TokenId) :
    Except AssemblyError Number :=
  if store.kind token = .word then
    match labels (store.text token) with
    | some address => .ok (.ofNat address)
    | none => .error (store.faultAt token (.unknownLabel (store.text token)))
  else
    match Number.parse? (store.chars token) with
    | some number => .ok number
    | none => .error (store.faultAt token (.invalidToken (store.text token)))

/-- A binary operation, on integers when both values are; none for an integer divided by zero. -/
def binary? (op : ExpressionNode) : Number → Number → Option Number
  | .integer a, .integer b =>
    match op with
    | .add => some (.integer (a + b))
    | .sub => some (.integer (a - b))
    | .mul => some (.integer (a * b))
    | _ => if b = 0 then none else some (.integer (Cell.ofInt (a.signed.tdiv b.signed)))
  | a, b =>
    let x := a.toFloat
    let y := b.toFloat
    some (.real (Cell.ofFloat (match op with
      | .add => x + y
      | .sub => x - y
      | .mul => x * y
      | _ => x / y)))

/-- Evaluate postfix nodes on a stack of values, the last one first. -/
def evaluateOn (store : TokenStore) (labels : String → Option Nat) (opening : TokenId) :
    List ExpressionNode → List Number → Except AssemblyError Number
  | [], [value] => .ok value
  | .leaf token :: rest, stack => do
    let value ← leafValue store labels token
    evaluateOn store labels opening rest (value :: stack)
  | .neg :: rest, value :: stack => evaluateOn store labels opening rest (value.neg :: stack)
  | .not :: rest, .integer cell :: stack =>
    evaluateOn store labels opening rest (.integer (~~~cell) :: stack)
  | .not :: _, .real _ :: _ => .error (store.faultAt opening (.evaluation "`~` needs an integer"))
  | op :: rest, b :: a :: stack =>
    match binary? op a b with
    | some value => evaluateOn store labels opening rest (value :: stack)
    | none => .error (store.faultAt opening (.evaluation "division by zero"))
  | _, _ => .error (store.faultAt opening (.evaluation "malformed expression"))

/-- The value of an expression, with label names looked up in `labels`. -/
def evaluate (expression : Expression) (store : TokenStore) (labels : String → Option Nat) :
    Except AssemblyError Number :=
  evaluateOn store labels expression.opening expression.nodes []

end Expression

end VectorStack
