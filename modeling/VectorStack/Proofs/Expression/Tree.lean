import VectorStack.Assembly.Expression
/-!
Expressions as trees, and the ways to write them. An operator may stand without parentheses where
operators of its precedence may; a group in parentheses may stand wherever a value may, and so may
a value behind plus signs. Operators of one precedence group from left to right.
-/

namespace VectorStack.Expression

inductive UnaryOperator where
  | neg | not
deriving DecidableEq, Repr

inductive BinaryOperator where
  | add | sub | mul | div
deriving DecidableEq, Repr

/-- The step of an evaluation that performs the operator. -/
def UnaryOperator.node : UnaryOperator → ExpressionNode
  | neg => .neg
  | not => .not

/-- What the operator is written as. -/
def UnaryOperator.sign : UnaryOperator → TokenKind
  | neg => .minus
  | not => .tilde

/-- The step of an evaluation that performs the operator. -/
def BinaryOperator.node : BinaryOperator → ExpressionNode
  | add => .add
  | sub => .sub
  | mul => .mul
  | div => .div

/-- What the operator is written as. -/
def BinaryOperator.sign : BinaryOperator → TokenKind
  | add => .plus
  | sub => .minus
  | mul => .star
  | div => .slash

/-- An expression as a tree of operators. -/
inductive Tree where
  /-- A number or a label name. -/
  | leaf (token : TokenId)
  | unary (op : UnaryOperator) (operand : Tree)
  | binary (op : BinaryOperator) (left right : Tree)
deriving DecidableEq, Repr

/-- Operands before their operators, in the order in which they are evaluated. -/
def Tree.nodes : Tree → List ExpressionNode
  | leaf token => [.leaf token]
  | unary op operand => operand.nodes ++ [op.node]
  | binary op left right => left.nodes ++ right.nodes ++ [op.node]

/-- The precedence of sums, from which on all operators may stand. -/
def loosest : Nat := 1

/-- The precedence of unary operators. -/
def tightest : Nat := 3

/-- The ways to write a tree where operators outside of parentheses have at least the precedence
`level`. -/
inductive Renders (store : TokenStore) : (level : Nat) → Tree → List TokenId → Prop
  | leaf {level : Nat} {token : TokenId}
      (hkind : store.kind token = .number ∨ store.kind token = .word) :
      Renders store level (.leaf token) [token]
  | group {level : Nat} {tree : Tree} {opening closing : TokenId} {inner : List TokenId}
      (hopening : store.kind opening = .openParen) (hclosing : store.kind closing = .closeParen)
      (hinner : Renders store loosest tree inner) :
      Renders store level tree (opening :: (inner ++ [closing]))
  | plus {level : Nat} {tree : Tree} {sign : TokenId} {behind : List TokenId}
      (hlevel : level ≤ tightest) (hsign : store.kind sign = .plus)
      (hbehind : Renders store tightest tree behind) : Renders store level tree (sign :: behind)
  | unary {level : Nat} {op : UnaryOperator} {operand : Tree} {sign : TokenId}
      {behind : List TokenId} (hlevel : level ≤ tightest) (hsign : store.kind sign = op.sign)
      (hoperand : Renders store tightest operand behind) :
      Renders store level (.unary op operand) (sign :: behind)
  | binary {level : Nat} {op : BinaryOperator} {left right : Tree} {sign : TokenId}
      {before behind : List TokenId} (hlevel : level ≤ op.node.precedence)
      (hsign : store.kind sign = op.sign)
      (hleft : Renders store op.node.precedence left before)
      (hright : Renders store (op.node.precedence + 1) right behind) :
      Renders store level (.binary op left right) (before ++ sign :: behind)

/-- A value ends with a number, a word or a closing parenthesis. -/
def endsValue : TokenKind → Bool
  | .number | .word | .closeParen => true
  | _ => false

/-- The signs that mean nothing where a value is missing. -/
def isFactorSign : TokenKind → Bool
  | .star | .slash => true
  | _ => false

/-- Number of signs `*` and `/` that stand where a value is missing, with or without a value right
before the tokens. -/
def strays (store : TokenStore) : (afterValue : Bool) → List TokenId → Nat
  | _, [] => 0
  | afterValue, token :: rest =>
    (if isFactorSign (store.kind token) && !afterValue then 1 else 0) +
      strays store (endsValue (store.kind token)) rest

theorem UnaryOperator.precedence_node (op : UnaryOperator) : op.node.precedence = tightest := by
  cases op <;> rfl

theorem UnaryOperator.unary?_sign (op : UnaryOperator) :
    ExpressionNode.unary? op.sign = some [op.node] := by
  cases op <;> rfl

theorem BinaryOperator.binary?_sign (op : BinaryOperator) :
    ExpressionNode.binary? op.sign = some op.node := by
  cases op <;> rfl

theorem BinaryOperator.loosest_le (op : BinaryOperator) : loosest ≤ op.node.precedence := by
  cases op <;> decide

theorem BinaryOperator.precedence_lt (op : BinaryOperator) : op.node.precedence < tightest := by
  cases op <;> decide

theorem BinaryOperator.isFactorSign_of_unary? (op : BinaryOperator)
    (hunary : ExpressionNode.unary? op.sign = none) : isFactorSign op.sign = true := by
  cases op with
  | add | sub => cases hunary
  | mul | div => rfl

/-- What a sign stands for where a value is missing. -/
theorem plus_or_exists_unaryOperator {kind : TokenKind} {ops : List ExpressionNode}
    (hops : ExpressionNode.unary? kind = some ops) :
    kind = .plus ∧ ops = [] ∨ ∃ op : UnaryOperator, kind = op.sign ∧ ops = [op.node] := by
  unfold ExpressionNode.unary? at hops
  split at hops <;> cases hops
  · exact .inl ⟨rfl, rfl⟩
  · exact .inr ⟨.neg, rfl, rfl⟩
  · exact .inr ⟨.not, rfl, rfl⟩

/-- What a sign behind a value stands for. -/
theorem exists_binaryOperator {kind : TokenKind} {node : ExpressionNode}
    (hnode : ExpressionNode.binary? kind = some node) :
    ∃ op : BinaryOperator, kind = op.sign ∧ node = op.node := by
  unfold ExpressionNode.binary? at hnode
  split at hnode <;> cases hnode
  · exact ⟨.add, rfl, rfl⟩
  · exact ⟨.sub, rfl, rfl⟩
  · exact ⟨.mul, rfl, rfl⟩
  · exact ⟨.div, rfl, rfl⟩

namespace Renders

variable {store : TokenStore} {level lower : Nat} {tree : Tree} {tokens : List TokenId}

/-- What may stand among tighter operators may stand among looser ones. -/
theorem mono (hrenders : Renders store level tree tokens) (hlower : lower ≤ level) :
    Renders store lower tree tokens := by
  cases hrenders with
  | leaf hkind => exact .leaf hkind
  | group hopening hclosing hinner => exact .group hopening hclosing hinner
  | plus hlevel hsign hbehind => exact .plus (Nat.le_trans hlower hlevel) hsign hbehind
  | unary hlevel hsign hoperand => exact .unary (Nat.le_trans hlower hlevel) hsign hoperand
  | binary hlevel hsign hleft hright =>
      exact .binary (Nat.le_trans hlower hlevel) hsign hleft hright

/-- An expression goes on with a binary operator and a value: the operator takes the part before it
that binds at least as tight. -/
theorem exists_binary {op : BinaryOperator} {value : Tree} {sign : TokenId}
    {behind : List TokenId} (hrenders : Renders store level tree tokens)
    (hlevel : level ≤ op.node.precedence) (hsign : store.kind sign = op.sign)
    (hvalue : Renders store tightest value behind) :
    ∃ longer, Renders store level longer (tokens ++ sign :: behind) := by
  have hright : Renders store (op.node.precedence + 1) value behind :=
    hvalue.mono op.precedence_lt
  induction hrenders with
  | leaf hkind => exact ⟨_, .binary hlevel hsign (.leaf hkind) hright⟩
  | group hopening hclosing hinner =>
      exact ⟨_, .binary hlevel hsign (.group hopening hclosing hinner) hright⟩
  | plus _ hplus hbehind =>
      exact ⟨_, .binary hlevel hsign (.plus (Nat.le_of_lt op.precedence_lt) hplus hbehind) hright⟩
  | unary _ hunary hoperand =>
      exact ⟨_, .binary hlevel hsign
        (.unary (Nat.le_of_lt op.precedence_lt) hunary hoperand) hright⟩
  | @binary _ first left right firstSign before between hfirst hfirstSign hleft hmiddle _ ih =>
      by_cases htighter : first.node.precedence < op.node.precedence
      · -- the new operator takes the right operand of the one before it
        obtain ⟨longer, hlonger⟩ := ih htighter
        exact ⟨_, by
          rw [List.append_assoc]
          exact .binary hfirst hfirstSign hleft hlonger⟩
      · exact ⟨_, .binary hlevel hsign
          (.binary (Nat.le_of_not_lt htighter) hfirstSign hleft hmiddle) hright⟩

end Renders

end VectorStack.Expression
