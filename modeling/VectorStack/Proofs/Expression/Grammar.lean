import VectorStack.Proofs.Checked
import VectorStack.Proofs.Expression.Value
/-!
The expressions that are read. What stands between the parentheses is written by the grammar, and
its nodes are those of its tree, exactly if no `*` or `/` stands where a value is missing. With such
a sign there are too many operators for the values, and the evaluation never comes to a value.
-/

namespace VectorStack.Expression

variable {store : TokenStore}

/-- The tokens are the beginning of an expression that goes on with a value. -/
def Awaits (store : TokenStore) (tokens : List TokenId) : Prop :=
  ∀ value behind, Renders store tightest value behind →
    ∃ tree, Renders store loosest tree (tokens ++ behind)

section Awaiting

variable {tokens : List TokenId} {sign : TokenId}

theorem awaits_nil : Awaits store [] :=
  fun value _ hvalue => ⟨value, hvalue.mono (by decide)⟩

theorem Awaits.plus (hawaits : Awaits store tokens) (hsign : store.kind sign = .plus) :
    Awaits store (tokens ++ [sign]) := by
  intro value behind hvalue
  rw [List.append_assoc]
  exact hawaits value (sign :: behind) (.plus (Nat.le_refl _) hsign hvalue)

theorem Awaits.unary {op : UnaryOperator} (hawaits : Awaits store tokens)
    (hsign : store.kind sign = op.sign) : Awaits store (tokens ++ [sign]) := by
  intro value behind hvalue
  rw [List.append_assoc]
  exact hawaits (.unary op value) (sign :: behind) (.unary (Nat.le_refl _) hsign hvalue)

theorem Renders.awaits {tree : Tree} {op : BinaryOperator}
    (hrenders : Renders store loosest tree tokens) (hsign : store.kind sign = op.sign) :
    Awaits store (tokens ++ [sign]) := by
  intro value behind hvalue
  rw [List.append_assoc]
  exact hrenders.exists_binary op.loosest_le hsign hvalue

/-- The tokens are an expression, or await a value. -/
def Begins (store : TokenStore) (tokens : List TokenId) : (afterValue : Bool) → Prop
  | true => ∃ tree, Renders store loosest tree tokens
  | false => Awaits store tokens

end Awaiting

/-- Tokens up to the opening parenthesis of the innermost group, and how many groups are open. -/
inductive Opens (store : TokenStore) : (depth : Nat) → List TokenId → Prop
  | start : Opens store 0 []
  | group {depth : Nat} {before tokens : List TokenId} {opening : TokenId}
      (hbefore : Opens store depth before) (hawaits : Awaits store tokens)
      (hopening : store.kind opening = .openParen) :
      Opens store (depth + 1) (before ++ tokens ++ [opening])

theorem strays_of_cons {afterValue : Bool} {token : TokenId} {rest : List TokenId}
    (hstrays : strays store afterValue (token :: rest) = 0) :
    strays store (endsValue (store.kind token)) rest = 0 :=
  (Nat.add_eq_zero_iff.mp hstrays).2

theorem BinaryOperator.endsValue_sign (op : BinaryOperator) : endsValue op.sign = false := by
  cases op <;> rfl

theorem UnaryOperator.endsValue_sign (op : UnaryOperator) : endsValue op.sign = false := by
  cases op <;> rfl

theorem UnaryOperator.isFactorSign_sign (op : UnaryOperator) : isFactorSign op.sign = false := by
  cases op <;> rfl

/-- Without strays, what is read goes on as the grammar has it, in the innermost group and in those
around it. -/
theorem Reads.exists_renders {state : Partial} {inner : List TokenId} {final : List ExpressionNode}
    (hreads : Reads store state inner final) {before current : List TokenId}
    (hstrays : strays store state.afterValue inner = 0)
    (hbefore : Opens store state.outer.length before)
    (hcurrent : Begins store current state.afterValue) :
    ∃ tree, Renders store loosest tree (before ++ current ++ inner) := by
  induction hreads generalizing before current with
  | done hvalue houter =>
      rw [houter] at hbefore
      cases hbefore
      rw [hvalue] at hcurrent
      obtain ⟨tree, hrenders⟩ := hcurrent
      exact ⟨tree, by simpa using hrenders⟩
  | @close state waiting final outer token rest hvalue houter hkind _ ih =>
      rw [houter] at hbefore
      rw [hvalue] at hcurrent
      have hrest := strays_of_cons hstrays
      rw [hkind] at hrest
      cases hbefore with
      | @group _ around tokens opening haround hawaits hopening =>
          obtain ⟨tree, hrenders⟩ := hcurrent
          have hgroup := hawaits tree _ (.group hopening hkind hrenders)
          have hlonger := ih hrest haround hgroup
          simpa using hlonger
  | @binary state final op token rest hvalue hkind _ ih =>
      rw [hvalue] at hcurrent
      have hrest := strays_of_cons hstrays
      rw [hkind, op.endsValue_sign] at hrest
      obtain ⟨tree, hrenders⟩ := hcurrent
      have hlonger := ih hrest hbefore (hrenders.awaits hkind)
      simpa using hlonger
  | @leaf state final token rest hvalue hkind _ ih =>
      rw [hvalue] at hcurrent
      have hrest := strays_of_cons hstrays
      have hends : endsValue (store.kind token) = true := by
        rcases hkind with hkind | hkind <;> rw [hkind] <;> rfl
      rw [hends] at hrest
      have hlonger := ih hrest hbefore (hcurrent (.leaf token) [token] (.leaf hkind))
      simpa using hlonger
  | @plus state final token rest hvalue hkind _ ih =>
      rw [hvalue] at hcurrent ih
      have hrest := strays_of_cons hstrays
      rw [hkind] at hrest
      have hlonger := ih hrest hbefore (Awaits.plus hcurrent hkind)
      simpa using hlonger
  | @unary state final op token rest hvalue hkind _ ih =>
      rw [hvalue] at hcurrent
      have hrest := strays_of_cons hstrays
      rw [hkind, op.endsValue_sign, ← hvalue] at hrest
      have hawaits : Begins store (current ++ [token]) state.afterValue :=
        hvalue ▸ Awaits.unary hcurrent hkind
      have hlonger := ih hrest hbefore hawaits
      simpa using hlonger
  | @group state final token rest hvalue hkind _ ih =>
      rw [hvalue] at hcurrent
      have hrest := strays_of_cons hstrays
      rw [hkind] at hrest
      have hlonger := ih hrest (.group hbefore hcurrent hkind) awaits_nil
      simpa using hlonger
  | stray hvalue hkind hfactor _ _ =>
      rw [strays, hvalue, hkind, hfactor] at hstrays
      simp at hstrays

section Balance

variable {labels : String → Option Nat} {opening : TokenId}

/-- How many values more there are after a step of an evaluation. -/
def weight : ExpressionNode → Int
  | .leaf _ => 1
  | .neg | .not => 0
  | .add | .sub | .mul | .div => -1

/-- How many values more there are after the steps of an evaluation. -/
def balance (nodes : List ExpressionNode) : Int := (nodes.map weight).sum

@[simp] theorem balance_nil : balance [] = 0 := rfl

@[simp] theorem balance_cons (node : ExpressionNode) (nodes : List ExpressionNode) :
    balance (node :: nodes) = weight node + balance nodes := List.sum_cons

@[simp] theorem balance_append (nodes more : List ExpressionNode) :
    balance (nodes ++ more) = balance nodes + balance more := by
  rw [balance, List.map_append, List.sum_append]
  rfl

@[simp] theorem balance_reverse (nodes : List ExpressionNode) :
    balance nodes.reverse = balance nodes := by
  rw [balance, List.map_reverse, List.sum_reverse]
  rfl

theorem UnaryOperator.weight_node (op : UnaryOperator) : weight op.node = 0 := by
  cases op <;> rfl

theorem BinaryOperator.weight_node (op : BinaryOperator) : weight op.node = -1 := by
  cases op <;> rfl

theorem Tree.balance_nodes (tree : Tree) : balance tree.nodes = 1 := by
  induction tree with
  | leaf token => rfl
  | unary op operand ih => simp [nodes, ih, op.weight_node]
  | binary op left right ihLeft ihRight => simp [nodes, ihLeft, ihRight, op.weight_node]

/-- How many values more there are after what is finished and what waits. -/
def Partial.balance (state : Partial) : Int :=
  Expression.balance state.nodes + Expression.balance state.waiting +
    Expression.balance state.outer.flatten

theorem Partial.balance_pushBinary (state : Partial) (op : ExpressionNode) :
    (state.pushBinary op).balance = state.balance + weight op := by
  have hwaiting := List.prefix_iff_eq_append.mp (List.takeWhile_prefix
    (fun other : ExpressionNode => op.precedence ≤ other.precedence) (l := state.waiting))
  have hsplit := congrArg Expression.balance hwaiting
  rw [balance_append] at hsplit
  simp [pushBinary, balance]
  omega

/-- What is read has one value left at its end, less one for every stray. -/
theorem Reads.balance_eq {state : Partial} {inner : List TokenId} {final : List ExpressionNode}
    (hreads : Reads store state inner final) :
    balance final + strays store state.afterValue inner =
      state.balance + if state.afterValue then 0 else 1 := by
  induction hreads with
  | done hvalue houter =>
      simp [strays, Partial.balance, Partial.closeGroup, hvalue, houter]
  | close hvalue houter hkind _ ih =>
      simp [strays, Partial.balance, Partial.closeGroup, hvalue, houter, hkind, endsValue,
        isFactorSign] at ih ⊢
      omega
  | @binary state final op token rest hvalue hkind _ ih =>
      rw [Partial.balance_pushBinary] at ih
      simp [strays, hvalue, hkind, op.endsValue_sign, op.weight_node, Partial.pushBinary] at ih ⊢
      omega
  | @leaf state final token rest hvalue hkind _ ih =>
      rcases hkind with hkind | hkind <;>
        simp [strays, Partial.balance, hvalue, hkind, endsValue, isFactorSign, weight] at ih ⊢ <;>
        omega
  | plus hvalue hkind _ ih =>
      simp [strays, hvalue, hkind, endsValue, isFactorSign] at ih ⊢
      omega
  | @unary state final op token rest hvalue hkind _ ih =>
      simp [strays, Partial.balance, hvalue, hkind, op.endsValue_sign, op.isFactorSign_sign,
        op.weight_node] at ih ⊢
      omega
  | group hvalue hkind _ ih =>
      simp [strays, Partial.balance, hvalue, hkind, endsValue, isFactorSign] at ih ⊢
      omega
  | @stray state final op token rest hvalue hkind hfactor _ ih =>
      rw [Partial.balance_pushBinary] at ih
      simp [strays, hvalue, hkind, hfactor, op.endsValue_sign, op.weight_node,
        Partial.pushBinary] at ih ⊢
      omega

theorem exists_operator (node : ExpressionNode) : (∃ token, node = .leaf token) ∨
    (∃ op : UnaryOperator, node = op.node) ∨ ∃ op : BinaryOperator, node = op.node := by
  cases node with
  | leaf token => exact .inl ⟨token, rfl⟩
  | neg => exact .inr (.inl ⟨.neg, rfl⟩)
  | not => exact .inr (.inl ⟨.not, rfl⟩)
  | add => exact .inr (.inr ⟨.add, rfl⟩)
  | sub => exact .inr (.inr ⟨.sub, rfl⟩)
  | mul => exact .inr (.inr ⟨.mul, rfl⟩)
  | div => exact .inr (.inr ⟨.div, rfl⟩)

/-- A step of an evaluation that comes to a value changes the number of values by its weight. -/
theorem evaluateOn_cons_eq_ok {node : ExpressionNode} {nodes : List ExpressionNode}
    {stack : List Number} {value : Number}
    (hevaluate : evaluateOn store labels opening (node :: nodes) stack = .ok value) :
    ∃ left, evaluateOn store labels opening nodes left = .ok value ∧
      (left.length : Int) = stack.length + weight node := by
  rcases exists_operator node with ⟨token, rfl⟩ | ⟨op, rfl⟩ | ⟨op, rfl⟩
  · obtain ⟨first, -, hrest⟩ := bind_eq_ok.mp hevaluate
    exact ⟨first :: stack, hrest, by simp [weight]⟩
  · cases stack with
    | nil => cases op <;> cases hevaluate
    | cons first stack =>
        rw [evaluateOn_unary] at hevaluate
        split at hevaluate
        · exact ⟨_, hevaluate, by simp [op.weight_node]⟩
        · cases hevaluate
  · cases stack with
    | nil => cases op <;> cases hevaluate
    | cons second stack =>
        cases stack with
        | nil => cases op <;> cases hevaluate
        | cons first stack =>
            rw [evaluateOn_binary] at hevaluate
            split at hevaluate
            · exact ⟨_, hevaluate, by simp [op.weight_node]⟩
            · cases hevaluate

/-- An evaluation that comes to a value leaves just this one. -/
theorem balance_of_evaluateOn_eq_ok {nodes : List ExpressionNode} {stack : List Number}
    {value : Number} (hevaluate : evaluateOn store labels opening nodes stack = .ok value) :
    balance nodes + stack.length = 1 := by
  induction nodes generalizing stack with
  | nil =>
      match stack, hevaluate with
      | [_], _ => rfl
  | cons node nodes ih =>
      obtain ⟨left, hrest, hlength⟩ := evaluateOn_cons_eq_ok hevaluate
      have hleft := ih hrest
      rw [balance_cons]
      omega

/-- An expression that is read has the nodes of a tree only if there are no strays. -/
theorem Reads.strays_eq_zero_of_nodes {inner : List TokenId} {tree : Tree}
    (hreads : Reads store .start inner tree.nodes) : strays store false inner = 0 := by
  have hbalance := hreads.balance_eq
  rw [tree.balance_nodes] at hbalance
  simpa [Partial.start, Partial.balance] using hbalance

theorem Reads.strays_eq_zero_of_evaluate {inner : List TokenId} {final : List ExpressionNode}
    {value : Number} (hreads : Reads store .start inner final)
    (hevaluate : evaluate ⟨final, opening⟩ store labels = .ok value) :
    strays store false inner = 0 := by
  have hbalance := hreads.balance_eq
  have hleft := balance_of_evaluateOn_eq_ok hevaluate
  simp [Partial.start, Partial.balance] at hbalance hleft
  omega

end Balance

section Faults

variable {labels : String → Option Nat} {opening : TokenId} {error : AssemblyError}

theorem leafValue_ne_malformed {token : TokenId}
    (hleaf : leafValue store labels token = .error error) :
    error.fault ≠ .evaluation "malformed expression" := by
  unfold leafValue at hleaf
  split at hleaf <;> split at hleaf <;> cases hleaf <;> exact nofun

/-- A tree has an operand for every operator. -/
theorem Tree.number_ne_malformed {tree : Tree}
    (hnumber : tree.number store labels opening = .error error) :
    error.fault ≠ .evaluation "malformed expression" := by
  induction tree with
  | leaf token => exact leafValue_ne_malformed hnumber
  | unary op operand ih =>
      rcases bind_eq_error.mp hnumber with hoperand | ⟨value, -, happly⟩
      · exact ih hoperand
      · split at happly <;> cases happly
        simp [TokenStore.faultAt]
  | binary op left right ihLeft ihRight =>
      rcases bind_eq_error.mp hnumber with hleft | ⟨first, -, hrest⟩
      · exact ihLeft hleft
      · rcases bind_eq_error.mp hrest with hright | ⟨second, -, hbinary⟩
        · exact ihRight hright
        · split at hbinary <;> cases hbinary
          simp [TokenStore.faultAt]

end Faults

/-- What is read is an expression of the grammar in parentheses, with the nodes of its tree, exactly
if no `*` or `/` stands where a value is missing. Then it is never found to be malformed; else it
never has a value. -/
theorem parse_ok_grammar {tokens rest : List TokenId} {expression : Expression}
    (hparse : parse store tokens = .ok (expression, rest)) :
    ∃ inner closing, tokens = expression.opening :: (inner ++ closing :: rest) ∧
      store.kind expression.opening = .openParen ∧ store.kind closing = .closeParen ∧
      (strays store false inner = 0 ↔
        ∃ tree, Renders store loosest tree inner ∧ expression.nodes = tree.nodes) ∧
      (strays store false inner = 0 → ∀ labels error,
        evaluate expression store labels = .error error →
          error.fault ≠ .evaluation "malformed expression") ∧
      (strays store false inner ≠ 0 → ∀ labels value,
        evaluate expression store labels ≠ .ok value) := by
  cases tokens with
  | nil => cases hparse
  | cons opening behind =>
      rw [parse] at hparse
      split at hparse
      · next hopening =>
          obtain ⟨nodes, first⟩ := expression
          obtain ⟨hfirst, inner, closing, rfl, hclosing, hreads⟩ := reads_of_parseInside hparse
          cases hfirst
          have hgrammar : strays store false inner = 0 →
              ∃ tree, Renders store loosest tree inner ∧ nodes = tree.nodes := by
            intro hstrays
            obtain ⟨tree, hbehind⟩ := hreads.exists_renders hstrays .start awaits_nil
            have hrenders : Renders store loosest tree inner := hbehind
            have hread := hrenders.parse_eq hopening hclosing rest
            rw [parse, if_pos hopening, hparse] at hread
            cases hread
            exact ⟨tree, hrenders, rfl⟩
          refine ⟨inner, closing, rfl, hopening, hclosing, ⟨hgrammar, ?_⟩, ?_, ?_⟩
          · rintro ⟨tree, -, rfl⟩
            exact hreads.strays_eq_zero_of_nodes
          · intro hstrays labels error herror
            obtain ⟨tree, -, rfl⟩ := hgrammar hstrays
            rw [evaluate_nodes] at herror
            exact Tree.number_ne_malformed herror
          · intro hstrays labels value hvalue
            exact hstrays (hreads.strays_eq_zero_of_evaluate hvalue)
      · cases hparse

theorem parse_ok_grammar_minus :
    let store := (TokenStore.empty.load "expr" "(-1)".toList).2
    parse store [0, 1, 2, 3] = .ok (⟨[.leaf 2, .neg], 0⟩, []) ∧
      ∃ tree, Renders store loosest tree [1, 2] ∧ [.leaf 2, .neg] = tree.nodes := by
  intro store
  have hparse : parse store [0, 1, 2, 3] = .ok (⟨[.leaf 2, .neg], 0⟩, []) := by decide +kernel
  obtain ⟨inner, closing, hsplit, -, -, hgrammar, -⟩ := parse_ok_grammar hparse
  have hinner : [1, 2] ++ [3] = inner ++ [closing] := List.tail_eq_of_cons_eq hsplit
  obtain ⟨rfl, -⟩ := List.append_inj' hinner rfl
  exact ⟨hparse, hgrammar.mp (by decide +kernel)⟩

/-- A product without its first operand is read although it is no expression, and is found to be
malformed when it is evaluated. -/
theorem parse_stray_star :
    let store := (TokenStore.empty.load "expr" "(* 2)".toList).2
    parse store [0, 1, 2, 3] = .ok (⟨[.leaf 2, .mul], 0⟩, []) ∧
      (¬ ∃ tree, Renders store loosest tree [1, 2]) ∧
      ∀ labels, evaluate ⟨[.leaf 2, .mul], 0⟩ store labels =
        .error (store.faultAt 0 (.evaluation "malformed expression")) := by
  intro store
  have hparse : parse store [0, 1, 2, 3] = .ok (⟨[.leaf 2, .mul], 0⟩, []) := by decide +kernel
  obtain ⟨hopening, hnumber, hclosing⟩ : store.kind 0 = .openParen ∧ store.kind 2 = .number ∧
      store.kind 3 = .closeParen := by decide +kernel
  have htwo : Number.parse? (store.chars 2) = some (.integer 2) := by decide +kernel
  refine ⟨hparse, ?_, fun labels => ?_⟩
  · rintro ⟨tree, hrenders⟩
    have hread : parse store [0, 1, 2, 3] = _ := hrenders.parse_eq hopening hclosing []
    rw [hparse] at hread
    have hnodes : [.leaf 2, .mul] = tree.nodes :=
      congrArg (fun read => read.1.nodes) (Except.ok.inj hread)
    have hbalance := tree.balance_nodes
    rw [← hnodes] at hbalance
    exact absurd hbalance (by decide)
  · have hleaf : leafValue store labels 2 = .ok (.integer 2) := by
      simp [leafValue, hnumber, htwo]
    rw [evaluate, evaluateOn, hleaf]
    rfl

end VectorStack.Expression
