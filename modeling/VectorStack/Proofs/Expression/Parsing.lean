import VectorStack.Assembly.Statement
import VectorStack.Proofs.Expression.Tree
/-!
Reading expressions. Every way to write a tree is read as the nodes of the tree, up to the matching
parenthesis and whatever follows. What is read is written in one of these ways, unless a `*` or `/`
stands where a value is missing.
-/

namespace VectorStack.Expression

variable {store : TokenStore} {opening : TokenId} {nodes waiting : List ExpressionNode}
  {outer : List (List ExpressionNode)}

theorem parseInside_leaf {token : TokenId} (rest : List TokenId)
    (hkind : store.kind token = .number ∨ store.kind token = .word) :
    parseInside store opening ⟨nodes, waiting, outer, false⟩ (token :: rest) =
      parseInside store opening ⟨.leaf token :: nodes, waiting, outer, true⟩ rest := by
  rw [parseInside]
  rcases hkind with hkind | hkind <;>
    simp [hkind, ExpressionNode.unary?, ExpressionNode.binary?]

theorem parseInside_unary {token : TokenId} {ops : List ExpressionNode} (rest : List TokenId)
    (hops : ExpressionNode.unary? (store.kind token) = some ops) :
    parseInside store opening ⟨nodes, waiting, outer, false⟩ (token :: rest) =
      parseInside store opening ⟨nodes, ops ++ waiting, outer, false⟩ rest := by
  rw [parseInside]
  simp [hops]

theorem parseInside_open {token : TokenId} (rest : List TokenId)
    (hkind : store.kind token = .openParen) :
    parseInside store opening ⟨nodes, waiting, outer, false⟩ (token :: rest) =
      parseInside store opening ⟨nodes, [], waiting :: outer, false⟩ rest := by
  rw [parseInside]
  simp [hkind, ExpressionNode.unary?, ExpressionNode.binary?]

theorem parseInside_close {token : TokenId} {around : List ExpressionNode} (rest : List TokenId)
    (hkind : store.kind token = .closeParen) :
    parseInside store opening ⟨nodes, waiting, around :: outer, true⟩ (token :: rest) =
      parseInside store opening ⟨waiting.reverse ++ nodes, around, outer, true⟩ rest := by
  rw [parseInside]
  simp [hkind, ExpressionNode.binary?, Partial.closeGroup]

theorem parseInside_end {token : TokenId} (rest : List TokenId)
    (hkind : store.kind token = .closeParen) :
    parseInside store opening ⟨nodes, waiting, [], true⟩ (token :: rest) =
      .ok (⟨(waiting.reverse ++ nodes).reverse, opening⟩, rest) := by
  rw [parseInside]
  simp [hkind, ExpressionNode.binary?, Partial.closeGroup]

/-- The operators of a value that still wait bind at least as tight as a binary operator behind it,
which is what they are finished for; those before them do not. -/
theorem parseInside_binary {token : TokenId} {op : BinaryOperator}
    {pending : List ExpressionNode} (rest : List TokenId) (hkind : store.kind token = op.sign)
    (hpending : ∀ other ∈ pending, op.node.precedence ≤ other.precedence)
    (hwaiting : ∀ other ∈ waiting.head?, other.precedence < op.node.precedence) :
    parseInside store opening ⟨nodes, pending ++ waiting, outer, true⟩ (token :: rest) =
      parseInside store opening
        ⟨pending.reverse ++ nodes, op.node :: waiting, outer, false⟩ rest := by
  have htight : (pending ++ waiting).takeWhile
      (fun other => op.node.precedence ≤ other.precedence) = pending := by
    rw [List.takeWhile_append_of_pos (by simpa using hpending)]
    cases waiting with
    | nil => exact List.append_nil pending
    | cons other rest =>
        have hloose := hwaiting other rfl
        rw [List.takeWhile_cons_of_neg (by simpa using hloose), List.append_nil]
  rw [parseInside]
  simp [hkind, op.binary?_sign, Partial.pushBinary, htight]

/-- A binary operator of the precedence `level` or of a higher one does not finish operators that
wait. -/
def Leaves (level : Nat) (waiting : List ExpressionNode) : Prop :=
  ∀ op : BinaryOperator, level ≤ op.node.precedence →
    ∀ other ∈ waiting.head?, other.precedence < op.node.precedence

theorem leaves_tightest (waiting : List ExpressionNode) : Leaves tightest waiting :=
  fun op hlevel => absurd op.precedence_lt (Nat.not_lt.mpr hlevel)

theorem leaves_cons (op : BinaryOperator) (waiting : List ExpressionNode) :
    Leaves (op.node.precedence + 1) (op.node :: waiting) := by
  intro tighter hlevel other hmem
  cases hmem
  exact hlevel

/-- Reading what a tree is written as finishes the nodes of the tree, up to operators that wait for
more to come. -/
theorem Renders.parseInside_eq {level : Nat} {tree : Tree} {tokens : List TokenId}
    (hrenders : Renders store level tree tokens) (opening : TokenId)
    (nodes waiting : List ExpressionNode) (outer : List (List ExpressionNode))
    (hlevel : level ≤ tightest) (hleaves : Leaves level waiting) :
    ∃ finished pending, (∀ other ∈ pending, level ≤ other.precedence) ∧
      pending.reverse ++ finished = tree.nodes.reverse ++ nodes ∧
      ∀ rest, parseInside store opening ⟨nodes, waiting, outer, false⟩ (tokens ++ rest) =
        parseInside store opening ⟨finished, pending ++ waiting, outer, true⟩ rest := by
  induction hrenders generalizing nodes waiting outer with
  | @leaf level token hkind =>
      exact ⟨.leaf token :: nodes, [], by simp, rfl, fun rest => parseInside_leaf rest hkind⟩
  | @group level tree first closing inner hopening hclosing _ ih =>
      obtain ⟨finished, pending, -, hnodes, hread⟩ :=
        ih nodes [] (waiting :: outer) (by decide) (fun _ _ _ hnone => by cases hnone)
      refine ⟨tree.nodes.reverse ++ nodes, [], by simp, rfl, fun rest => ?_⟩
      rw [List.cons_append, List.append_assoc, parseInside_open _ hopening, hread,
        List.append_nil, List.singleton_append, parseInside_close rest hclosing, hnodes]
      rfl
  | @plus level tree sign behind _ hsign _ ih =>
      obtain ⟨finished, pending, hpending, hnodes, hread⟩ :=
        ih nodes waiting outer (Nat.le_refl _) (leaves_tightest waiting)
      refine ⟨finished, pending, fun other hmem => Nat.le_trans hlevel (hpending other hmem),
        hnodes, fun rest => ?_⟩
      rw [List.cons_append, parseInside_unary _ (congrArg ExpressionNode.unary? hsign)]
      exact hread rest
  | @unary level op operand sign behind _ hsign _ ih =>
      obtain ⟨finished, pending, hpending, hnodes, hread⟩ :=
        ih nodes (op.node :: waiting) outer (Nat.le_refl _)
          (leaves_tightest (op.node :: waiting))
      refine ⟨finished, pending ++ [op.node], ?_, ?_, fun rest => ?_⟩
      · intro other hmem
        rcases List.mem_append.mp hmem with hmem | hmem
        · exact Nat.le_trans hlevel (hpending other hmem)
        · rw [List.mem_singleton.mp hmem, op.precedence_node]
          exact hlevel
      · rw [List.reverse_append, List.append_assoc, hnodes, Tree.nodes, List.reverse_append,
          List.append_assoc]
      · rw [List.cons_append, parseInside_unary _ (hsign ▸ op.unary?_sign), List.append_assoc]
        exact hread rest
  | @binary level op left right sign before behind hop hsign _ _ ihLeft ihRight =>
      have hbelow : Leaves op.node.precedence waiting :=
        fun other hother => hleaves other (Nat.le_trans hop hother)
      obtain ⟨finished, pending, hpending, hnodes, hread⟩ :=
        ihLeft nodes waiting outer (Nat.le_of_lt op.precedence_lt) hbelow
      obtain ⟨finished', pending', hpending', hnodes', hread'⟩ :=
        ihRight (pending.reverse ++ finished) (op.node :: waiting) outer op.precedence_lt
          (leaves_cons op waiting)
      refine ⟨finished', pending' ++ [op.node], ?_, ?_, fun rest => ?_⟩
      · intro other hmem
        rcases List.mem_append.mp hmem with hmem | hmem
        · exact Nat.le_trans hop (Nat.le_of_succ_le (hpending' other hmem))
        · rw [List.mem_singleton.mp hmem]
          exact hop
      · rw [List.reverse_append, List.append_assoc, hnodes', hnodes, Tree.nodes]
        simp
      · rw [List.append_assoc, hread, List.cons_append,
          parseInside_binary _ hsign hpending (hbelow op (Nat.le_refl _)), hread',
          List.append_assoc]
        rfl

/-- An expression in parentheses is read as its nodes, up to the matching parenthesis. -/
theorem Renders.parse_eq {tree : Tree} {inner : List TokenId} {closing : TokenId}
    (hrenders : Renders store loosest tree inner) (hopening : store.kind opening = .openParen)
    (hclosing : store.kind closing = .closeParen) (rest : List TokenId) :
    parse store (opening :: (inner ++ closing :: rest)) = .ok (⟨tree.nodes, opening⟩, rest) := by
  obtain ⟨finished, pending, -, hnodes, hread⟩ :=
    hrenders.parseInside_eq opening [] [] [] (by decide) (fun _ _ _ hnone => by cases hnone)
  rw [parse, if_pos hopening, Partial.start, hread, List.append_nil, parseInside_end rest hclosing,
    hnodes]
  simp

/-- What is read up to the matching parenthesis and the nodes that come of it, with a rule for every
kind of token. -/
inductive Reads (store : TokenStore) : Partial → List TokenId → List ExpressionNode → Prop
  | done {state : Partial} (hvalue : state.afterValue = true) (houter : state.outer = []) :
      Reads store state [] state.closeGroup.reverse
  | close {state : Partial} {waiting final : List ExpressionNode}
      {outer : List (List ExpressionNode)} {token : TokenId} {rest : List TokenId}
      (hvalue : state.afterValue = true) (houter : state.outer = waiting :: outer)
      (hkind : store.kind token = .closeParen)
      (hrest : Reads store ⟨state.closeGroup, waiting, outer, true⟩ rest final) :
      Reads store state (token :: rest) final
  | binary {state : Partial} {final : List ExpressionNode} {op : BinaryOperator} {token : TokenId}
      {rest : List TokenId} (hvalue : state.afterValue = true) (hkind : store.kind token = op.sign)
      (hrest : Reads store (state.pushBinary op.node) rest final) :
      Reads store state (token :: rest) final
  | leaf {state : Partial} {final : List ExpressionNode} {token : TokenId} {rest : List TokenId}
      (hvalue : state.afterValue = false)
      (hkind : store.kind token = .number ∨ store.kind token = .word)
      (hrest : Reads store
        { state with nodes := .leaf token :: state.nodes, afterValue := true } rest final) :
      Reads store state (token :: rest) final
  | plus {state : Partial} {final : List ExpressionNode} {token : TokenId} {rest : List TokenId}
      (hvalue : state.afterValue = false) (hkind : store.kind token = .plus)
      (hrest : Reads store state rest final) : Reads store state (token :: rest) final
  | unary {state : Partial} {final : List ExpressionNode} {op : UnaryOperator} {token : TokenId}
      {rest : List TokenId} (hvalue : state.afterValue = false)
      (hkind : store.kind token = op.sign)
      (hrest : Reads store { state with waiting := op.node :: state.waiting } rest final) :
      Reads store state (token :: rest) final
  | group {state : Partial} {final : List ExpressionNode} {token : TokenId} {rest : List TokenId}
      (hvalue : state.afterValue = false) (hkind : store.kind token = .openParen)
      (hrest : Reads store ⟨state.nodes, [], state.waiting :: state.outer, false⟩ rest final) :
      Reads store state (token :: rest) final
  /-- A `*` or `/` is taken although no value stands before it. -/
  | stray {state : Partial} {final : List ExpressionNode} {op : BinaryOperator} {token : TokenId}
      {rest : List TokenId} (hvalue : state.afterValue = false)
      (hkind : store.kind token = op.sign) (hfactor : isFactorSign op.sign = true)
      (hrest : Reads store (state.pushBinary op.node) rest final) :
      Reads store state (token :: rest) final

theorem reads_of_parseInside {state : Partial} {tokens rest : List TokenId}
    {expression : Expression}
    (hparse : parseInside store opening state tokens = .ok (expression, rest)) :
    expression.opening = opening ∧ ∃ inner closing, tokens = inner ++ closing :: rest ∧
      store.kind closing = .closeParen ∧ Reads store state inner expression.nodes := by
  fun_induction parseInside store opening state tokens with
  | case1 | case5 | case6 | case7 | case8 | case14 => cases hparse
  | case2 state token behind _ hvalue _ hop ih =>
      obtain ⟨op, hkind, rfl⟩ := exists_binaryOperator hop
      obtain ⟨hopening, inner, closing, rfl, hclosing, hreads⟩ := ih hparse
      exact ⟨hopening, token :: inner, closing, rfl, hclosing, .binary hvalue hkind hreads⟩
  | case3 state token behind _ hvalue _ _ houter =>
      cases hparse
      exact ⟨rfl, [], token, rfl, by assumption, .done hvalue houter⟩
  | case4 state token behind _ hvalue _ _ waiting outer houter ih =>
      obtain ⟨hopening, inner, closing, rfl, hclosing, hreads⟩ := ih hparse
      exact ⟨hopening, token :: inner, closing, rfl, hclosing,
        .close hvalue houter (by assumption) hreads⟩
  | case9 state token behind _ hvalue ops hops ih =>
      obtain ⟨hopening, inner, closing, rfl, hclosing, hreads⟩ := ih hparse
      have hvalue := Bool.eq_false_iff.mpr hvalue
      refine ⟨hopening, token :: inner, closing, rfl, hclosing, ?_⟩
      rcases plus_or_exists_unaryOperator hops with ⟨hplus, rfl⟩ | ⟨op, hkind, rfl⟩
      · exact .plus hvalue hplus hreads
      · exact .unary hvalue hkind hreads
  | case10 state token behind _ hvalue _ hop hunary ih =>
      obtain ⟨hopening, inner, closing, rfl, hclosing, hreads⟩ := ih hparse
      obtain ⟨op, hkind, rfl⟩ := exists_binaryOperator hop
      exact ⟨hopening, token :: inner, closing, rfl, hclosing,
        .stray (Bool.eq_false_iff.mpr hvalue) hkind (op.isFactorSign_of_unary? (hkind ▸ hunary))
          hreads⟩
  | case11 state token behind _ hvalue _ _ _ ih =>
      obtain ⟨hopening, inner, closing, rfl, hclosing, hreads⟩ := ih hparse
      exact ⟨hopening, token :: inner, closing, rfl, hclosing,
        .leaf (Bool.eq_false_iff.mpr hvalue) (.inl (by assumption)) hreads⟩
  | case12 state token behind _ hvalue _ _ _ ih =>
      obtain ⟨hopening, inner, closing, rfl, hclosing, hreads⟩ := ih hparse
      exact ⟨hopening, token :: inner, closing, rfl, hclosing,
        .leaf (Bool.eq_false_iff.mpr hvalue) (.inr (by assumption)) hreads⟩
  | case13 state token behind _ hvalue _ _ _ ih =>
      obtain ⟨hopening, inner, closing, rfl, hclosing, hreads⟩ := ih hparse
      exact ⟨hopening, token :: inner, closing, rfl, hclosing,
        .group (Bool.eq_false_iff.mpr hvalue) (by assumption) hreads⟩

end VectorStack.Expression
