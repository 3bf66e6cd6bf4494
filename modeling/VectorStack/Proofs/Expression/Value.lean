import VectorStack.Proofs.Arithmetic.Operation
import VectorStack.Proofs.Expression.Parsing
/-!
Values of expressions. A tree has a value by recursion, and evaluating its nodes on a stack gives
the same one. Where all leaves stand for integers, this is the value of the tree in integers of 64
bits, which wrap.
-/

namespace VectorStack.Expression

/-- The operator applied to a value; `~` is for integers only. -/
def UnaryOperator.apply? : UnaryOperator → Number → Option Number
  | neg, value => some value.neg
  | not, .integer cell => some (.integer (~~~cell))
  | not, .real _ => none

section Evaluation

variable (store : TokenStore) (labels : String → Option Nat) (opening : TokenId)

/-- The value of a tree, or the fault that is met first from left to right. -/
def Tree.number : Tree → Except AssemblyError Number
  | leaf token => leafValue store labels token
  | unary op operand => do
    let value ← operand.number
    match op.apply? value with
    | some result => .ok result
    | none => .error (store.faultAt opening (.evaluation "`~` needs an integer"))
  | binary op left right => do
    let first ← left.number
    let second ← right.number
    match binary? op.node first second with
    | some result => .ok result
    | none => .error (store.faultAt opening (.evaluation "division by zero"))

theorem evaluateOn_unary (op : UnaryOperator) (rest : List ExpressionNode) (value : Number)
    (stack : List Number) :
    evaluateOn store labels opening (op.node :: rest) (value :: stack) =
      match op.apply? value with
      | some result => evaluateOn store labels opening rest (result :: stack)
      | none => .error (store.faultAt opening (.evaluation "`~` needs an integer")) := by
  cases op with
  | neg => rw [UnaryOperator.node, evaluateOn, UnaryOperator.apply?]
  | not =>
      cases value with
      | integer cell => rw [UnaryOperator.node, evaluateOn, UnaryOperator.apply?]
      | real cell => rw [UnaryOperator.node, evaluateOn, UnaryOperator.apply?]

theorem evaluateOn_binary (op : BinaryOperator) (rest : List ExpressionNode)
    (first second : Number) (stack : List Number) :
    evaluateOn store labels opening (op.node :: rest) (second :: first :: stack) =
      match binary? op.node first second with
      | some result => evaluateOn store labels opening rest (result :: stack)
      | none => .error (store.faultAt opening (.evaluation "division by zero")) := by
  cases op <;> rfl

/-- Evaluating the nodes of a tree puts its value on the stack. -/
theorem evaluateOn_nodes (tree : Tree) (rest : List ExpressionNode) (stack : List Number) :
    evaluateOn store labels opening (tree.nodes ++ rest) stack =
      tree.number store labels opening >>= fun value =>
        evaluateOn store labels opening rest (value :: stack) := by
  induction tree generalizing rest stack with
  | leaf token => rfl
  | unary op operand ih =>
      rw [Tree.nodes, List.append_assoc, ih, Tree.number, bind_assoc]
      congr 1
      funext value
      rw [List.singleton_append, evaluateOn_unary]
      cases op.apply? value <;> rfl
  | binary op left right ihLeft ihRight =>
      rw [Tree.nodes, List.append_assoc, List.append_assoc, ihLeft, Tree.number, bind_assoc]
      congr 1
      funext first
      rw [ihRight, bind_assoc]
      congr 1
      funext second
      rw [List.singleton_append, evaluateOn_binary]
      cases binary? op.node first second <;> rfl

theorem evaluate_nodes (tree : Tree) :
    evaluate ⟨tree.nodes, opening⟩ store labels = tree.number store labels opening := by
  have hnodes := evaluateOn_nodes store labels opening tree [] []
  rw [List.append_nil] at hnodes
  rw [evaluate, hnodes]
  cases tree.number store labels opening <;> rfl

end Evaluation

/-- The operator on integers of 64 bits. -/
def UnaryOperator.onIntegers : UnaryOperator → Int → Int
  | neg, a => DataType.i64.residue (-a)
  | not, a => DataType.i64.residue (-a - 1)

/-- The operator on integers of 64 bits. Division truncates, and there is none by zero. -/
def BinaryOperator.onIntegers? : BinaryOperator → Int → Int → Option Int
  | add, a, b => some (DataType.i64.residue (a + b))
  | sub, a, b => some (DataType.i64.residue (a - b))
  | mul, a, b => some (DataType.i64.residue (a * b))
  | div, a, b => if b = 0 then none else some (DataType.i64.residue (a.tdiv b))

namespace Tree

/-- The value of a tree whose leaves stand for integers, if no divisor is zero. -/
def value? (leafInteger : TokenId → Int) : Tree → Option Int
  | leaf token => some (leafInteger token)
  | unary op operand => (operand.value? leafInteger).map op.onIntegers
  | binary op left right => do
    op.onIntegers? (← left.value? leafInteger) (← right.value? leafInteger)

/-- The tokens at the leaves. -/
def leaves : Tree → List TokenId
  | leaf token => [token]
  | unary _ operand => operand.leaves
  | binary _ left right => left.leaves ++ right.leaves

/-- A tree and all trees in it. -/
def parts : Tree → List Tree
  | leaf token => [leaf token]
  | unary op operand => unary op operand :: operand.parts
  | binary op left right => binary op left right :: (left.parts ++ right.parts)

/-- Somewhere in the tree is a division whose divisor evaluates to zero. -/
def DividesByZero (leafInteger : TokenId → Int) (tree : Tree) : Prop :=
  ∃ left right, binary .div left right ∈ tree.parts ∧ right.value? leafInteger = some 0

end Tree

/-- The integer that a leaf stands for: a number for the one it is written as, a label name for the
address of the label. -/
inductive StandsFor (store : TokenStore) (labels : String → Option Nat) : TokenId → Int → Prop
  | number {token : TokenId} {cell : Cell} (hkind : store.kind token = .number)
      (hcell : Number.parse? (store.chars token) = some (.integer cell)) :
      StandsFor store labels token cell.signed
  | label {token : TokenId} {address : Nat} (hkind : store.kind token = .word)
      (haddress : labels (store.text token) = some address) :
      StandsFor store labels token (DataType.i64.residue address)

section Integers

variable {store : TokenStore} {labels : String → Option Nat} {leafInteger : TokenId → Int}
  {opening : TokenId} {first second : Cell} {n : Int}

theorem signed_of_carries {cell : Cell} (hcarries : Cell.Carries 64 cell n) :
    cell.signed = DataType.i64.residue n := by
  have hresidue : DataType.i64.residue cell.toNat = DataType.i64.residue n :=
    DataType.residue_eq_iff.mpr hcarries
  exact (Cell.signed_eq_bmod cell).trans hresidue

theorem carries_signed (cell : Cell) : Cell.Carries 64 cell cell.signed :=
  Cell.carries_integer (Nat.le_refl 64) .signed cell

theorem UnaryOperator.exists_cell (op : UnaryOperator) (operand : Cell) :
    ∃ cell, op.apply? (.integer operand) = some (.integer cell) ∧
      cell.signed = op.onIntegers operand.signed := by
  cases op with
  | neg =>
      refine ⟨0 - operand, rfl, signed_of_carries ?_⟩
      rw [← Int.zero_sub]
      exact Cell.carries_sub (Nat.le_refl 64) (Int.ModEq.refl 0) (carries_signed operand)
  | not =>
      refine ⟨~~~operand, rfl, signed_of_carries ?_⟩
      rw [UInt64.not_eq_neg_sub, ← UInt64.zero_sub, ← Int.zero_sub]
      exact Cell.carries_sub (Nat.le_refl 64)
        (Cell.carries_sub (Nat.le_refl 64) (Int.ModEq.refl 0) (carries_signed operand))
        (Int.ModEq.refl 1)

theorem signed_eq_zero_iff (cell : Cell) : cell.signed = 0 ↔ cell = 0 :=
  Mode.integer_eq_zero_iff .signed cell

theorem BinaryOperator.exists_cell {op : BinaryOperator}
    (hresult : op.onIntegers? first.signed second.signed = some n) :
    ∃ cell, binary? op.node (.integer first) (.integer second) = some (.integer cell) ∧
      cell.signed = n := by
  have hfirst := carries_signed first
  have hsecond := carries_signed second
  cases op with
  | add =>
      cases hresult
      exact ⟨_, rfl, signed_of_carries (Cell.carries_add (Nat.le_refl 64) hfirst hsecond)⟩
  | sub =>
      cases hresult
      exact ⟨_, rfl, signed_of_carries (Cell.carries_sub (Nat.le_refl 64) hfirst hsecond)⟩
  | mul =>
      cases hresult
      exact ⟨_, rfl, signed_of_carries (Cell.carries_mul (Nat.le_refl 64) hfirst hsecond)⟩
  | div =>
      rw [onIntegers?] at hresult
      split at hresult
      · cases hresult
      · next hnonzero =>
          cases hresult
          refine ⟨Cell.ofInt (first.signed.tdiv second.signed), ?_,
            signed_of_carries (Cell.carries_ofInt (Nat.le_refl 64) _)⟩
          rw [signed_eq_zero_iff] at hnonzero
          exact if_neg hnonzero

/-- An operator without a result is a division by zero. -/
theorem BinaryOperator.onIntegers?_eq_none_iff {op : BinaryOperator} {a b : Int} :
    op.onIntegers? a b = none ↔ op = .div ∧ b = 0 := by
  cases op <;> simp [onIntegers?]

theorem BinaryOperator.binary?_eq_none {op : BinaryOperator}
    (hresult : op.onIntegers? first.signed second.signed = none) :
    binary? op.node (.integer first) (.integer second) = none := by
  obtain ⟨rfl, hzero⟩ := onIntegers?_eq_none_iff.mp hresult
  exact if_pos ((signed_eq_zero_iff second).mp hzero)

theorem StandsFor.leafValue_eq {token : TokenId} (hstands : StandsFor store labels token n) :
    ∃ cell, leafValue store labels token = .ok (.integer cell) ∧ cell.signed = n := by
  cases hstands with
  | number hkind hcell => exact ⟨_, by simp [leafValue, hkind, hcell], rfl⟩
  | @label address hkind haddress =>
      refine ⟨UInt64.ofNat address, by simp [leafValue, hkind, haddress, Number.ofNat],
        signed_of_carries ?_⟩
      rw [Cell.Carries, UInt64.toNat_ofNat', Int.natCast_emod]
      exact Int.mod_modEq _ _

namespace Tree

variable {tree : Tree}

theorem dividesByZero_binary_iff {op : BinaryOperator} {left right : Tree} :
    (binary op left right).DividesByZero leafInteger ↔
      left.DividesByZero leafInteger ∨ right.DividesByZero leafInteger ∨
        op = .div ∧ right.value? leafInteger = some 0 := by
  constructor
  · rintro ⟨_, divisor, hmem, hzero⟩
    rcases List.mem_cons.mp hmem with heq | hmem
    · cases heq
      exact .inr (.inr ⟨rfl, hzero⟩)
    · rcases List.mem_append.mp hmem with hmem | hmem
      · exact .inl ⟨_, divisor, hmem, hzero⟩
      · exact .inr (.inl ⟨_, divisor, hmem, hzero⟩)
  · rintro (⟨_, divisor, hmem, hzero⟩ | ⟨_, divisor, hmem, hzero⟩ | ⟨rfl, hzero⟩)
    · exact ⟨_, divisor, List.mem_cons_of_mem _ (List.mem_append_left _ hmem), hzero⟩
    · exact ⟨_, divisor, List.mem_cons_of_mem _ (List.mem_append_right _ hmem), hzero⟩
    · exact ⟨left, right, List.mem_cons_self, hzero⟩

/-- A tree has no value exactly where it divides by zero. -/
theorem value?_eq_none_iff : tree.value? leafInteger = none ↔ tree.DividesByZero leafInteger := by
  induction tree with
  | leaf token => simp [value?, DividesByZero, parts]
  | unary op operand ih =>
      rw [value?, Option.map_eq_none_iff, ih]
      simp [DividesByZero, parts]
  | binary op left right ihLeft ihRight =>
      rw [dividesByZero_binary_iff, ← ihLeft, ← ihRight, value?]
      cases left.value? leafInteger with
      | none => simp
      | some a =>
          cases right.value? leafInteger with
          | none => simp
          | some b => simp [BinaryOperator.onIntegers?_eq_none_iff]

theorem number_of_value? (hleaves : ∀ token ∈ tree.leaves,
    StandsFor store labels token (leafInteger token))
    (hvalue : tree.value? leafInteger = some n) :
    ∃ cell, tree.number store labels opening = .ok (.integer cell) ∧ cell.signed = n := by
  induction tree generalizing n with
  | leaf token =>
      cases hvalue
      exact (hleaves token (List.mem_singleton_self token)).leafValue_eq
  | unary op operand ih =>
      obtain ⟨m, hm, rfl⟩ := Option.map_eq_some_iff.mp hvalue
      obtain ⟨value, hnumber, rfl⟩ := ih hleaves hm
      obtain ⟨cell, happly, hcell⟩ := op.exists_cell value
      refine ⟨cell, ?_, hcell⟩
      rw [number, hnumber]
      simp [happly, bind, Except.bind]
  | binary op left right ihLeft ihRight =>
      obtain ⟨a, hleft, hrest⟩ := Option.bind_eq_some_iff.mp hvalue
      obtain ⟨b, hright, hresult⟩ := Option.bind_eq_some_iff.mp hrest
      obtain ⟨first, hfirst, rfl⟩ := ihLeft
        (fun token hmem => hleaves token (List.mem_append_left _ hmem)) hleft
      obtain ⟨second, hsecond, rfl⟩ := ihRight
        (fun token hmem => hleaves token (List.mem_append_right _ hmem)) hright
      obtain ⟨cell, hbinary, hcell⟩ := BinaryOperator.exists_cell hresult
      refine ⟨cell, ?_, hcell⟩
      rw [number, hfirst, hsecond]
      simp [hbinary, bind, Except.bind]

theorem number_of_value?_eq_none (hleaves : ∀ token ∈ tree.leaves,
    StandsFor store labels token (leafInteger token)) (hvalue : tree.value? leafInteger = none) :
    tree.number store labels opening =
      .error (store.faultAt opening (.evaluation "division by zero")) := by
  induction tree with
  | leaf token => cases hvalue
  | unary op operand ih =>
      rw [number, ih hleaves (Option.map_eq_none_iff.mp hvalue)]
      rfl
  | binary op left right ihLeft ihRight =>
      have hbefore := fun token hmem => hleaves token (List.mem_append_left right.leaves hmem)
      have hbehind := fun token hmem => hleaves token (List.mem_append_right left.leaves hmem)
      rw [number]
      cases hleft : left.value? leafInteger with
      | none =>
          rw [ihLeft hbefore hleft]
          rfl
      | some a =>
          obtain ⟨first, hfirst, rfl⟩ := number_of_value? hbefore hleft
          rw [hfirst]
          cases hright : right.value? leafInteger with
          | none =>
              rw [ihRight hbehind hright]
              rfl
          | some b =>
              obtain ⟨second, hsecond, rfl⟩ := number_of_value? hbehind hright
              have hresult : op.onIntegers? first.signed second.signed = none := by
                rw [value?, hleft, hright] at hvalue
                exact hvalue
              rw [hsecond]
              simp [BinaryOperator.binary?_eq_none hresult, bind, Except.bind]

end Tree

/-- An expression in parentheses is read up to the matching one, whatever follows, as the nodes of
its tree. Where its leaves stand for integers, it evaluates to the value of the tree, or to a fault
exactly if it divides by zero. -/
theorem Renders.parse_and_evaluate_eq {tree : Tree} {inner : List TokenId} {closing : TokenId}
    (hrenders : Renders store loosest tree inner) (hopening : store.kind opening = .openParen)
    (hclosing : store.kind closing = .closeParen) (rest : List TokenId) :
    parse store (opening :: (inner ++ closing :: rest)) = .ok (⟨tree.nodes, opening⟩, rest) ∧
    ∀ (labels : String → Option Nat) (leafInteger : TokenId → Int),
      (∀ token ∈ tree.leaves, StandsFor store labels token (leafInteger token)) →
      (tree.DividesByZero leafInteger → evaluate ⟨tree.nodes, opening⟩ store labels =
        .error (store.faultAt opening (.evaluation "division by zero"))) ∧
      (¬ tree.DividesByZero leafInteger → ∃ n cell, tree.value? leafInteger = some n ∧
        evaluate ⟨tree.nodes, opening⟩ store labels = .ok (.integer cell) ∧ cell.signed = n) := by
  refine ⟨hrenders.parse_eq hopening hclosing rest, fun labels leafInteger hleaves => ?_⟩
  rw [evaluate_nodes, ← Tree.value?_eq_none_iff]
  refine ⟨Tree.number_of_value?_eq_none hleaves, fun hsome => ?_⟩
  obtain ⟨n, hvalue⟩ := Option.ne_none_iff_exists'.mp hsome
  obtain ⟨cell, hnumber, hcell⟩ := Tree.number_of_value? hleaves hvalue
  exact ⟨n, cell, hvalue, hnumber, hcell⟩

/-- A label name and three numbers, with a redundant plus sign and a truncating division. -/
theorem parse_and_evaluate_quotient :
    let store := (TokenStore.empty.load "expr" "(-x + +7/(2-5)) *".toList).2
    let tree : Tree := .binary .add (.unary .neg (.leaf 2))
      (.binary .div (.leaf 5) (.binary .sub (.leaf 8) (.leaf 10)))
    parse store (List.range 14) = .ok (⟨tree.nodes, 0⟩, [13]) ∧
      ∃ cell, evaluate ⟨tree.nodes, 0⟩ store (fun name => if name = "x" then some 16 else none) =
        .ok (.integer cell) ∧ cell.signed = -18 := by
  intro store tree
  let labels : String → Option Nat := fun name => if name = "x" then some 16 else none
  let leafInteger : TokenId → Int := fun token =>
    if token = 2 then DataType.i64.residue (16 : Nat)
    else Cell.signed (if token = 5 then 7 else if token = 8 then 2 else 5)
  obtain ⟨h0, h1, h2, h3, h4, h5, h6⟩ : store.kind 0 = .openParen ∧ store.kind 1 = .minus ∧
      store.kind 2 = .word ∧ store.kind 3 = .plus ∧ store.kind 4 = .plus ∧
      store.kind 5 = .number ∧ store.kind 6 = .slash := by decide +kernel
  obtain ⟨h7, h8, h9, h10, h11, h12⟩ : store.kind 7 = .openParen ∧ store.kind 8 = .number ∧
      store.kind 9 = .minus ∧ store.kind 10 = .number ∧ store.kind 11 = .closeParen ∧
      store.kind 12 = .closeParen := by decide +kernel
  have hquotient : Renders store 2 (.binary .div (.leaf 5) (.binary .sub (.leaf 8) (.leaf 10)))
      ([4, 5] ++ 6 :: (7 :: (([8] ++ 9 :: [10]) ++ [11]))) :=
    .binary (Nat.le_refl 2) h6 (.plus (by decide) h4 (.leaf (.inl h5)))
      (.group h7 h11 (.binary (Nat.le_refl 1) h9 (.leaf (.inl h8)) (.leaf (.inl h10))))
  have hrenders : Renders store loosest tree ([1, 2] ++ 3 :: [4, 5, 6, 7, 8, 9, 10, 11]) :=
    .binary (Nat.le_refl 1) h3 (.unary (by decide) h1 (.leaf (.inr h2))) hquotient
  obtain ⟨hparse, hvalue⟩ := hrenders.parse_and_evaluate_eq h0 h12 [13]
  have hx : StandsFor store labels 2 (DataType.i64.residue (16 : Nat)) :=
    .label h2 (by decide +kernel)
  have hseven : StandsFor store labels 5 (Cell.signed 7) := .number h5 (by decide +kernel)
  have htwo : StandsFor store labels 8 (Cell.signed 2) := .number h8 (by decide +kernel)
  have hfive : StandsFor store labels 10 (Cell.signed 5) := .number h10 (by decide +kernel)
  have hleaves : ∀ token ∈ tree.leaves, StandsFor store labels token (leafInteger token) := by
    simpa [tree, Tree.leaves, leafInteger] using ⟨hx, hseven, htwo, hfive⟩
  have hnumber : tree.value? leafInteger = some (-18) := by decide
  obtain ⟨n, cell, hn, hevaluate, hcell⟩ := (hvalue labels leafInteger hleaves).2
    (Tree.value?_eq_none_iff.not.mp (by simp [hnumber]))
  rw [hnumber] at hn
  cases hn
  exact ⟨hparse, cell, hevaluate, hcell⟩

end Integers

end VectorStack.Expression
