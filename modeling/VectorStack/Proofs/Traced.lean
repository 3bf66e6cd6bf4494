import VectorStack.Assembly.Statement
import VectorStack.Proofs.Checked
import VectorStack.Proofs.Token.Provenance
/-!
Where faults are reported. A computation is traced to a store if all its faults are at tokens of
that store, or of one that grew from it; together with a property of what it gives otherwise, this
goes through chains of computations. Reading and evaluating an expression is the first case.
-/

namespace VectorStack

/-- A computation that gives something with a property, or else reports a fault at a token. -/
inductive Traced (store : TokenStore) {α : Type} (post : α → Prop) :
    Except AssemblyError α → Prop
  | ok {a : α} (hpost : post a) : Traced store post (.ok a)
  /-- The store may have grown before the fault. -/
  | fault {later : TokenStore} {id : TokenId} {fault : AssemblyFault} (hgrows : store.Grows later)
      (hlt : id < later.size) : Traced store post (.error (later.faultAt id fault))

namespace Traced

variable {α β : Type} {store later : TokenStore} {post : α → Prop} {next : β → Prop}
  {x : Except AssemblyError α}

theorem faultAt {id : TokenId} {fault : AssemblyFault} (hlt : id < store.size) :
    Traced store post (.error (store.faultAt id fault)) :=
  .fault (.refl store) hlt

theorem bind {f : α → Except AssemblyError β} (hx : Traced store post x)
    (hf : ∀ a, post a → Traced store next (f a)) : Traced store next (x >>= f) := by
  cases hx with
  | ok hpost => exact hf _ hpost
  | fault hgrows hlt => exact .fault hgrows hlt

/-- Where nothing needs to be known about what comes first. -/
theorem andThen {f : α → Except AssemblyError β} (hx : Traced store (fun _ => True) x)
    (hf : ∀ a, Traced store next (f a)) : Traced store next (x >>= f) :=
  hx.bind fun a _ => hf a

theorem map {f : α → β} (hx : Traced store post x) (hf : ∀ a, post a → next (f a)) :
    Traced store next (x.map f) := by
  cases hx with
  | ok hpost => exact .ok (hf _ hpost)
  | fault hgrows hlt => exact .fault hgrows hlt

theorem imp {other : α → Prop} (hx : Traced store post x) (himp : ∀ a, post a → other a) :
    Traced store other x := by
  cases hx with
  | ok hpost => exact .ok (himp _ hpost)
  | fault hgrows hlt => exact .fault hgrows hlt

/-- What is traced to a later store is so to an earlier one. -/
theorem of_grows (hgrows : store.Grows later) (hx : Traced later post x) :
    Traced store post x := by
  cases hx with
  | ok hpost => exact .ok hpost
  | fault hmore hlt => exact .fault (hgrows.trans hmore) hlt

theorem post_of_ok {a : α} (hx : Traced store post (.ok a)) : post a := by
  cases hx with
  | ok hpost => exact hpost

/-- A fault that is passed on stays where it is. -/
theorem error {error : AssemblyError} (hx : Traced store post (.error error)) :
    Traced store next (.error error) := by
  cases hx with
  | fault hgrows hlt => exact .fault hgrows hlt

/-- In a store that grew from a text, every fault is traced back to a token of the text. -/
theorem getLast?_trace {name : String} {text : List Char} {error : AssemblyError}
    (hgrown : store.GrownFrom name text) (hx : Traced store post (.error error)) :
    ∃ lexeme ∈ Lexer.lex text, error.trace.getLast? = some (lexeme.location name text) := by
  cases hx with
  | fault hgrows hlt =>
      have hlater : TokenStore.GrownFrom _ name text := hgrown.trans hgrows
      exact (hlater.leadsBack hlt).getLast?_trace

end Traced

namespace ExpressionNode

/-- The token of a leaf. -/
def tokens : ExpressionNode → List TokenId
  | leaf token => [token]
  | _ => []

theorem tokens_of_binary? {kind : TokenKind} {op : ExpressionNode} (hop : binary? kind = some op) :
    op.tokens = [] := by
  unfold binary? at hop
  split at hop <;> cases hop <;> rfl

theorem tokens_of_unary? {kind : TokenKind} {ops : List ExpressionNode}
    (hops : unary? kind = some ops) : ops.flatMap tokens = [] := by
  unfold unary? at hops
  split at hops <;> cases hops <;> rfl

end ExpressionNode

namespace Expression

open TokenStore

/-- The opening parenthesis and the tokens of all leaves. -/
def tokens (expression : Expression) : List TokenId :=
  expression.opening :: expression.nodes.flatMap ExpressionNode.tokens

/-- The tokens of all leaves read so far. -/
def Partial.tokens (state : Partial) : List TokenId :=
  state.nodes.flatMap ExpressionNode.tokens ++ state.waiting.flatMap ExpressionNode.tokens ++
    state.outer.flatten.flatMap ExpressionNode.tokens

variable {store : TokenStore} {opening : TokenId} {state : Partial}

theorem Partial.has_closeGroup (hstate : store.Has state.tokens) :
    store.Has (state.closeGroup.flatMap ExpressionNode.tokens) := by
  simp only [tokens, has_append, has_flatMap] at hstate
  rw [closeGroup, List.flatMap_append, has_append, has_flatMap, has_flatMap]
  exact ⟨fun node hmem => hstate.1.2 node (List.mem_reverse.mp hmem), hstate.1.1⟩

theorem Partial.has_pushBinary {op : ExpressionNode} (hop : op.tokens = [])
    (hstate : store.Has state.tokens) : store.Has (state.pushBinary op).tokens := by
  simp only [tokens, pushBinary, List.flatMap_append, List.flatMap_cons, hop, has_append, has_nil,
    has_flatMap] at hstate ⊢
  obtain ⟨⟨hnodes, hwaiting⟩, houter⟩ := hstate
  refine ⟨⟨⟨fun node hmem => ?_, hnodes⟩, trivial, fun node hmem => ?_⟩, houter⟩
  · have hfront := List.takeWhile_prefix (p := fun other => op.precedence ≤ other.precedence)
      (l := state.waiting)
    exact hwaiting node (hfront.mem (List.mem_reverse.mp hmem))
  · exact hwaiting node (List.mem_of_mem_drop hmem)

theorem traced_parseInside {tokens : List TokenId} (hopening : opening < store.size)
    (hstate : store.Has state.tokens) (htokens : store.Has tokens) :
    Traced store (fun read => store.Has read.1.tokens ∧ store.Has read.2)
      (parseInside store opening state tokens) := by
  fun_induction parseInside store opening state tokens with
  | case1 => exact .faultAt hopening
  | case2 state token rest _ _ _ hop ih | case10 state token rest _ _ _ hop _ ih =>
      exact ih (Partial.has_pushBinary (ExpressionNode.tokens_of_binary? hop) hstate)
        (has_cons.mp htokens).2
  | case3 state token rest =>
      have hclosed := Partial.has_closeGroup hstate
      rw [has_flatMap] at hclosed
      refine .ok ⟨has_cons.mpr ⟨hopening, has_flatMap.mpr ?_⟩, (has_cons.mp htokens).2⟩
      exact fun node hmem => hclosed node (List.mem_reverse.mp hmem)
  | case4 state token rest _ _ _ _ waiting outer houter ih =>
      have hclosed := Partial.has_closeGroup hstate
      simp only [Partial.tokens, houter, List.flatten_cons, List.flatMap_append,
        has_append] at hstate
      refine ih ?_ (has_cons.mp htokens).2
      exact has_append.mpr ⟨has_append.mpr ⟨hclosed, hstate.2.1⟩, hstate.2.2⟩
  | case9 state token rest _ _ ops hops ih =>
      refine ih ?_ (has_cons.mp htokens).2
      simpa only [Partial.tokens, List.flatMap_append, ExpressionNode.tokens_of_unary? hops,
        List.nil_append] using hstate
  | case11 state token rest _ _ _ _ _ ih | case12 state token rest _ _ _ _ _ ih =>
      obtain ⟨htoken, hrest⟩ := has_cons.mp htokens
      exact ih (has_cons.mpr ⟨htoken, hstate⟩) hrest
  | case13 state token rest _ _ _ _ _ ih =>
      refine ih ?_ (has_cons.mp htokens).2
      simpa [Partial.tokens] using hstate
  | case5 | case6 | case7 | case8 | case14 => exact .faultAt (has_cons.mp htokens).1

/-- An expression whose tokens are there to be read holds none but those. -/
theorem traced_parse {tokens : List TokenId} (hne : tokens ≠ []) (htokens : store.Has tokens) :
    Traced store (fun read => store.Has read.1.tokens ∧ store.Has read.2)
      (parse store tokens) := by
  cases tokens with
  | nil => exact absurd rfl hne
  | cons opening rest =>
      obtain ⟨hopening, hrest⟩ := has_cons.mp htokens
      rw [parse]
      split
      · exact traced_parseInside hopening (has_nil store) hrest
      · exact .faultAt hopening

theorem traced_leafValue {token : TokenId} (labels : String → Option Nat)
    (htoken : token < store.size) :
    Traced store (fun _ => True) (leafValue store labels token) := by
  rw [leafValue]
  split <;> split
  · exact .ok trivial
  · exact .faultAt htoken
  · exact .ok trivial
  · exact .faultAt htoken

theorem traced_evaluateOn (labels : String → Option Nat) {nodes : List ExpressionNode}
    (stack : List Number) (hopening : opening < store.size)
    (hnodes : store.Has (nodes.flatMap ExpressionNode.tokens)) :
    Traced store (fun _ => True) (evaluateOn store labels opening nodes stack) := by
  induction nodes generalizing stack with
  | nil =>
      unfold evaluateOn
      split
      · exact .ok trivial
      all_goals
        first
          | contradiction
          | exact .faultAt hopening
  | cons node rest ih =>
      rw [List.flatMap_cons, has_append] at hnodes
      obtain ⟨hnode, hrest⟩ := hnodes
      unfold evaluateOn
      split
      · exact .ok trivial
      · next hleaf =>
          cases hleaf
          exact (traced_leafValue labels (has_cons.mp hnode).1).andThen fun value => ih _ hrest
      · next hneg =>
          cases hneg
          exact ih _ hrest
      · next hnot =>
          cases hnot
          exact ih _ hrest
      · exact .faultAt hopening
      · next hop =>
          cases hop
          split
          · exact ih _ hrest
          · exact .faultAt hopening
      · exact .faultAt hopening

theorem traced_evaluate {expression : Expression} (labels : String → Option Nat)
    (htokens : store.Has expression.tokens) :
    Traced store (fun _ => True) (expression.evaluate store labels) := by
  obtain ⟨hopening, hnodes⟩ := has_cons.mp htokens
  exact traced_evaluateOn labels [] hopening hnodes

end Expression

end VectorStack
