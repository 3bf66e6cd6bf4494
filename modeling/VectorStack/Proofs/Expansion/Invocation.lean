import VectorStack.Proofs.Expansion.Arguments
import VectorStack.Proofs.Expansion.Provenance
import VectorStack.Proofs.Expansion.Substitution
import VectorStack.Proofs.Token.Copies
/-!
Uses of macros. Three forms of tokens use a macro, and all of them do the same with the argument
list behind them: it is taken off the tokens to be read, and copies of the macro's text with
arguments in place of parameters are put there, whose parent is the token that used the macro. The
main statement says this of every state, and when a use fails instead.
-/

namespace VectorStack

/-- The tokens start with an argument list on one line, whose parentheses match. -/
structure Listed (store : TokenStore) (tokens list after : List TokenId) : Prop where
  shape : ∃ opening closing, store.kind opening = .openParen ∧ store.kind closing = .closeParen ∧
    tokens = opening :: (list ++ closing :: after)
  line : store.IsLine list
  balanced : Balanced store .openParen .closeParen [] list

namespace Listed

variable {store : TokenStore} {tokens list after : List TokenId}

theorem drop_eq (hlisted : Listed store tokens list after) :
    tokens.drop (list.length + 2) = after := by
  obtain ⟨opening, closing, -, -, rfl⟩ := hlisted.shape
  rw [List.drop_succ_cons, List.drop_append]
  simp

theorem list_subset (hlisted : Listed store tokens list after) : list ⊆ tokens := by
  obtain ⟨opening, closing, -, -, rfl⟩ := hlisted.shape
  exact List.Subset.trans (List.subset_append_left _ _) (List.subset_cons_self _ _)

end Listed

namespace Expansion

/-- A macro is about to be used. The tokens to be read start with a word or a directive of its name,
or they close the argument list of a directive that names it. The state is the one that the macro's
text is put into, and what is left comes behind the use. -/
inductive Invokes (s : Expansion) (pending : Pending) :
    Expansion → String → TokenId → Pending → Prop
  | word {token : TokenId} {left : Pending} {key : String} (hcaptures : s.captures = [])
      (hread : pending.read? = some (token, left)) (hkind : s.store.kind token = .word)
      (hlookup : s.lookup? (s.store.text token) = some key) :
    Invokes s pending { s with lastTaken := none } key token left
  | directive {token : TokenId} {left : Pending} {key : String} (hcaptures : s.captures = [])
      (hread : pending.read? = some (token, left)) (hkind : s.store.kind token = .directive)
      (hplain : Directive.ofName? (s.store.directiveName token) = none)
      (hlookup : s.lookup? (s.store.directiveName token) = some key) :
    Invokes s pending { s with lastTaken := none } key token left
  | inList {token : TokenId} {left : Pending} {key : String} (hcaptures : s.captures ≠ [])
      (hread : pending.read? = some (token, left)) (hkind : s.store.kind token = .directive)
      (hplain : Directive.ofName? (s.store.directiveName token) = none)
      (hlookup : s.lookup? (s.store.directiveName token) = some key) :
    Invokes s pending s key token left
  | named {token word : TokenId} {left : Pending} {key : String} {capture : Capture}
      {outer : List Capture} (hcaptures : s.captures = capture :: outer)
      (hsplice : capture.splice = .invoke) (hread : pending.read? = some (token, left))
      (hkind : s.store.kind token = .closeParen)
      (hlist : capture.reader.depth = 0 ∧ capture.reader.arguments = [[word]])
      (hword : s.store.kind word = .word)
      (hlookup : s.lookup? (s.store.text word) = some key) :
    Invokes s pending { s with captures := outer } key capture.directive left

variable {s base : Expansion} {pending left : Pending} {key : String} {invoker : TokenId}
  {definition : Macro} {list after : List TokenId} {arguments : List (List TokenId)}

theorem Invokes.tokens_subset (hinvokes : Invokes s pending base key invoker left) :
    left.tokens ⊆ pending.tokens := by
  cases hinvokes with
  | word _ hread | directive _ hread | inList _ hread | named _ _ hread =>
      exact (Pending.mem_of_read? hread).2

theorem direct_of_lookup? {directive : TokenId} {before : Option Bool}
    {previous : Option TokenId} {tokens : List TokenId}
    (hplain : Directive.ofName? (s.store.directiveName directive) = none)
    (hlookup : s.lookup? (s.store.directiveName directive) = some key) :
    s.direct directive before previous tokens = s.invoke key directive tokens := by
  rw [TokenStore.directiveName] at hplain hlookup
  rw [direct, hplain]
  dsimp only
  rw [hlookup]

/-- All forms do the same. -/
theorem Invokes.step_eq (hinvokes : Invokes s pending base key invoker left) :
    s.step pending = (base.invoke key invoker left.tokens >>= fun reaction =>
      advance reaction left >>= fun next => .ok (reaction.state, some next)) := by
  cases hinvokes with
  | word hcaptures hread hkind hlookup =>
      refine step_of_react hread ((react_eq_process hcaptures).trans ?_)
      rw [process, hkind]
      dsimp only
      rw [hlookup]
  | directive hcaptures hread hkind hplain hlookup =>
      refine step_of_react hread ((react_eq_process hcaptures).trans ?_)
      rw [process, hkind]
      exact direct_of_lookup? (s := { s with lastTaken := none }) hplain hlookup
  | inList hcaptures hread hkind hplain hlookup =>
      obtain ⟨capture, outer, hsome⟩ := List.exists_cons_of_ne_nil hcaptures
      refine step_of_react hread ((react_eq_feedCapture hsome).trans ?_)
      rw [feedCapture, hkind]
      exact direct_of_lookup? hplain hlookup
  | @named token word left key capture outer hcaptures hsplice hread hkind hlist hword hlookup =>
      obtain ⟨hdepth, harguments⟩ := hlist
      have hfeed : capture.reader.feed none .closeParen token = .inr [[word]] := by
        rw [ArgumentReader.feed, if_pos hdepth, harguments]
      have hsingle : singleWord { s with captures := outer } capture.directive [[word]] =
          .ok word := if_pos hword
      have hnamed : lookup? { s with captures := outer } (s.store.text word) = some key := hlookup
      refine step_of_react hread ((react_eq_feedCapture hcaptures).trans ?_)
      rw [feedCapture, hkind]
      dsimp only
      rw [hfeed]
      dsimp only
      rw [finishCapture, hsplice]
      dsimp only
      rw [hsingle]
      dsimp only [bind, Except.bind]
      rw [hnamed]

namespace Invokes

/-- A use with an argument list takes the list, and puts copies of the macro's text on top. -/
theorem invoke_eq (hinvokes : Invokes s pending base key invoker left)
    (hdefined : s.macros.lookup key = some definition)
    (hlisted : Listed s.store left.tokens list after)
    (harguments : ArgumentList s.store definition.limit list arguments) :
    base.invoke key invoker left.tokens =
      if definition.accepts arguments.length then
        let (copies, store) := s.store.copyAll invoker (definition.instantiate s.store arguments)
        .ok ⟨{ base with store }, list.length + 2, some copies, invoker⟩
      else .error (s.fault invoker ("macro `" ++ key ++ "` takes " ++
        Nat.repr definition.params.length ++ " arguments, not " ++ Nat.repr arguments.length)) := by
  obtain ⟨opening, closing, hopening, hclosing, htokens⟩ := hlisted.shape
  have hhead : left.tokens.head?.map s.store.kind = some .openParen := by
    rw [htokens]
    exact congrArg some hopening
  have hstore : base.store = s.store := by cases hinvokes <;> rfl
  have hmacro : base.macros.lookup key = some definition := by cases hinvokes <;> exact hdefined
  rw [invoke, hmacro]
  dsimp only
  rw [hstore, if_pos hhead, htokens, ← Macro.limit,
    TokenStore.readArguments_eq harguments hlisted.line hopening hclosing]
  simp only [fault, hstore]
  rfl

theorem has_instantiate (hinvokes : Invokes s pending base key invoker left)
    (hgrounded : s.Grounded pending) (hdefined : s.macros.lookup key = some definition)
    (hlisted : Listed s.store left.tokens list after)
    (harguments : ArgumentList s.store definition.limit list arguments) :
    s.store.Has (definition.instantiate s.store arguments) := by
  obtain ⟨before, others, hmacros, -⟩ := List.lookup_eq_some_iff.mp hdefined
  have hmem : (key, definition) ∈ s.macros := by
    rw [hmacros]
    exact List.mem_append_right before List.mem_cons_self
  have hlist : list ⊆ pending.tokens := List.Subset.trans hlisted.list_subset hinvokes.tokens_subset
  have harguments : s.store.Has arguments.flatten := TokenStore.has_flatten.mpr
    fun argument hargument => hgrounded.pending.subset
      (List.Subset.trans (harguments.subset argument hargument) hlist)
  have hall := TokenStore.has_append.mpr ⟨hgrounded.bodies _ hmem, harguments⟩
  exact hall.subset (definition.instantiate_subset s.store arguments)

end Invokes

/-- A macro is used with a list on one line, whose parentheses match. The list has arguments. If the
macro refuses as many, or if the stack has no room for its text, that is a fault at the token which
uses the macro. Otherwise what is read next is the macro's text, with what stands for each of its
tokens, and then what came behind the list; the state changes in nothing but its store, and the
token which uses the macro is the parent of the new tokens. Every state that is reached from tokens
of a store is grounded. -/
theorem step_invokes (hgrounded : s.Grounded pending)
    (hinvokes : Invokes s pending base key invoker left)
    (hdefined : s.macros.lookup key = some definition)
    (hlisted : Listed s.store left.tokens list after) :
    (∃ arguments, ArgumentList s.store definition.limit list arguments) ∧
    ∀ arguments, ArgumentList s.store definition.limit list arguments →
      (definition.Refuses arguments.length →
        s.step pending = .error (s.fault invoker ("macro `" ++ key ++ "` takes " ++
          Nat.repr definition.params.length ++ " arguments, not " ++
          Nat.repr arguments.length))) ∧
      (¬ definition.Refuses arguments.length →
        Pending.maxFrames ≤ (left.drop (list.length + 2)).frames.length →
        ∃ later, s.store.Extends later ∧
          s.step pending =
            .error (later.expansionFault invoker "macro expansion nested too deeply")) ∧
      (¬ definition.Refuses arguments.length →
        (left.drop (list.length + 2)).frames.length < Pending.maxFrames →
        ∃ pieces copies later next,
          List.Forall₂ (definition.Stands s.store arguments) definition.body pieces ∧
          s.step pending = .ok ({ base with store := later }, some next) ∧
          s.store.Extends later ∧ next.tokens = copies ++ after ∧
          s.store.SameTokens later (pieces.flatten ++ after) next.tokens ∧
          ∀ copy ∈ copies, (later.token copy).parent = some invoker) := by
  refine ⟨ArgumentList.exists_of_balanced _ hlisted.balanced, fun arguments harguments => ?_⟩
  have hstep := hinvokes.step_eq
  rw [hinvokes.invoke_eq hdefined hlisted harguments] at hstep
  have htemplates := hinvokes.has_instantiate hgrounded hdefined hlisted harguments
  have hafter : s.store.Has after := by
    have hleft := hgrounded.pending.subset hinvokes.tokens_subset
    exact hlisted.drop_eq ▸ hleft.subset (List.drop_subset _ _)
  obtain ⟨hcopies, hparents⟩ := TokenStore.copied_copyAll invoker htemplates
  have hstay := s.store.sameTokens_copyAll invoker (definition.instantiate s.store arguments) hafter
  have hextends := s.store.extends_copyAll invoker (definition.instantiate s.store arguments)
  generalize s.store.copyAll invoker (definition.instantiate s.store arguments) = made
    at hstep hcopies hparents hstay hextends
  obtain ⟨copies, later⟩ := made
  refine ⟨fun hrefuses => ?_, fun haccepts hfull => ?_, fun haccepts hroom => ?_⟩
  · rw [hstep, if_neg fun haccepts => (definition.accepts_eq_true_iff _).mp haccepts hrefuses]
    rfl
  · rw [hstep, if_pos ((definition.accepts_eq_true_iff _).mpr haccepts)]
    change ∃ later, _ ∧ (advance _ left >>= _) = _
    rw [advance_eq_error_iff.mpr ⟨⟨copies, rfl⟩, hfull, rfl⟩]
    exact ⟨later, hextends, rfl⟩
  · obtain ⟨next, hpush⟩ := Option.isSome_iff_exists.mp
      ((Pending.push?_isSome_iff (left.drop (list.length + 2)) copies).mpr hroom)
    have hnext : next.tokens = copies ++ after := by
      rw [Pending.tokens_of_push? hpush, Pending.tokens_drop, hlisted.drop_eq]
    have henough : definition.params.length ≤ arguments.length :=
      Nat.le_of_not_lt fun hfew => haccepts (.inl hfew)
    refine ⟨definition.body.map (definition.substitute s.store arguments), copies, later, next,
      (Macro.forall₂_stands_iff henough).mpr rfl, ?_, hextends, hnext, ?_, hparents⟩
    · rw [hstep, if_pos ((definition.accepts_eq_true_iff _).mpr haccepts)]
      change (advance _ left >>= _) = _
      rw [advance]
      dsimp only
      rw [hpush]
      rfl
    · rw [hnext]
      exact hcopies.append hstay

/-- A macro is used with a group, two more arguments and the words of its text behind it. -/
def used : TokenStore :=
  (TokenStore.empty.load "main"
    ['m', '(', '(', 'x', ',', 'y', ')', ',', '1', ',', '2', ')', 'r', ' ', 'a']).2

/-- The second and third argument go to the rest parameter, with the comma between them. -/
theorem step_invokes_rest :
    let definition : Macro := ⟨["a"], some "r", [12, 13]⟩
    let s : Expansion := { start .standard (fun _ _ => none) used with
      macros := [("m", definition)] }
    let pending : Pending := .ofTokens (List.range 14)
    let left : Pending := ⟨[List.range' 1 13], some 0, by decide⟩
    s.Grounded pending ∧ Invokes s pending { s with lastTaken := none } "m" 0 left ∧
      s.macros.lookup "m" = some definition ∧
      Listed s.store left.tokens [2, 3, 4, 5, 6, 7, 8, 9, 10] [12, 13] ∧
      ∃ later next, s.step pending = .ok ({ s with store := later, lastTaken := none }, some next) ∧
        next.tokens.map later.text = ["1", ",", "2", "(", "x", ",", "y", ")", "r", "a"] := by
  intro definition s pending left
  have hids : ∀ id ∈ List.range 14, id < used.size := by decide +kernel
  have hgrounded : s.Grounded pending :=
    ⟨hids, List.forall_mem_singleton.mpr fun id hmem => hids id (by revert id; decide)⟩
  have hinvokes : Invokes s pending { s with lastTaken := none } "m" 0 left :=
    .word rfl rfl (by decide +kernel) (by decide +kernel)
  have hgroup : Balanced used .openParen .closeParen [.comma] [2, 3, 4, 5, 6] := by
    have hinner : Balanced used .openParen .closeParen [] [3, 4, 5] := by
      refine .cons ?_ (.cons ?_ (.cons ?_ .nil))
      all_goals decide +kernel
    exact .group (by decide +kernel) hinner (by decide +kernel) .nil
  have hrest : Balanced used .openParen .closeParen [] [8, 9, 10] := by
    refine .cons ?_ (.cons ?_ (.cons ?_ .nil))
    all_goals decide +kernel
  have hcomma : used.kind 7 = .comma := by decide +kernel
  have hlisted : Listed s.store left.tokens [2, 3, 4, 5, 6, 7, 8, 9, 10] [12, 13] := by
    refine ⟨⟨1, 11, by decide +kernel, by decide +kernel, rfl⟩, ?_, ?_⟩
    · exact (by decide +kernel : ∀ id ∈ [2, 3, 4, 5, 6, 7, 8, 9, 10], used.kind id ≠ .lineEnd)
    · exact hgroup.free.append (.cons (by rw [hcomma]; decide) hrest)
  have hothers : Separates s.store (Option.map (· - 1) (some 1)) [8, 9, 10]
      [used.uncommented [8, 9, 10]] := .rest hrest
  have hparts : Separates s.store (some 1) [2, 3, 4, 5, 6, 7, 8, 9, 10]
      [used.uncommented [2, 3, 4, 5, 6], used.uncommented [8, 9, 10]] :=
    .comma (by decide) hgroup hcomma hothers
  obtain ⟨-, huse⟩ := step_invokes hgrounded hinvokes rfl hlisted
  obtain ⟨-, -, huse⟩ := huse _ (.some (by decide +kernel) hparts)
  obtain ⟨pieces, copies, later, next, hstands, hstep, -, -, hsame, -⟩ :=
    huse (by decide) (by decide)
  rw [(Macro.forall₂_stands_iff (by decide)).mp hstands] at hsame
  refine ⟨hgrounded, hinvokes, rfl, hlisted, later, next, hstep, hsame.2.trans ?_⟩
  decide +kernel

end Expansion

end VectorStack
