import VectorStack.Proofs.Expansion.Readers
import VectorStack.Proofs.Expansion.Step
/-!
What reading a token changes in what expansion remembers. A macro is defined or forgotten, or a
block is opened or the innermost one closed, and never more than one of these. So the bodies of
macros were all read from somewhere, and a block stays open below all that are opened within it.
-/

namespace VectorStack

open TokenStore

namespace Expansion

/-- What can become of macros and open blocks when tokens are read. -/
inductive Changes (macros : List (String × Macro)) (blocks : List Block) (tokens : List TokenId)
    (after : Expansion) : Prop
  | none (hmacros : after.macros = macros) (hblocks : after.blocks = blocks)
  | defined {key : String} {definition : Macro}
      (hmacros : after.macros = (key, definition) :: macros) (hbody : definition.body ⊆ tokens)
      (hblocks : after.blocks = blocks)
  | undefined {key : String} (hmacros : after.macros = macros.filter (·.1 != key))
      (hblocks : after.blocks = blocks)
  | opened {block : Block} (hmacros : after.macros = macros)
      (hblocks : after.blocks = block :: blocks)
  | closed {block : Block} (hmacros : after.macros = macros)
      (hblocks : blocks = block :: after.blocks)

variable {s : Expansion} {token directive cause : TokenId} {tokens : List TokenId}
  {reaction : Reaction}

theorem changes_define (hreact : s.define directive tokens = .ok reaction) :
    Changes s.macros s.blocks tokens reaction.state := by
  unfold define at hreact
  obtain ⟨⟨name, rest⟩, hexpect, hreact⟩ := bind_eq_ok.mp hreact
  have htokens := tokens_of_expect hexpect
  dsimp only at hreact
  split at hreact
  · cases hreact
  · obtain ⟨⟨⟨params, restName⟩, listed⟩, -, hreact⟩ := bind_eq_ok.mp hreact
    obtain ⟨⟨body, taken⟩, hbody, hreact⟩ := bind_eq_ok.mp hreact
    cases hreact
    refine .defined rfl ?_ rfl
    have hrest : body ⊆ rest := List.Subset.trans (subset_readBody hbody) (List.drop_subset _ _)
    rw [htokens]
    exact List.Subset.trans hrest (List.subset_cons_self name rest)

theorem changes_undefine (hreact : s.undefine directive tokens = .ok reaction) :
    Changes s.macros s.blocks tokens reaction.state := by
  unfold undefine at hreact
  obtain ⟨⟨name, rest⟩, -, hreact⟩ := bind_eq_ok.mp hreact
  dsimp only at hreact
  split at hreact
  · cases hreact
    exact .undefined rfl rfl
  · cases hreact

theorem changes_invoke {key : String} {invoker : TokenId}
    (hreact : s.invoke key invoker tokens = .ok reaction) :
    Changes s.macros s.blocks tokens reaction.state := by
  unfold invoke at hreact
  split at hreact
  · cases hreact
  · dsimp only at hreact
    split at hreact
    all_goals
      obtain ⟨⟨arguments, taken⟩, -, hreact⟩ := bind_eq_ok.mp hreact
      dsimp only at hreact
      split at hreact
      · cases hreact
        exact .none rfl rfl
      · cases hreact

theorem changes_importText (hreact : s.importText directive tokens = .ok reaction) :
    Changes s.macros s.blocks tokens reaction.state := by
  unfold importText at hreact
  obtain ⟨⟨target, rest⟩, -, hreact⟩ := bind_eq_ok.mp hreact
  dsimp only at hreact
  repeat' split at hreact
  all_goals
    obtain ⟨file, -, hreact⟩ := bind_eq_ok.mp hreact
    split at hreact
    · cases hreact
    · cases hreact
      exact .none rfl rfl

theorem changes_region (hreact : s.region directive tokens = .ok reaction) :
    Changes s.macros s.blocks tokens reaction.state := by
  unfold region at hreact
  obtain ⟨⟨name, rest⟩, -, hreact⟩ := bind_eq_ok.mp hreact
  obtain ⟨⟨size, others⟩, -, hreact⟩ := bind_eq_ok.mp hreact
  dsimp only at hreact
  split at hreact
  · cases hreact
  · split at hreact
    · cases hreact
    · cases hreact
      exact .none rfl rfl

theorem changes_enterBlock {taken isElse : Bool} {before : Nat} {others : List TokenId}
    (hreact : s.enterBlock cause taken isElse before others = .ok reaction) :
    Changes s.macros s.blocks tokens reaction.state := by
  unfold enterBlock at hreact
  obtain ⟨⟨opening, started⟩, -, hreact⟩ := bind_eq_ok.mp hreact
  dsimp only at hreact
  split at hreact
  · cases hreact
    exact .opened rfl rfl
  · obtain ⟨ended, -, hreact⟩ := bind_eq_ok.mp hreact
    cases hreact
    exact .none rfl rfl

theorem changes_direct {before : Option Bool} {previous : Option TokenId}
    (hreact : s.direct directive before previous tokens = .ok reaction) :
    Changes s.macros s.blocks tokens reaction.state := by
  unfold direct at hreact
  dsimp only at hreact
  split at hreact
  · exact changes_define hreact
  · exact changes_undefine hreact
  · exact changes_importText hreact
  · exact changes_region hreact
  · obtain ⟨⟨group, taken⟩, -, hreact⟩ := bind_eq_ok.mp hreact
    obtain ⟨⟨expression, rest⟩, -, hreact⟩ := bind_eq_ok.mp hreact
    obtain ⟨value, -, hreact⟩ := bind_eq_ok.mp hreact
    exact changes_enterBlock hreact
  · obtain ⟨⟨name, rest⟩, -, hreact⟩ := bind_eq_ok.mp hreact
    exact changes_enterBlock hreact
  · unfold otherwise at hreact
    split at hreact
    · exact changes_enterBlock hreact
    · cases hreact
  · obtain ⟨⟨name, rest⟩, -, hreact⟩ := bind_eq_ok.mp hreact
    cases hreact
    exact .none rfl rfl
  · unfold closeNamespace at hreact
    split at hreact <;> cases hreact
    exact .none rfl rfl
  · obtain ⟨⟨opening, rest⟩, -, hreact⟩ := bind_eq_ok.mp hreact
    cases hreact
    exact .none rfl rfl
  · split at hreact
    · exact changes_invoke hreact
    · cases hreact

theorem changes_process {previous : Option TokenId} {pending : Pending}
    (hreact : s.process token previous pending = .ok reaction) :
    Changes s.macros s.blocks pending.tokens reaction.state := by
  unfold process at hreact
  dsimp only at hreact
  split at hreact
  · cases hreact
    exact .none rfl rfl
  · cases hreact
    exact .none rfl rfl
  · cases hreact
  · cases hreact
  · split at hreact
    · cases hreact
    · next block outer hblocks =>
        cases hreact
        exact .closed rfl hblocks
  · exact changes_direct (s := { s with lastTaken := none }) hreact
  · cases hreact
    unfold emitLabel
    split <;> exact .none rfl rfl
  · split at hreact
    · exact changes_invoke (s := { s with lastTaken := none }) hreact
    · cases hreact
      exact .none rfl rfl
  · cases hreact
    exact .none rfl rfl

theorem changes_finishCapture {capture : Capture} {arguments : List (List TokenId)}
    (hreact : s.finishCapture capture arguments tokens = .ok reaction) :
    Changes s.macros s.blocks tokens reaction.state := by
  unfold finishCapture at hreact
  dsimp only at hreact
  split at hreact
  · obtain ⟨word, -, hreact⟩ := bind_eq_ok.mp hreact
    cases hreact
    exact .none rfl rfl
  · obtain ⟨word, -, hreact⟩ := bind_eq_ok.mp hreact
    split at hreact
    · exact changes_invoke hreact
    · cases hreact
  · split at hreact <;> cases hreact
    exact .none rfl rfl
  · obtain ⟨word, -, hreact⟩ := bind_eq_ok.mp hreact
    cases hreact
    exact .none rfl rfl
  · obtain ⟨⟨sum, widths⟩, -, hreact⟩ := bind_eq_ok.mp hreact
    cases hreact
    exact .none rfl rfl

theorem changes_react {previous : Option TokenId} {pending : Pending}
    (hreact : s.react token previous pending = .ok reaction) :
    Changes s.macros s.blocks pending.tokens reaction.state := by
  unfold react at hreact
  split at hreact
  · exact changes_process hreact
  · next capture outer hcaptures =>
      unfold feedCapture at hreact
      split at hreact
      · cases hreact
      · exact changes_direct hreact
      · split at hreact
        · cases hreact
          exact .none rfl rfl
        · exact changes_finishCapture (s := { s with captures := outer }) hreact

variable {pending next : Pending} {after : Expansion} {left : Option Pending}

/-- What a step does to macros and open blocks. -/
theorem changes_step (hstep : s.step pending = .ok (after, left)) :
    Changes s.macros s.blocks pending.tokens after := by
  unfold step at hstep
  split at hstep
  · cases hstep
    exact .none rfl rfl
  · next token rest hread =>
      obtain ⟨reaction, hreact, hstep⟩ := bind_eq_ok.mp hstep
      obtain ⟨moved, -, hstep⟩ := bind_eq_ok.mp hstep
      cases hstep
      have hrest : rest.tokens ⊆ pending.tokens := (Pending.mem_of_read? hread).2
      cases changes_react hreact with
      | none hmacros hblocks => exact .none hmacros hblocks
      | defined hmacros hbody hblocks =>
          exact .defined hmacros (List.Subset.trans hbody hrest) hblocks
      | undefined hmacros hblocks => exact .undefined hmacros hblocks
      | opened hmacros hblocks => exact .opened hmacros hblocks
      | closed hmacros hblocks => exact .closed hmacros hblocks

end Expansion

end VectorStack
