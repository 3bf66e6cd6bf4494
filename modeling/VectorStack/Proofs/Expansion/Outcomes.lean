import VectorStack.Assembly.Expansion
import VectorStack.Proofs.Expansion.Readers
import VectorStack.Proofs.Expansion.Substitution
/-!
What one token can make happen. Whichever directive, macro or argument list it belongs to, the token
either changes only what expansion remembers, or goes to the output, or opens or closes a namespace,
or puts tokens on top that were made for it.
-/

namespace VectorStack

open TokenStore

namespace Expansion

/-- Kinds of tokens that are left for the parser. -/
def IsParserKind (kind : TokenKind) : Prop :=
  kind ∉ [.comment, .directive, .openBrace, .closeBrace, .invalid]

instance : DecidablePred IsParserKind := fun kind =>
  inferInstanceAs (Decidable (kind ∉ [.comment, .directive, .openBrace, .closeBrace, .invalid]))

/-- Tokens that are still to be read, or may be read again in place of a macro. -/
def readable (s : Expansion) (tokens : List TokenId) : List TokenId :=
  tokens ++ s.macros.flatMap fun entry => entry.2.body

/-- What can become of the store, the output and the open namespaces when a token is read, where
some others are known. -/
inductive Outcome (known : List TokenId) (store : TokenStore) (output : Array TokenId)
    (namespaces : List String) (token : TokenId) : Reaction → Prop
  | quiet {after : Expansion} {consumed : Nat} {cause : TokenId} (hstore : after.store = store)
      (houtput : after.output = output) (hnamespaces : after.namespaces = namespaces) :
    Outcome known store output namespaces token ⟨after, consumed, none, cause⟩
  | emitted {after : Expansion} {consumed : Nat} {cause : TokenId}
      (hkind : IsParserKind (store.kind token)) (hstore : after.store = store)
      (houtput : after.output = output ++ [token]) (hnamespaces : after.namespaces = namespaces) :
    Outcome known store output namespaces token ⟨after, consumed, none, cause⟩
  /-- A label gets a text of its own in a namespace. -/
  | labelled {after : Expansion} {consumed : Nat} {cause : TokenId} {ids : List TokenId}
      (hkind : store.kind token = .label) (hopen : namespaces ≠ [])
      (hmade : store.synthesize token (qualifyIn namespaces (store.text token) ++ ":").toList =
        (ids, after.store))
      (houtput : after.output = output ++ ids) (hnamespaces : after.namespaces = namespaces) :
    Outcome known store output namespaces token ⟨after, consumed, none, cause⟩
  | opened {after : Expansion} {consumed : Nat} {name cause : TokenId} (hname : name ∈ known)
      (hkind : store.kind name = .word) (hstore : after.store = store)
      (houtput : after.output = output)
      (hnamespaces : after.namespaces = store.text name :: namespaces) :
    Outcome known store output namespaces token ⟨after, consumed, none, cause⟩
  | closed {after : Expansion} {consumed : Nat} {cause : TokenId} {innermost : String}
      (hstore : after.store = store) (houtput : after.output = output)
      (hnamespaces : namespaces = innermost :: after.namespaces) :
    Outcome known store output namespaces token ⟨after, consumed, none, cause⟩
  | pushed {after : Expansion} {consumed : Nat} {cause : TokenId} {ids : List TokenId}
      (hmakes : TokenStore.Makes known store ids after.store) (houtput : after.output = output)
      (hnamespaces : after.namespaces = namespaces) :
    Outcome known store output namespaces token ⟨after, consumed, some ids, cause⟩

variable {s : Expansion} {token directive cause : TokenId} {tokens known : List TokenId}
  {reaction : Reaction}

theorem body_subset_readable {key : String} {definition : Macro}
    (hlookup : s.macros.lookup key = some definition) : definition.body ⊆ s.readable tokens := by
  obtain ⟨before, after, hmacros, -⟩ := List.lookup_eq_some_iff.mp hlookup
  intro id hmem
  refine List.mem_append_right tokens (List.mem_flatMap.mpr ⟨(key, definition), ?_, hmem⟩)
  rw [hmacros]
  exact List.mem_append_right before List.mem_cons_self

/-- Text that is put on top is made for the token. -/
theorem outcome_splice (s : Expansion) (producer : TokenId) (text : List Char) (consumed : Nat) :
    Outcome known s.store s.output s.namespaces token
      (s.splice producer text consumed) :=
  .pushed (.text s.store TokenStore.expansionName text (some producer)) rfl rfl

theorem outcome_define (hreact : s.define directive tokens = .ok reaction) :
    Outcome known s.store s.output s.namespaces token reaction := by
  unfold define at hreact
  obtain ⟨⟨name, rest⟩, -, hreact⟩ := bind_eq_ok.mp hreact
  dsimp only at hreact
  split at hreact
  · cases hreact
  · obtain ⟨⟨⟨params, restName⟩, listed⟩, -, hreact⟩ := bind_eq_ok.mp hreact
    obtain ⟨⟨body, taken⟩, -, hreact⟩ := bind_eq_ok.mp hreact
    cases hreact
    exact .quiet rfl rfl rfl

theorem outcome_undefine (hreact : s.undefine directive tokens = .ok reaction) :
    Outcome known s.store s.output s.namespaces token reaction := by
  unfold undefine at hreact
  obtain ⟨⟨name, rest⟩, -, hreact⟩ := bind_eq_ok.mp hreact
  dsimp only at hreact
  split at hreact
  · cases hreact
    exact .quiet rfl rfl rfl
  · cases hreact

theorem outcome_invoke {key : String} {invoker : TokenId}
    (hreact : s.invoke key invoker tokens = .ok reaction) :
    Outcome (s.readable tokens) s.store s.output s.namespaces token reaction := by
  unfold invoke at hreact
  split at hreact
  · cases hreact
  · next definition hlookup =>
      have hbody : definition.body ⊆ s.readable tokens := body_subset_readable hlookup
      have hcopies {arguments : List (List TokenId)} (harguments : arguments.flatten ⊆ tokens) :
          definition.instantiate s.store arguments ⊆ s.readable tokens :=
        List.Subset.trans (definition.instantiate_subset s.store arguments)
          (List.append_subset.mpr ⟨hbody, List.subset_append_of_subset_left _ harguments⟩)
      dsimp only at hreact
      split at hreact
      · obtain ⟨⟨arguments, taken⟩, hread, hreact⟩ := bind_eq_ok.mp hreact
        dsimp only at hreact
        split at hreact <;> cases hreact
        exact .pushed (.copies s.store invoker (hcopies (subset_readArguments hread))) rfl rfl
      · obtain ⟨⟨arguments, taken⟩, hnone, hreact⟩ := bind_eq_ok.mp hreact
        cases hnone
        dsimp only at hreact
        split at hreact <;> cases hreact
        exact .pushed (.copies s.store invoker (hcopies (List.nil_subset tokens))) rfl rfl

theorem outcome_importText (hreact : s.importText directive tokens = .ok reaction) :
    Outcome known s.store s.output s.namespaces token reaction := by
  unfold importText at hreact
  obtain ⟨⟨target, rest⟩, -, hreact⟩ := bind_eq_ok.mp hreact
  dsimp only at hreact
  repeat' split at hreact
  all_goals
    obtain ⟨file, -, hreact⟩ := bind_eq_ok.mp hreact
    split at hreact
    · cases hreact
    · next name text himport =>
        cases hreact
        exact .pushed (.text s.store name text (some directive)) rfl rfl

theorem outcome_region (hreact : s.region directive tokens = .ok reaction) :
    Outcome known s.store s.output s.namespaces token reaction := by
  unfold region at hreact
  obtain ⟨⟨name, rest⟩, -, hreact⟩ := bind_eq_ok.mp hreact
  obtain ⟨⟨size, others⟩, -, hreact⟩ := bind_eq_ok.mp hreact
  dsimp only at hreact
  split at hreact
  · cases hreact
  · next bytes hbytes =>
      split at hreact
      · cases hreact
      · cases hreact
        exact outcome_splice { s with regionStart := s.regionStart - bytes } directive _ _

theorem outcome_enterBlock {taken isElse : Bool} {before : Nat}
    (hreact : s.enterBlock cause taken isElse before tokens = .ok reaction) :
    Outcome known s.store s.output s.namespaces token reaction := by
  unfold enterBlock at hreact
  obtain ⟨⟨opening, started⟩, -, hreact⟩ := bind_eq_ok.mp hreact
  dsimp only at hreact
  split at hreact
  · cases hreact
    exact .quiet rfl rfl rfl
  · obtain ⟨ended, -, hreact⟩ := bind_eq_ok.mp hreact
    cases hreact
    exact .quiet rfl rfl rfl

theorem outcome_condition (hreact : s.condition directive tokens = .ok reaction) :
    Outcome known s.store s.output s.namespaces token reaction := by
  unfold condition at hreact
  obtain ⟨⟨group, taken⟩, -, hreact⟩ := bind_eq_ok.mp hreact
  obtain ⟨⟨expression, rest⟩, -, hreact⟩ := bind_eq_ok.mp hreact
  obtain ⟨value, -, hreact⟩ := bind_eq_ok.mp hreact
  exact outcome_enterBlock hreact

theorem outcome_conditionDefined {wanted : Bool}
    (hreact : s.conditionDefined directive wanted tokens = .ok reaction) :
    Outcome known s.store s.output s.namespaces token reaction := by
  unfold conditionDefined at hreact
  obtain ⟨⟨name, rest⟩, -, hreact⟩ := bind_eq_ok.mp hreact
  exact outcome_enterBlock hreact

theorem outcome_otherwise {before : Option Bool}
    (hreact : s.otherwise directive before tokens = .ok reaction) :
    Outcome known s.store s.output s.namespaces token reaction := by
  unfold otherwise at hreact
  split at hreact
  · exact outcome_enterBlock hreact
  · cases hreact

theorem outcome_openNamespace (hreact : s.openNamespace directive tokens = .ok reaction) :
    Outcome (s.readable tokens) s.store s.output s.namespaces token reaction := by
  unfold openNamespace at hreact
  obtain ⟨⟨name, rest⟩, hexpect, hreact⟩ := bind_eq_ok.mp hreact
  cases hreact
  have hname : name ∈ tokens := by
    rw [tokens_of_expect hexpect]
    exact List.mem_cons_self
  exact .opened (List.mem_append_left _ hname) (kind_of_expect hexpect) rfl rfl rfl

theorem outcome_closeNamespace (hreact : s.closeNamespace directive = .ok reaction) :
    Outcome known s.store s.output s.namespaces token reaction := by
  unfold closeNamespace at hreact
  split at hreact
  · next innermost outer hopen =>
      cases hreact
      exact .closed rfl rfl hopen
  · cases hreact

theorem outcome_startCapture {splice : Splice} {afterStar : Bool}
    (hreact : s.startCapture splice directive afterStar tokens = .ok reaction) :
    Outcome known s.store s.output s.namespaces token reaction := by
  unfold startCapture at hreact
  obtain ⟨⟨opening, rest⟩, -, hreact⟩ := bind_eq_ok.mp hreact
  cases hreact
  exact .quiet rfl rfl rfl

theorem outcome_direct {before : Option Bool} {previous : Option TokenId}
    (hreact : s.direct directive before previous tokens = .ok reaction) :
    Outcome (s.readable tokens) s.store s.output s.namespaces token reaction := by
  unfold direct at hreact
  dsimp only at hreact
  split at hreact
  · exact outcome_define hreact
  · exact outcome_undefine hreact
  · exact outcome_importText hreact
  · exact outcome_region hreact
  · exact outcome_condition hreact
  · exact outcome_conditionDefined hreact
  · exact outcome_otherwise hreact
  · exact outcome_openNamespace hreact
  · exact outcome_closeNamespace hreact
  · exact outcome_startCapture hreact
  · split at hreact
    · exact outcome_invoke hreact
    · cases hreact

theorem outcome_emitLabel (hkind : s.store.kind token = .label)
    (hreact : (s.emitLabel token).settle token = .ok reaction) :
    Outcome known s.store s.output s.namespaces token reaction := by
  unfold emitLabel at hreact
  split at hreact
  · cases hreact
    exact .emitted (by rw [hkind]; decide) rfl rfl rfl
  · next hopen =>
      cases hreact
      exact .labelled hkind (mt List.isEmpty_iff.mpr hopen) rfl rfl rfl

theorem outcome_process {previous : Option TokenId} {pending : Pending}
    (hreact : s.process token previous pending = .ok reaction) :
    Outcome (s.readable pending.tokens) s.store s.output s.namespaces token reaction := by
  unfold process at hreact
  dsimp only at hreact
  split at hreact
  · cases hreact
    exact .quiet rfl rfl rfl
  · next hkind =>
      cases hreact
      exact .emitted (by rw [hkind]; decide) rfl rfl rfl
  · cases hreact
  · cases hreact
  · split at hreact
    · cases hreact
    · cases hreact
      exact .quiet rfl rfl rfl
  · exact outcome_direct (s := { s with lastTaken := none }) hreact
  · next hkind => exact outcome_emitLabel (s := { s with lastTaken := none }) hkind hreact
  · next hkind =>
      split at hreact
      · exact outcome_invoke (s := { s with lastTaken := none }) hreact
      · cases hreact
        exact .emitted (by rw [hkind]; decide) rfl rfl rfl
  · next kind hcomment _ hinvalid hopen hclose hdirective _ _ =>
      cases hreact
      refine .emitted ?_ rfl rfl rfl
      intro hmem
      simp only [List.mem_cons, List.not_mem_nil, or_false] at hmem
      rcases hmem with h | h | h | h | h
      · exact hcomment h
      · exact hdirective h
      · exact hopen h
      · exact hclose h
      · exact hinvalid h

theorem outcome_finishCapture {capture : Capture} {arguments : List (List TokenId)}
    (hreact : s.finishCapture capture arguments tokens = .ok reaction) :
    Outcome (s.readable tokens) s.store s.output s.namespaces token reaction := by
  unfold finishCapture at hreact
  dsimp only at hreact
  split at hreact
  · obtain ⟨word, -, hreact⟩ := bind_eq_ok.mp hreact
    cases hreact
    exact outcome_splice _ _ _ _
  · obtain ⟨word, -, hreact⟩ := bind_eq_ok.mp hreact
    split at hreact
    · exact outcome_invoke hreact
    · cases hreact
  · split at hreact
    · cases hreact
      exact outcome_splice _ _ _ _
    · cases hreact
  · obtain ⟨word, -, hreact⟩ := bind_eq_ok.mp hreact
    cases hreact
    exact outcome_splice _ _ _ _
  · obtain ⟨⟨sum, widths⟩, -, hreact⟩ := bind_eq_ok.mp hreact
    cases hreact
    have hstar : ¬ Lexer.IsWordKind .star := by decide
    have hnumber : ¬ Lexer.IsWordKind .number := by decide
    refine .pushed ?_ rfl rfl
    dsimp only
    split
    · exact .append (.single _ _ _ hstar) (.single _ _ _ hnumber)
    · exact .single _ _ _ hnumber

theorem outcome_feedCapture {capture : Capture} {outer : List Capture} {previous : Option TokenId}
    {pending : Pending}
    (hreact : s.feedCapture capture outer token previous pending = .ok reaction) :
    Outcome (s.readable pending.tokens) s.store s.output s.namespaces token reaction := by
  unfold feedCapture at hreact
  split at hreact
  · cases hreact
  · exact outcome_direct hreact
  · split at hreact
    · cases hreact
      exact .quiet rfl rfl rfl
    · exact outcome_finishCapture (s := { s with captures := outer }) hreact

/-- Everything that reading a token can lead to. -/
theorem outcome_react {previous : Option TokenId} {pending : Pending}
    (hreact : s.react token previous pending = .ok reaction) :
    Outcome (s.readable pending.tokens) s.store s.output s.namespaces token reaction := by
  unfold react at hreact
  split at hreact
  · exact outcome_process hreact
  · exact outcome_feedCapture hreact

/-- Whatever happens, the store and the output keep what they have. -/
theorem Outcome.grows {store : TokenStore} {output : Array TokenId} {namespaces : List String}
    (houtcome : Outcome known store output namespaces token reaction) :
    store.Extends reaction.state.store ∧
      ∃ more, reaction.state.output.toList = output.toList ++ more := by
  cases houtcome with
  | quiet hstore houtput | opened _ _ hstore houtput | closed hstore houtput =>
      exact ⟨hstore ▸ .refl _, [], by simp [houtput]⟩
  | emitted _ hstore houtput => exact ⟨hstore ▸ .refl _, [token], by simp [houtput]⟩
  | @labelled after _ _ ids _ _ hmade houtput =>
      have hextends := store.extends_addText TokenStore.expansionName
        (qualifyIn namespaces (store.text token) ++ ":").toList (some token)
      rw [← TokenStore.synthesize_eq, hmade] at hextends
      exact ⟨hextends, ids, by simp [houtput]⟩
  | pushed hmakes houtput => exact ⟨hmakes.toExtends, [], by simp [houtput]⟩

end Expansion

end VectorStack
