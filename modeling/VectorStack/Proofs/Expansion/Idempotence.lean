import VectorStack.Proofs.Expansion.Changes
import VectorStack.Proofs.Expansion.Outcomes
import VectorStack.Proofs.Expansion.Termination
import VectorStack.Proofs.Token.Synthesis
/-!
What expansion leaves is left as it is. The output holds nothing but tokens for the parser: labels
that namespaces are put in front of are cut into one label each. Without macros and open namespaces
every such token goes to the output unchanged.
-/

namespace VectorStack

namespace Expansion

variable {s after : Expansion} {pending next : Pending} {token : TokenId}

/-- A name is a word in the namespaces of words. -/
theorem isWord_qualifyIn {namespaces : List String} {name : String}
    (hnamespaces : ∀ outer ∈ namespaces, Lexer.IsWord outer.toList)
    (hname : Lexer.IsWord name.toList) : Lexer.IsWord (qualifyIn namespaces name).toList := by
  have hwords : ∀ part ∈ namespaces.reverse ++ [name], Lexer.IsWord part.toList := by
    intro part hmem
    rcases List.mem_append.mp hmem with hmem | hmem
    · exact hnamespaces part (List.mem_reverse.mp hmem)
    · rwa [List.mem_singleton.mp hmem]
  have hne : namespaces.reverse ++ [name] ≠ [] := List.append_ne_nil_of_right_ne_nil _ nofun
  rw [qualifyIn]
  generalize namespaces.reverse ++ [name] = parts at hwords hne
  induction parts with
  | nil => exact absurd rfl hne
  | cons first rest ih =>
      have hfirst := hwords first List.mem_cons_self
      cases rest with
      | nil => rwa [String.intercalate_singleton]
      | cons second rest =>
          have hrest := ih (fun part hmem => hwords part (List.mem_cons_of_mem first hmem)) nofun
          rw [String.intercalate_cons_cons, String.toList_append, String.toList_append]
          exact (hfirst.append (List.all_eq_true.mp rfl)).append hrest.isWordChar

/-- What expansion keeps: words and labels are spelled as words wherever it finds them, and the
output is for the parser. -/
structure Sound (s : Expansion) (pending : Pending) : Prop where
  readable : s.store.Spelled (s.readable pending.tokens)
  output : s.store.Spelled s.output.toList
  output_kind : ∀ id ∈ s.output.toList, IsParserKind (s.store.kind id)
  namespaces_isWord : ∀ name ∈ s.namespaces, Lexer.IsWord name.toList

/-- The bodies of macros are made of tokens that could be read before. -/
theorem readable_subset_of_changes {tokens others : List TokenId}
    (hchanges : Changes s.macros s.blocks tokens after) :
    after.readable others ⊆ others ++ s.readable tokens := by
  have hbodies : (after.macros.flatMap fun entry => entry.2.body) ⊆ s.readable tokens := by
    cases hchanges with
    | none hmacros | opened hmacros | closed hmacros =>
        rw [hmacros]
        exact List.subset_append_right _ _
    | defined hmacros hbody =>
        rw [hmacros, List.flatMap_cons]
        exact List.append_subset.mpr ⟨List.subset_append_of_subset_left _ hbody,
          List.subset_append_right _ _⟩
    | undefined hmacros =>
        rw [hmacros]
        intro id hmem
        obtain ⟨entry, hentry, hid⟩ := List.mem_flatMap.mp hmem
        exact List.mem_append_right _
          (List.mem_flatMap.mpr ⟨entry, List.mem_of_mem_filter hentry, hid⟩)
  exact List.append_subset.mpr ⟨List.subset_append_left _ _,
    List.subset_append_of_subset_right _ hbodies⟩

namespace Sound

theorem spelled_pending (hsound : s.Sound pending) : s.store.Spelled pending.tokens :=
  hsound.readable.subset (List.subset_append_left _ _)

/-- A label that is made of the names of namespaces and its own is a label again. -/
theorem spelled_qualified (hsound : s.Sound pending) (htoken : s.store.IsSpelled token)
    (hkind : s.store.kind token = .label) {ids : List TokenId} {later : TokenStore}
    (hmade : s.store.synthesize token
      (qualifyIn s.namespaces (s.store.text token) ++ ":").toList = (ids, later)) :
    later.Spelled ids ∧ ∀ id ∈ ids, IsParserKind (later.kind id) := by
  have hword := isWord_qualifyIn hsound.namespaces_isWord (htoken.isWord_text (.inr hkind))
  have hspelled := s.store.spelled_addText TokenStore.expansionName
    (qualifyIn s.namespaces (s.store.text token) ++ ":").toList (some token)
  obtain ⟨made, hlabel, -, -, hlabelled, -⟩ := @TokenStore.synthesize_label s.store token _ hword
  rw [← TokenStore.synthesize_eq, hmade] at hspelled
  rw [hmade] at hlabel
  cases hlabel
  refine ⟨hspelled, fun id hmem => ?_⟩
  rw [List.mem_singleton.mp hmem, hlabelled]
  decide

/-- What a token adds to the output is spelled and is for the parser. -/
theorem output_of_outcome {reaction : Reaction} {known : List TokenId} (hsound : s.Sound pending)
    (htoken : s.store.IsSpelled token)
    (houtcome : Outcome known s.store s.output s.namespaces token reaction) :
    reaction.state.store.Spelled reaction.state.output.toList ∧
      ∀ id ∈ reaction.state.output.toList, IsParserKind (reaction.state.store.kind id) := by
  have hextends := houtcome.grows.1
  have houtput := hextends.spelled hsound.output
  have hkinds : ∀ id ∈ s.output.toList, IsParserKind (reaction.state.store.kind id) := by
    intro id hmem
    rw [hextends.kind_eq (hsound.output id hmem).lt_size]
    exact hsound.output_kind id hmem
  cases houtcome with
  | quiet _ hsame | opened _ _ _ hsame | closed _ hsame | pushed _ hsame =>
      rw [hsame]
      exact ⟨houtput, hkinds⟩
  | emitted hkind hstore hadded =>
      rw [hadded, Array.toList_appendList]
      have htoken := hextends.isSpelled htoken
      refine ⟨TokenStore.spelled_append.mpr ⟨houtput, List.forall_mem_singleton.mpr htoken⟩,
        List.forall_mem_append.mpr ⟨hkinds, List.forall_mem_singleton.mpr ?_⟩⟩
      rw [hstore]
      exact hkind
  | labelled hkind hopen hmade hadded =>
      rw [hadded, Array.toList_appendList]
      obtain ⟨hspelled, hids⟩ := hsound.spelled_qualified htoken hkind hmade
      exact ⟨TokenStore.spelled_append.mpr ⟨houtput, hspelled⟩,
        List.forall_mem_append.mpr ⟨hkinds, hids⟩⟩

theorem namespaces_of_outcome {reaction : Reaction} {known : List TokenId}
    (hsound : s.Sound pending) (hknown : s.store.Spelled known)
    (houtcome : Outcome known s.store s.output s.namespaces token reaction) :
    ∀ name ∈ reaction.state.namespaces, Lexer.IsWord name.toList := by
  have hwords := hsound.namespaces_isWord
  cases houtcome with
  | quiet _ _ hsame | emitted _ _ _ hsame | labelled _ _ _ _ hsame | pushed _ _ hsame =>
      rwa [hsame]
  | opened hname hkind _ _ hopened =>
      rw [hopened]
      exact List.forall_mem_cons.mpr ⟨(hknown _ hname).isWord_text (.inl hkind), hwords⟩
  | closed _ _ hclosed =>
      rw [hclosed] at hwords
      exact (List.forall_mem_cons.mp hwords).2

theorem frame_of_outcome {reaction : Reaction} {known : List TokenId}
    (hknown : s.store.Spelled known)
    (houtcome : Outcome known s.store s.output s.namespaces token reaction) :
    reaction.state.store.Spelled (reaction.frame.getD []) := by
  cases houtcome with
  | pushed hmakes => exact hmakes.spelled hknown
  | quiet | emitted | labelled | opened | closed => nofun

/-- A step keeps what is sound, also the last one. -/
theorem step (hsound : s.Sound pending) {left : Option Pending}
    (hstep : s.step pending = .ok (after, left)) : after.Sound (left.getD pending) := by
  unfold Expansion.step at hstep
  cases hread : pending.read? with
  | none =>
      rw [hread] at hstep
      cases hstep
      exact hsound
  | some found =>
      obtain ⟨token, rest⟩ := found
      rw [hread] at hstep
      obtain ⟨reaction, hreact, hstep⟩ := bind_eq_ok.mp hstep
      obtain ⟨next, hadvance, hstep⟩ := bind_eq_ok.mp hstep
      cases hstep
      obtain ⟨htoken, hrest⟩ := Pending.mem_of_read? hread
      have houtcome := outcome_react hreact
      have htoken := hsound.spelled_pending token htoken
      have hknown : s.store.Spelled (s.readable rest.tokens) :=
        hsound.readable.subset (List.append_subset.mpr
          ⟨List.subset_append_of_subset_left _ hrest, List.subset_append_right _ _⟩)
      have hlater := houtcome.grows.1.spelled hknown
      obtain ⟨houtput, hkinds⟩ := hsound.output_of_outcome htoken houtcome
      refine ⟨?_, houtput, hkinds, hsound.namespaces_of_outcome hknown houtcome⟩
      have hnext : reaction.state.store.Spelled next.tokens :=
        (TokenStore.spelled_append.mpr ⟨frame_of_outcome hknown houtcome,
          hlater.subset (List.subset_append_left _ _)⟩).subset (subset_of_advance hadvance)
      exact (TokenStore.spelled_append.mpr ⟨hnext, hlater⟩).subset
        (readable_subset_of_changes (changes_react hreact))

theorem start {config : AssemblyConfig} {importer : Importer} {store : TokenStore}
    {tokens : List TokenId} (hspelled : store.Spelled tokens) :
    (Expansion.start config importer store).Sound (.ofTokens tokens) where
  readable := TokenStore.spelled_append.mpr ⟨hspelled, nofun⟩
  output := nofun
  output_kind := nofun
  namespaces_isWord := nofun

/-- A run from a sound state leaves tokens for the parser. -/
theorem run {answer : List TokenId × TokenStore} (hsound : s.Sound pending)
    (hrun : s.run pending = .ok answer) :
    ∀ id ∈ answer.1, IsParserKind (answer.2.kind id) := by
  induction s, pending using run.induct with
  | case1 s pending error hstep =>
      rw [run_eq, hstep] at hrun
      cases hrun
  | case2 s pending after hstep =>
      have hafter := hsound.step hstep
      rw [run_eq, hstep] at hrun
      unfold finish at hrun
      dsimp only at hrun
      split at hrun
      · cases hrun
      · cases hrun
      · cases hrun
        exact hafter.output_kind
  | case3 s pending after next hstep ih =>
      rw [run_eq, hstep] at hrun
      exact ih (hsound.step hstep) hrun

end Sound

/-- No macro, namespace, block or argument list is known. -/
structure Idle (s : Expansion) : Prop where
  macros_eq : s.macros = []
  namespaces_eq : s.namespaces = []
  blocks_eq : s.blocks = []
  captures_eq : s.captures = []

namespace Idle

theorem lookup?_eq_none (hidle : s.Idle) (name : String) : s.lookup? name = none := by
  rw [lookup?, List.find?_eq_none]
  intro key hmem
  rw [isDefined, hidle.macros_eq]
  exact Bool.false_ne_true

theorem emit {before : Expansion} (hidle : before.Idle) (tokens : List TokenId) :
    (before.emit tokens).Idle :=
  ⟨hidle.macros_eq, hidle.namespaces_eq, hidle.blocks_eq, hidle.captures_eq⟩

/-- A token for the parser goes to the output. -/
theorem react (hidle : s.Idle) (hkind : IsParserKind (s.store.kind token))
    (previous : Option TokenId) (pending : Pending) :
    ∃ after, s.react token previous pending = .ok ⟨after, 0, none, token⟩ ∧ after.Idle ∧
      after.store = s.store ∧ after.output = s.output ++ [token] := by
  have hfresh : ({ s with lastTaken := none } : Expansion).Idle :=
    ⟨hidle.macros_eq, hidle.namespaces_eq, hidle.blocks_eq, hidle.captures_eq⟩
  unfold Expansion.react
  rw [hidle.captures_eq]
  dsimp only
  unfold process
  dsimp only
  split
  · next hcomment => exact absurd hkind (by rw [hcomment]; decide)
  · exact ⟨_, rfl, hidle.emit _, rfl, rfl⟩
  · next hinvalid => exact absurd hkind (by rw [hinvalid]; decide)
  · next hopen => exact absurd hkind (by rw [hopen]; decide)
  · next hclose => exact absurd hkind (by rw [hclose]; decide)
  · next hdirective => exact absurd hkind (by rw [hdirective]; decide)
  · have hlabel : emitLabel { s with lastTaken := none } token =
        Expansion.emit { s with lastTaken := none } [token] :=
      if_pos (List.isEmpty_iff.mpr hidle.namespaces_eq)
    rw [hlabel]
    exact ⟨_, rfl, hfresh.emit _, rfl, rfl⟩
  · rw [hidle.lookup?_eq_none]
    exact ⟨_, rfl, hfresh.emit _, rfl, rfl⟩
  · exact ⟨_, rfl, hfresh.emit _, rfl, rfl⟩

/-- Tokens for the parser all go to the output, in order. -/
theorem run {tokens : List TokenId} (hidle : s.Idle) (htokens : pending.tokens = tokens)
    (hkind : ∀ token ∈ tokens, IsParserKind (s.store.kind token)) :
    s.run pending = .ok (s.output.toList ++ tokens, s.store) := by
  induction tokens generalizing s pending with
  | nil =>
      have hread : pending.read? = none := by
        cases hread : pending.read? with
        | none => rfl
        | some found =>
            rw [Pending.tokens_of_read? hread] at htokens
            cases htokens
      have hstep : s.step pending = .ok (s, none) := by
        rw [Expansion.step, hread]
      rw [run_eq, hstep]
      dsimp only
      rw [finish, hidle.captures_eq, hidle.blocks_eq, List.append_nil]
  | cons token rest ih =>
      cases hread : pending.read? with
      | none =>
          rw [Pending.tokens_of_read?_eq_none hread] at htokens
          cases htokens
      | some found =>
          obtain ⟨first, left⟩ := found
          rw [Pending.tokens_of_read? hread] at htokens
          cases htokens
          obtain ⟨after, hreact, hafter, hstore, houtput⟩ :=
            hidle.react (hkind _ List.mem_cons_self) pending.last left
          have hstep : s.step pending = .ok (after, some left) := by
            rw [Expansion.step, hread]
            dsimp only
            rw [hreact]
            rfl
          rw [run_eq, hstep]
          dsimp only
          rw [ih hafter rfl, hstore, houtput, Array.toList_appendList, List.append_assoc]
          · rfl
          · intro id hmem
            rw [hstore]
            exact hkind id (List.mem_cons_of_mem _ hmem)

end Idle

/-- Tokens for the parser are expanded already. -/
theorem expand_eq_self {store : TokenStore} {tokens : List TokenId} (config : AssemblyConfig)
    (importer : Importer) (hkind : ∀ token ∈ tokens, IsParserKind (store.kind token)) :
    expand config importer store tokens = .ok (tokens, store) := by
  have hidle : (start config importer store).Idle := ⟨rfl, rfl, rfl, rfl⟩
  exact hidle.run rfl hkind

/-- Expansion of tokens whose words and labels are spelled as words, as those of a text are, leaves
nothing but tokens for the parser, and expanding those again, whatever there is to import, gives the
same tokens. -/
theorem expand_idempotent {config : AssemblyConfig} {importer : Importer} {store later : TokenStore}
    {tokens result : List TokenId} (hspelled : store.Spelled tokens)
    (hexpand : expand config importer store tokens = .ok (result, later)) :
    (∀ token ∈ result, IsParserKind (later.kind token)) ∧
      ∀ other, expand config other later result = .ok (result, later) := by
  have hkind := (Sound.start hspelled).run hexpand
  exact ⟨hkind, fun other => expand_eq_self config other hkind⟩

/-- A namespace, a comment and a label. -/
def namespaced : List TokenId × TokenStore :=
  TokenStore.empty.load "main" ['.', 'n', 's', ' ', 'o', '#', '\n', 'a', ':']

theorem expand_idempotent_namespaced :
    ∃ result later,
      namespaced.2.Spelled namespaced.1 ∧
      expand .standard (fun _ _ => none) namespaced.2 namespaced.1 = .ok (result, later) ∧
      result.map later.text = ["\n", "o.a"] ∧
      expand .standard (fun _ _ => some ("other", ['x'])) later result = .ok (result, later) := by
  have hruns : (runWithin? 8 (.start .standard (fun _ _ => none) namespaced.2)
      (.ofTokens namespaced.1)).bind (fun answer => answer.toOption.map fun found =>
        found.1.map found.2.text) = some ["\n", "o.a"] := by decide +kernel
  obtain ⟨⟨result, later⟩, hexpand, htext⟩ := exists_answer hruns
  have hspelled := TokenStore.empty.spelled_addText "main"
    ['.', 'n', 's', ' ', 'o', '#', '\n', 'a', ':'] none
  exact ⟨result, later, hspelled, hexpand, htext, (expand_idempotent hspelled hexpand).2 _⟩

/-- A namespace, and a label that was made of a text that is no word. -/
def misspelled : List TokenId × TokenStore :=
  let (ids, store) := TokenStore.empty.load "main" ['.', 'n', 's', ' ', 'o']
  let (label, store) := store.synthesizeToken 0 .label ['x', '\x7b']
  (ids ++ [label], store)

/-- The label that is put together is cut into three tokens. Two of them are not for the parser, and
the brace is a fault when it is expanded again. -/
theorem expand_misspelled :
    ∃ result later,
      expand .standard (fun _ _ => none) misspelled.2 misspelled.1 = .ok (result, later) ∧
      result.map later.kind = [.word, .openBrace, .invalid] ∧
      result.map later.text = ["o.x", "\x7b", ":"] ∧
      ¬ (∀ token ∈ result, IsParserKind (later.kind token)) ∧
      ¬ (expand .standard (fun _ _ => none) later result).isOk := by
  have hruns : (runWithin? 8 (.start .standard (fun _ _ => none) misspelled.2)
      (.ofTokens misspelled.1)).bind (fun answer => answer.toOption.map fun found =>
        (found.1.map found.2.kind, found.1.map found.2.text,
          (runWithin? 8 (.start .standard (fun _ _ => none) found.2) (.ofTokens found.1)).map
            Except.isOk)) =
      some ([.word, .openBrace, .invalid], ["o.x", "\x7b", ":"], some false) := by decide +kernel
  obtain ⟨⟨result, later⟩, hexpand, hread⟩ := exists_answer hruns
  obtain ⟨hkinds, hread⟩ := Prod.mk.inj hread
  obtain ⟨htexts, hread⟩ := Prod.mk.inj hread
  obtain ⟨again, hwithin, hfails⟩ := Option.map_eq_some_iff.mp hread
  have hagain : expand .standard (fun _ _ => none) later result = again := run_of_runWithin? hwithin
  refine ⟨result, later, hexpand, hkinds, htexts, fun hparser => ?_, ?_⟩
  · have hbrace : TokenKind.openBrace ∈ result.map later.kind := by
      rw [hkinds]
      decide
    obtain ⟨token, hmem, hkind⟩ := List.mem_map.mp hbrace
    exact absurd (hkind ▸ hparser token hmem) (by decide)
  · rw [hagain, hfails]
    exact Bool.false_ne_true

end Expansion

end VectorStack
