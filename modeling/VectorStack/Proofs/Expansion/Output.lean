import VectorStack.Proofs.Expansion.Idempotence
/-!
What expansion puts out. Nothing is taken out of the output or of the store again, so what a run
ends with holds the output of every state on its way. Outside of argument lists a position goes to
the output as it is, a label behind the names of the open namespaces, and a word if it is no macro.
The tokens of a text that is imported are put on the stack.
-/

namespace VectorStack

namespace Expansion

variable {s after : Expansion} {pending : Pending} {left : Option Pending} {token : TokenId}
  {more ids : List TokenId} {store : TokenStore}

/-- A step adds to the store and to the output. -/
theorem grows_step (hstep : s.step pending = .ok (after, left)) :
    s.store.Extends after.store ∧ ∃ more, after.output.toList = s.output.toList ++ more := by
  unfold step at hstep
  split at hstep
  · cases hstep
    exact ⟨.refl _, [], (List.append_nil _).symm⟩
  · obtain ⟨reaction, hreact, hstep⟩ := bind_eq_ok.mp hstep
    obtain ⟨moved, -, hsame⟩ := bind_eq_ok.mp hstep
    cases hsame
    exact (outcome_react hreact).grows

theorem grows_run (hrun : s.run pending = .ok (ids, store)) :
    s.store.Extends store ∧ ∃ more, ids = s.output.toList ++ more := by
  induction s, pending using run.induct with
  | case1 s pending error hstep =>
      rw [run_eq, hstep] at hrun
      cases hrun
  | case2 s pending after hstep =>
      rw [run_eq, hstep] at hrun
      unfold finish at hrun
      dsimp only at hrun
      split at hrun <;> cases hrun
      exact grows_step hstep
  | case3 s pending after next hstep ih =>
      rw [run_eq, hstep] at hrun
      obtain ⟨hextends, more, hmore⟩ := grows_step hstep
      obtain ⟨hlater, others, rfl⟩ := ih hrun
      exact ⟨hextends.trans hlater, more ++ others, by rw [hmore, List.append_assoc]⟩

/-- A label goes to the output as one label, behind the names of the open namespaces. -/
theorem exists_emitLabel (hnamespaces : ∀ name ∈ s.namespaces, Lexer.IsWord name.toList)
    (hlt : token < s.store.size) (hkind : s.store.kind token = .label)
    (hword : Lexer.IsWord (s.store.text token).toList) :
    ∃ label store, s.emitLabel token = { s with store }.emit [label] ∧ s.store.Extends store ∧
      label < store.size ∧ store.kind label = .label ∧
      store.text label = s.qualify (s.store.text token) := by
  unfold emitLabel
  split
  · next hnone =>
      have hname : s.qualify (s.store.text token) = s.store.text token := by
        rw [qualify, qualifyIn, List.isEmpty_iff.mp hnone]
        exact String.intercalate_singleton
      exact ⟨token, s.store, rfl, .refl _, hlt, hkind, hname.symm⟩
  · obtain ⟨later, hmade, hextends, hnew, hlabel, htext⟩ :=
      @TokenStore.synthesize_label s.store token _ (isWord_qualifyIn hnamespaces hword)
    rw [← qualify] at hmade htext
    dsimp only
    rw [hmade]
    exact ⟨s.store.size, later, rfl, hextends, hnew, hlabel, htext⟩

theorem step_position (hcaptures : s.captures = []) (hkind : s.store.kind token = .position)
    (htokens : pending.tokens = token :: more) :
    ∃ next, s.step pending = .ok ({ s with lastTaken := none }.emit [token], some next) ∧
      next.tokens = more := by
  obtain ⟨left, hread, hleft⟩ := Pending.exists_read?_of_tokens htokens
  have hreact : s.react token pending.last left =
      ({ s with lastTaken := none }.emit [token]).settle token := by
    rw [react_eq_process hcaptures, process, hkind]
  obtain ⟨next, hstep, hnext⟩ := exists_step_of_react hread hreact
  exact ⟨next, hstep, hnext.trans hleft⟩

theorem step_label (hcaptures : s.captures = []) (hkind : s.store.kind token = .label)
    (htokens : pending.tokens = token :: more) :
    ∃ next, s.step pending = .ok ({ s with lastTaken := none }.emitLabel token, some next) ∧
      next.tokens = more := by
  obtain ⟨left, hread, hleft⟩ := Pending.exists_read?_of_tokens htokens
  have hreact : s.react token pending.last left =
      ({ s with lastTaken := none }.emitLabel token).settle token := by
    rw [react_eq_process hcaptures, process, hkind]
  obtain ⟨next, hstep, hnext⟩ := exists_step_of_react hread hreact
  exact ⟨next, hstep, hnext.trans hleft⟩

/-- A word that is no macro goes to the output. -/
theorem step_word (hcaptures : s.captures = []) (hkind : s.store.kind token = .word)
    (hlookup : s.lookup? (s.store.text token) = none) (htokens : pending.tokens = token :: more) :
    ∃ next, s.step pending = .ok ({ s with lastTaken := none }.emit [token], some next) ∧
      next.tokens = more := by
  obtain ⟨left, hread, hleft⟩ := Pending.exists_read?_of_tokens htokens
  have hreact : s.react token pending.last left =
      ({ s with lastTaken := none }.emit [token]).settle token := by
    rw [react_eq_process hcaptures, process, hkind]
    dsimp only
    rw [hlookup]
  obtain ⟨next, hstep, hnext⟩ := exists_step_of_react hread hreact
  exact ⟨next, hstep, hnext.trans hleft⟩

/-- The tokens of a text that is imported come on top of the stack. -/
theorem step_import {file : TokenId} {name : String} {text : List Char}
    (hcaptures : s.captures = []) (hkind : s.store.kind token = .directive)
    (hname : s.store.directiveName token = "import")
    (hfile : s.store.kind file = .word) (htokens : pending.tokens = token :: file :: more)
    (himport : s.importer (s.store.text file) (s.store.sourceOf token).name = some (name, text))
    (hroom : (pending.drop 2).frames.length < Pending.maxFrames) :
    ∃ next, s.step pending = .ok ({ s with
        lastTaken := none, store := (s.store.addText name text (some token)).2 }, some next) ∧
      next.frames = (s.store.addText name text (some token)).1 :: (pending.drop 2).frames := by
  obtain ⟨left, hread, hleft⟩ := Pending.exists_read?_of_tokens htokens
  have hdrop : pending.drop 2 = left.drop 1 := by rw [Pending.drop, hread]
  have hreact : s.react token pending.last left = .ok ⟨{ s with
      lastTaken := none, store := (s.store.addText name text (some token)).2 }, 1,
      some (s.store.addText name text (some token)).1, token⟩ := by
    have hdirective : Directive.ofName? (s.store.directiveName token) = some .importText := by
      rw [hname]
      rfl
    rw [TokenStore.directiveName] at hdirective
    rw [react_eq_process hcaptures, process, hkind]
    dsimp only
    rw [direct, hdirective]
    dsimp only
    rw [importText, hleft]
    dsimp only [TokenStore.require, bind, Except.bind]
    rw [hfile]
    dsimp only
    rw [himport]
    rfl
  rw [hdrop] at hroom ⊢
  obtain ⟨next, hpush⟩ := Option.isSome_iff_exists.mp
    ((Pending.push?_isSome_iff (left.drop 1) (s.store.addText name text (some token)).1).mpr hroom)
  refine ⟨next, ?_, ?_⟩
  · rw [step_of_react hread hreact]
    change (advance _ left >>= _) = _
    rw [advance]
    dsimp only
    rw [hpush]
    rfl
  · rw [Pending.push?, dif_pos hroom] at hpush
    cases hpush
    rfl

end Expansion

end VectorStack
