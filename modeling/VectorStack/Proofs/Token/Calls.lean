import VectorStack.Proofs.Token.Endings
import VectorStack.Proofs.Token.Provenance
/-!
Calls that add to a store. Whatever they are, as long as they name only what the store has, every
token lies in its text and comes behind its parent. Nothing that the store has changes: a token goes
on to have its kind, its characters, its place, its line and its trace.
-/

namespace VectorStack

namespace TokenStore

/-- What a store can be asked to add. -/
inductive Call where
  | addSource (name : String) (text : List Char) (producer : Option TokenId)
  | load (name : String) (text : List Char)
  | lex (source : SourceId) (parent : Option TokenId)
  /-- A text that is put together from parts. -/
  | synthesize (producer : TokenId) (parts : List (List Char))
  | synthesizeToken (producer : TokenId) (kind : TokenKind) (text : List Char)
  | copy (template parent : TokenId)

/-- Do what is asked. The tokens are those that are new. -/
def perform (store : TokenStore) : Call → List TokenId × TokenStore
  | .addSource name text producer => ([], (store.addSource name text producer).2)
  | .load name text => store.load name text
  | .lex source parent => store.lex source parent
  | .synthesize producer parts => store.synthesize producer parts.flatten
  | .synthesizeToken producer kind text =>
    let (id, later) := store.synthesizeToken producer kind text
    ([id], later)
  | .copy template parent =>
    let (id, later) := store.copy template parent
    ([id], later)

/-- The tokens and texts that a call works on are there. -/
def Knows (store : TokenStore) : Call → Prop
  | .addSource .. | .load .. => True
  | .lex source parent => source < store.sources.size ∧ ∀ id ∈ parent, id < store.size
  | .synthesize producer _ | .synthesizeToken producer _ _ => producer < store.size
  | .copy template parent => template < store.size ∧ parent < store.size

instance (store : TokenStore) : (call : Call) → Decidable (store.Knows call)
  | .addSource .. | .load .. => inferInstanceAs (Decidable True)
  | .lex .. => inferInstanceAs (Decidable (_ ∧ _))
  | .synthesize .. | .synthesizeToken .. => inferInstanceAs (Decidable (_ < _))
  | .copy .. => inferInstanceAs (Decidable (_ ∧ _))

/-- The store after calls, the last of which comes first. -/
def after : List Call → TokenStore
  | [] => empty
  | call :: earlier => ((after earlier).perform call).2

/-- Every call works on what was there when it was made. -/
def Valid : List Call → Prop
  | [] => True
  | call :: earlier => Valid earlier ∧ (after earlier).Knows call

instance Valid.decidable : (calls : List Call) → Decidable (Valid calls)
  | [] => inferInstanceAs (Decidable True)
  | _ :: earlier =>
    haveI := Valid.decidable earlier
    inferInstanceAs (Decidable (_ ∧ _))

/-- The text that a call adds, if any. -/
def Call.sources : Call → List Source
  | .addSource name text producer => [⟨name, text.toArray, producer⟩]
  | .load name text => [⟨name, text.toArray, none⟩]
  | .synthesize producer parts => [⟨expansionName, parts.flatten.toArray, some producer⟩]
  | .synthesizeToken producer _ text => [⟨expansionName, text.toArray, some producer⟩]
  | .lex .. | .copy .. => []

/-- The tokens that a call adds to a store. -/
def Call.tokens (store : TokenStore) : Call → List Token
  | .addSource .. => []
  | .load _ text => (Lexer.lex text).map (ofLexeme store.sources.size none)
  | .lex source parent =>
    (Lexer.lex (store.source source).text.toList).map (ofLexeme source parent)
  | .synthesize producer parts =>
    (Lexer.lex parts.flatten).map (ofLexeme store.sources.size (some producer))
  | .synthesizeToken producer kind text =>
    [⟨kind, store.sources.size, 0, text.length, some producer⟩]
  | .copy template parent => [{ store.token template with parent := some parent }]

variable {store : TokenStore} {call : Call} {calls : List Call} {id : TokenId}

/-- All that a call does is to put texts and tokens behind the others. -/
theorem perform_eq (store : TokenStore) (call : Call) :
    store.perform call = (List.range' store.size (call.tokens store).length,
      ⟨store.sources ++ call.sources.toArray, store.tokens ++ (call.tokens store).toArray⟩) := by
  cases call with
  | addSource name text producer =>
      simp [perform, addSource, Call.sources, Call.tokens]
  | load name text =>
      rw [perform, load_eq, addText_eq]
      simp [Call.sources, Call.tokens]
  | lex source parent =>
      rw [perform, lex, addTokens_eq]
      simp [Call.sources, Call.tokens]
  | synthesize producer parts =>
      rw [perform, synthesize_eq, addText_eq]
      simp [Call.sources, Call.tokens]
  | synthesizeToken producer kind text =>
      simp [perform, synthesizeToken, addSource, addToken, Call.sources, Call.tokens, size]
  | copy template parent =>
      simp [perform, copy, addToken, Call.sources, Call.tokens, size]

theorem extends_perform (store : TokenStore) (call : Call) :
    store.Extends (store.perform call).2 := by
  rw [perform_eq]
  exact ⟨⟨_, rfl⟩, ⟨_, rfl⟩⟩

/-- The token lies in a text of the store. -/
structure Inside (store : TokenStore) (token : Token) : Prop where
  source_lt : token.source < store.sources.size
  stop_le : token.start + token.length ≤ (store.source token.source).text.size

/-- Every token lies in its text, and comes behind its parent. -/
structure Sound (store : TokenStore) : Prop where
  inside : ∀ id < store.size, store.Inside (store.token id)
  parent_lt : ∀ id < store.size, ∀ parent ∈ (store.token id).parent, parent < id

theorem Extends.inside {later : TokenStore} {token : Token} (hextends : store.Extends later)
    (hinside : store.Inside token) : later.Inside token := by
  obtain ⟨more, hsources⟩ := hextends.sources
  refine ⟨?_, ?_⟩
  · rw [hsources, Array.size_append]
    exact Nat.lt_add_right _ hinside.source_lt
  · rw [hextends.source_eq hinside.source_lt]
    exact hinside.stop_le

/-- A lexeme of a text of the store is a token in this text. -/
theorem inside_ofLexeme {source : SourceId} {lexeme : Lexeme} (parent : Option TokenId)
    (hlt : source < store.sources.size)
    (hmem : lexeme ∈ Lexer.lex (store.source source).text.toList) :
    store.Inside (ofLexeme source parent lexeme) :=
  ⟨hlt, Lexer.stop_le_of_mem_lex hmem⟩

/-- The text that a call adds is the next one. -/
theorem source_perform {source : Source} (hsources : call.sources = [source]) :
    store.sources.size < (store.perform call).2.sources.size ∧
      (store.perform call).2.source store.sources.size = source := by
  rw [perform_eq, hsources]
  simp [TokenStore.source]

/-- What a call adds lies in its text and was caused by what was there. -/
theorem inside_of_mem_tokens (hsound : store.Sound) (hknows : store.Knows call) {token : Token}
    (hmem : token ∈ call.tokens store) :
    (store.perform call).2.Inside token ∧ ∀ parent ∈ token.parent, parent < store.size := by
  have hextends := store.extends_perform call
  cases call with
  | addSource => cases hmem
  | load name text =>
      obtain ⟨hlt, hsource⟩ := @source_perform store (.load name text) _ rfl
      obtain ⟨lexeme, hlexeme, rfl⟩ := List.mem_map.mp hmem
      exact ⟨inside_ofLexeme none hlt (hsource ▸ hlexeme), nofun⟩
  | lex source parent =>
      obtain ⟨lexeme, hlexeme, rfl⟩ := List.mem_map.mp hmem
      exact ⟨hextends.inside (inside_ofLexeme parent hknows.1 hlexeme), hknows.2⟩
  | synthesize producer parts =>
      obtain ⟨hlt, hsource⟩ := @source_perform store (.synthesize producer parts) _ rfl
      obtain ⟨lexeme, hlexeme, rfl⟩ := List.mem_map.mp hmem
      refine ⟨inside_ofLexeme (some producer) hlt (hsource ▸ hlexeme), fun parent hparent => ?_⟩
      cases hparent
      exact hknows
  | synthesizeToken producer kind text =>
      obtain ⟨hlt, hsource⟩ := @source_perform store (.synthesizeToken producer kind text) _ rfl
      obtain rfl := List.mem_singleton.mp hmem
      refine ⟨⟨hlt, ?_⟩, fun parent hparent => ?_⟩
      · rw [hsource]
        exact Nat.le_of_eq (Nat.zero_add _)
      · cases hparent
        exact hknows
  | copy template parent =>
      obtain rfl := List.mem_singleton.mp hmem
      obtain ⟨hlt, hle⟩ := hsound.inside template hknows.1
      refine ⟨hextends.inside ⟨hlt, hle⟩, fun other hparent => ?_⟩
      cases hparent
      exact hknows.2

/-- A token of the store after a call is one that was there, or one that the call added. -/
theorem token_perform (hlt : id < (store.perform call).2.size) :
    id < store.size ∧ (store.perform call).2.token id = store.token id ∨
      store.size ≤ id ∧ (store.perform call).2.token id ∈ call.tokens store := by
  by_cases hold : id < store.size
  · exact .inl ⟨hold, (store.extends_perform call).token_eq hold⟩
  · have hle := Nat.le_of_not_lt hold
    refine .inr ⟨hle, ?_⟩
    rw [perform_eq] at hlt ⊢
    have hindex : id - store.tokens.size < (call.tokens store).length := by
      simp only [size, Array.size_append, List.size_toArray] at hlt
      exact Nat.sub_lt_left_of_lt_add hle hlt
    rw [token, Array.getD_eq_getD_getElem?, Array.getElem?_append_right hle, List.getElem?_toArray,
      List.getElem?_eq_getElem hindex, Option.getD_some]
    exact List.getElem_mem hindex

theorem Sound.perform (hsound : store.Sound) (hknows : store.Knows call) :
    (store.perform call).2.Sound := by
  have hextends := store.extends_perform call
  refine ⟨fun id hlt => ?_, fun id hlt parent hparent => ?_⟩
  · rcases token_perform hlt with ⟨hold, heq⟩ | ⟨-, hmem⟩
    · rw [heq]
      exact hextends.inside (hsound.inside id hold)
    · exact (inside_of_mem_tokens hsound hknows hmem).1
  · rcases token_perform hlt with ⟨hold, heq⟩ | ⟨hle, hmem⟩
    · rw [heq] at hparent
      exact hsound.parent_lt id hold parent hparent
    · exact Nat.lt_of_lt_of_le ((inside_of_mem_tokens hsound hknows hmem).2 parent hparent) hle

theorem Sound.inside_of_mem (hsound : store.Sound) {token : Token}
    (hmem : token ∈ store.tokens.toList) : store.Inside token := by
  obtain ⟨id, hlt, rfl⟩ := List.getElem_of_mem hmem
  have hinside := hsound.inside id hlt
  rw [TokenStore.token, Array.getD_eq_getD_getElem?, Array.getElem?_eq_getElem hlt] at hinside
  exact hinside

theorem sound_after (hvalid : Valid calls) : (after calls).Sound := by
  induction calls with
  | nil => exact ⟨nofun, nofun⟩
  | cons call earlier ih => exact (ih hvalid.1).perform hvalid.2

/-- All that can be asked about a token. -/
structure View where
  kind : TokenKind
  chars : List Char
  location : Location
  lineText : List Char
  parent : Option TokenId
  trace : Trace

def view (store : TokenStore) (id : TokenId) : View :=
  ⟨store.kind id, store.chars id, store.location id, store.lineText id, (store.token id).parent,
    store.trace id⟩

/-- A token of a sound store is a part of its text. -/
theorem Sound.sourceOf_eq {later : TokenStore} (hsound : store.Sound)
    (hextends : store.Extends later) (hlt : id < store.size) :
    later.sourceOf id = store.sourceOf id := by
  rw [sourceOf, hextends.token_eq hlt, hextends.source_eq (hsound.inside id hlt).source_lt]
  rfl

theorem Sound.location_eq {later : TokenStore} (hsound : store.Sound)
    (hextends : store.Extends later) (hlt : id < store.size) :
    later.location id = store.location id := by
  rw [location, location, hsound.sourceOf_eq hextends hlt, hextends.token_eq hlt]

theorem Sound.ancestry_eq {later : TokenStore} (hsound : store.Sound)
    (hextends : store.Extends later) (hlt : id < store.size) :
    later.ancestry id = store.ancestry id := by
  induction id using Nat.strongRecOn with
  | ind id ih =>
      rw [ancestry, ancestry, hextends.token_eq hlt]
      cases hparent : (store.token id).parent with
      | none => rfl
      | some parent =>
          have hbefore := hsound.parent_lt id hlt parent hparent
          dsimp only
          rw [if_pos hbefore, if_pos hbefore, ih parent hbefore (Nat.lt_trans hbefore hlt)]

/-- The parents of a token of the store are in the store. -/
theorem lt_of_mem_ancestry {other : TokenId} (hmem : other ∈ store.ancestry id) : other ≤ id := by
  induction id using Nat.strongRecOn with
  | ind id ih =>
      rw [ancestry] at hmem
      split at hmem
      · exact Nat.le_of_eq (List.mem_singleton.mp hmem)
      · split at hmem
        · next hbefore =>
            rcases List.mem_cons.mp hmem with rfl | hmem
            · exact Nat.le_refl _
            · exact Nat.le_trans (ih _ hbefore hmem) (Nat.le_of_lt hbefore)
        · exact Nat.le_of_eq (List.mem_singleton.mp hmem)

/-- What can be asked about a token has the same answer in every later store. -/
theorem Sound.view_eq {later : TokenStore} (hsound : store.Sound) (hextends : store.Extends later)
    (hlt : id < store.size) : later.view id = store.view id := by
  have htoken := hextends.token_eq hlt
  have hsource := hsound.sourceOf_eq hextends hlt
  have hchars : later.chars id = store.chars id := by
    rw [chars_eq, chars_eq, hsource, htoken]
  have hline : later.lineText id = store.lineText id := by
    rw [lineText, lineText, hsource, htoken]
  have htrace : later.trace id = store.trace id := by
    rw [trace, trace, hsound.ancestry_eq hextends hlt]
    refine List.map_congr_left fun other hmem => ?_
    exact hsound.location_eq hextends (Nat.lt_of_le_of_lt (lt_of_mem_ancestry hmem) hlt)
  rw [view, view, hextends.kind_eq hlt, hchars, hsound.location_eq hextends hlt, hline, htoken,
    htrace]

/-- The trace of a token has at most one place for every number up to its own. -/
theorem length_trace_le (store : TokenStore) (id : TokenId) :
    (store.trace id).length ≤ id + 1 := by
  rw [trace, List.length_map]
  induction id using Nat.strongRecOn with
  | ind id ih =>
      rw [ancestry]
      split
      · exact Nat.succ_le_succ (Nat.zero_le id)
      · split
        · next hbefore => exact Nat.succ_le_succ (Nat.le_trans (ih _ hbefore) hbefore)
        · exact Nat.succ_le_succ (Nat.zero_le id)

end TokenStore

end VectorStack
