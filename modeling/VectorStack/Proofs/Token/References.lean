import VectorStack.Proofs.Token.Arena
/-!
References into a store stay valid. In one text or in many, every piece lies between characters of
its text, every token lies in its source and comes behind its parent, and no later call changes what
can be asked about a token.
-/

namespace VectorStack

open Lexer (IsBoundary)
open Text (isBoundary_of_slice?)
open TokenStore (Valid after)

namespace Arena

/-- A source lies in the text, between characters. -/
structure SourceInside (arena : Arena) (source : Source) : Prop where
  start_le : source.start ≤ source.stop
  start : IsBoundary arena.text source.start
  stop : IsBoundary arena.text source.stop

/-- A token lies in its source, between characters, and comes behind its parent. -/
structure TokenInside (arena : Arena) (id : TokenId) (token : Token) : Prop where
  source : ∃ source, arena.sources[token.source]? = some source ∧ source.start ≤ token.start ∧
    token.stop ≤ source.stop
  start_le : token.start ≤ token.stop
  start : IsBoundary arena.text token.start
  stop : IsBoundary arena.text token.stop
  parent_lt : ∀ parent ∈ token.parent, parent < id

structure Sound (arena : Arena) : Prop where
  source : ∀ source ∈ arena.sources, arena.SourceInside source
  token : ∀ id token, arena.tokens[id]? = some token → arena.TokenInside id token

end Arena

namespace TokenStore

variable {store : TokenStore} {calls : List Call} {id : TokenId}

theorem sourceInside_arena {source : Arena.Source} (hmem : source ∈ store.arena.sources) :
    store.arena.SourceInside source := by
  obtain ⟨id, hlt, rfl⟩ := List.getElem_of_mem hmem
  have hid : id < store.sources.size := Nat.lt_of_lt_of_eq hlt (length_sourcesFrom _ _)
  have hsource := (List.getElem?_eq_some_iff.mp (exists_source hid).1).2
  obtain ⟨hstart, hstop, hle⟩ := isBoundary_of_slice? (slice?_arena hid)
  rw [hsource]
  exact ⟨hle, hstart, hstop⟩

theorem tokenInside_arena (hsound : store.Sound) {token : Arena.Token}
    (htoken : store.arena.tokens[id]? = some token) : store.arena.TokenInside id token := by
  obtain ⟨hlength, -⟩ := List.getElem?_eq_some_iff.mp htoken
  have hlt : id < store.size := Nat.lt_of_lt_of_eq hlength (List.length_map _)
  obtain ⟨source, other, _, _, _, hother, hsource, -, hparent, -, -, hsplits⟩ :=
    exists_splits hsound hlt
  obtain rfl := Option.some.inj (htoken.symm.trans hother)
  obtain ⟨hstart, hstop, hle⟩ := isBoundary_of_slice? hsplits.slice?_token
  obtain ⟨hfirst, hlast⟩ := hsplits.stop_le
  refine ⟨⟨source, hsource, hfirst, hlast⟩, hle, hstart, hstop, fun parent hmem => ?_⟩
  rw [hparent] at hmem
  exact hsound.parent_lt id hlt parent hmem

/-- After any calls on what was there, the arena has only pieces of its text, its tokens are those
of the store and the walks along their parents end. One more call changes nothing of this. -/
theorem references_stay (hvalid : Valid calls) :
    ∃ arena, Arena.after? calls = some arena ∧ arena.Sound ∧
      arena.tokens.length = (after calls).size ∧
      (∀ id < (after calls).size, arena.Shows id ((after calls).view id) ∧
        ((after calls).trace id).length ≤ id + 1) ∧
      ∀ call, (after calls).Knows call → ∃ later, Arena.after? (call :: calls) = some later ∧
        ∀ id < (after calls).size, (after (call :: calls)).view id = (after calls).view id ∧
          later.Shows id ((after calls).view id) := by
  have hsound := sound_after hvalid
  refine ⟨_, after?_eq hvalid, ⟨fun _ => sourceInside_arena, fun _ _ => tokenInside_arena hsound⟩,
    List.length_map _, fun id hlt => ⟨shows_arena hsound hlt, length_trace_le _ id⟩,
    fun call hknows => ?_⟩
  have hlater : Valid (call :: calls) := ⟨hvalid, hknows⟩
  have hextends := (after calls).extends_perform call
  refine ⟨_, after?_eq hlater, fun id hlt => ?_⟩
  have hview : (after (call :: calls)).view id = (after calls).view id :=
    hsound.view_eq hextends hlt
  refine ⟨hview, ?_⟩
  rw [← hview]
  exact shows_arena (sound_after hlater) (Nat.lt_of_lt_of_le hlt hextends.size_le)

/-- Every kind of call, with texts beyond ASCII. -/
def everyCall : List Call :=
  [.copy 0 3, .synthesizeToken 2 .label ['é', ' ', '1'], .synthesize 1 [['x'], [' ', '→']],
    .lex 0 (some 1), .addSource "é" ['β', '\n'] (some 9), .load "main" ['β', '\n', ' ', '7']]

theorem references_stay_everyCall :
    Valid everyCall ∧ ∃ arena, Arena.after? everyCall = some arena ∧ arena.Sound ∧
      ∀ id < (after everyCall).size, arena.Shows id ((after everyCall).view id) := by
  have hvalid : Valid everyCall := by decide +kernel
  obtain ⟨arena, harena, hsound, -, hshows, -⟩ := references_stay hvalid
  exact ⟨hvalid, arena, harena, hsound, fun id hlt => (hshows id hlt).1⟩

end TokenStore

end VectorStack
