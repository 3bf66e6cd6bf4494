import VectorStack.Proofs.Token.Arena
/-!
Places of tokens. A token that was cut from a text, or copied from one that was, is found in the
line that its location counts to, behind as many characters as its column says.
-/

namespace VectorStack

namespace TokenStore

/-- The calls that cut a text into tokens. -/
def Call.Cuts : Call → Prop
  | .load .. | .lex .. | .synthesize .. => True
  | .addSource .. | .synthesizeToken .. | .copy .. => False

/-- The tokens after calls that were cut from texts, and the copies of such tokens. -/
inductive Cut : List Call → TokenId → Prop
  | new {call : Call} {earlier : List Call} {id : TokenId} (hcuts : call.Cuts)
      (hmem : id ∈ ((after earlier).perform call).1) : Cut (call :: earlier) id
  | copied {earlier : List Call} {template parent id : TokenId} (htemplate : Cut earlier template)
      (hmem : id ∈ ((after earlier).perform (.copy template parent)).1) :
      Cut (.copy template parent :: earlier) id
  | kept {call : Call} {earlier : List Call} {id : TokenId} (hcut : Cut earlier id) :
      Cut (call :: earlier) id

/-- The token is a lexeme of its text. -/
def IsLexeme (store : TokenStore) (token : Token) : Prop :=
  ∃ lexeme ∈ Lexer.lex (store.source token.source).text.toList,
    token = ofLexeme token.source token.parent lexeme

variable {store : TokenStore} {call : Call} {calls : List Call} {id : TokenId}

/-- The tokens that a call gives are new. -/
theorem mem_perform (hmem : id ∈ (store.perform call).1) :
    store.size ≤ id ∧ id < (store.perform call).2.size ∧
      (store.perform call).2.token id ∈ call.tokens store := by
  have hrange := hmem
  rw [perform_eq] at hrange
  obtain ⟨hle, hlt⟩ := List.mem_range'_1.mp hrange
  have hsize : id < (store.perform call).2.size := by
    rw [perform_eq, size, Array.size_append, List.size_toArray]
    exact hlt
  refine ⟨hle, hsize, ?_⟩
  rcases token_perform hsize with ⟨hold, -⟩ | ⟨-, htoken⟩
  · exact absurd hold (Nat.not_lt_of_le hle)
  · exact htoken

theorem Extends.isLexeme {later : TokenStore} {token : Token} (hextends : store.Extends later)
    (hlt : token.source < store.sources.size) (htoken : store.IsLexeme token) :
    later.IsLexeme token := by
  rw [IsLexeme, hextends.source_eq hlt]
  exact htoken

/-- What a call cuts from a text are lexemes of the text. -/
theorem isLexeme_of_mem_tokens (hknows : store.Knows call) (hcuts : call.Cuts) {token : Token}
    (hmem : token ∈ call.tokens store) : (store.perform call).2.IsLexeme token := by
  cases call with
  | load name text =>
      obtain ⟨-, hsource⟩ := @source_perform store (.load name text) _ rfl
      obtain ⟨lexeme, hlexeme, rfl⟩ := List.mem_map.mp hmem
      exact ⟨lexeme, hsource ▸ hlexeme, rfl⟩
  | lex source parent =>
      obtain ⟨lexeme, hlexeme, rfl⟩ := List.mem_map.mp hmem
      exact (store.extends_perform _).isLexeme hknows.1 ⟨lexeme, hlexeme, rfl⟩
  | synthesize producer parts =>
      obtain ⟨-, hsource⟩ := @source_perform store (.synthesize producer parts) _ rfl
      obtain ⟨lexeme, hlexeme, rfl⟩ := List.mem_map.mp hmem
      exact ⟨lexeme, hsource ▸ hlexeme, rfl⟩
  | addSource => exact hcuts.elim
  | synthesizeToken => exact hcuts.elim
  | copy => exact hcuts.elim

/-- Whatever the calls, what was cut from a text stays a lexeme of it. -/
theorem Cut.isLexeme (hcut : Cut calls id) (hvalid : Valid calls) :
    id < (after calls).size ∧ (after calls).IsLexeme ((after calls).token id) := by
  induction hcut with
  | new hcuts hmem =>
      obtain ⟨-, hlt, htoken⟩ := mem_perform hmem
      exact ⟨hlt, isLexeme_of_mem_tokens hvalid.2 hcuts htoken⟩
  | @copied earlier template parent id htemplate hmem ih =>
      obtain ⟨hold, lexeme, hlexeme, htoken⟩ := ih hvalid.1
      obtain ⟨-, hlt, hcopy⟩ := mem_perform hmem
      have hextends := (after earlier).extends_perform (.copy template parent)
      have hsource := ((sound_after hvalid.1).inside template hold).source_lt
      refine ⟨hlt, ?_⟩
      rw [after, List.mem_singleton.mp hcopy]
      refine hextends.isLexeme hsource ⟨lexeme, hlexeme, ?_⟩
      rw [htoken]
      rfl
  | @kept call earlier id hcut ih =>
      obtain ⟨hold, hlexeme⟩ := ih hvalid.1
      have hextends := (after earlier).extends_perform call
      have hsource := ((sound_after hvalid.1).inside id hold).source_lt
      refine ⟨Nat.lt_of_lt_of_le hold hextends.size_le, ?_⟩
      rw [after, hextends.token_eq hold]
      exact hextends.isLexeme hsource hlexeme

/-- A lexeme on one line is found at its place in the line, unless it may end with carriage returns
that the line is without. -/
theorem prefix_of_isLexeme (hlexeme : store.IsLexeme (store.token id))
    (hend : store.kind id ≠ .lineEnd) (hcomment : store.kind id ≠ .comment)
    (hinvalid : store.kind id ≠ .invalid) :
    store.chars id <+: (store.lineText id).drop ((store.location id).column - 1) := by
  obtain ⟨lexeme, hmem, htoken⟩ := hlexeme
  have hkind : store.kind id = lexeme.kind := by
    rw [kind, htoken]
    rfl
  have hstart : (store.token id).start = lexeme.start := by
    rw [htoken]
    rfl
  have hlength : (store.token id).length = lexeme.length := by
    rw [htoken]
    rfl
  have hchars : store.chars id = lexeme.chars (store.sourceOf id).text.toList := by
    rw [chars_eq, hstart, hlength]
    rfl
  rw [hkind] at hend hcomment hinvalid
  have hplace : (store.token id).start ≤ (store.sourceOf id).text.size := by
    rw [hstart]
    exact Nat.le_trans (Nat.le_add_right _ _) (Lexer.stop_le_of_mem_lex hmem)
  refine prefix_drop_lineText store id hplace ?_ ?_
  · obtain ⟨rest, hrest⟩ : store.chars id <+:
        (store.sourceOf id).text.toList.drop (store.token id).start := by
      rw [chars_eq]
      exact List.take_prefix _ _
    rw [← hrest, List.takeWhile_append_of_pos]
    · exact List.prefix_append _ _
    · intro c hc
      rw [hchars] at hc
      rw [bne_iff_ne]
      rintro rfl
      exact Lexer.newline_notMem_chars hmem hend hc
  · rw [hchars]
    exact Lexer.getLast?_chars_ne_return hmem hcomment hinvalid

/-- A location points at its token, in the arena and in its other form: the line with the number of
the location, without carriage returns at its end, has the token at the column. -/
theorem location_points (hvalid : Valid calls) (hcut : Cut calls id)
    (hend : (after calls).kind id ≠ .lineEnd) (hcomment : (after calls).kind id ≠ .comment)
    (hinvalid : (after calls).kind id ≠ .invalid) :
    (∃ arena token, Arena.after? calls = some arena ∧ arena.tokens[id]? = some token ∧
      arena.Shows id ((after calls).view id) ∧
      arena.sourceText? token.source = some ((after calls).sourceOf id).text.toList) ∧
      (after calls).chars id <+:
        ((after calls).lineText id).drop (((after calls).location id).column - 1) ∧
      ∃ line, (((after calls).sourceOf id).text.toList.splitOn '\n')[
          ((after calls).location id).line - 1]? = some line ∧
        (after calls).lineText id = line.rdropWhile (· == '\r') := by
  have hsound := sound_after hvalid
  obtain ⟨hlt, hlexeme⟩ := hcut.isLexeme hvalid
  have hinside := hsound.inside id hlt
  have hstart := Nat.le_trans (Nat.le_add_right _ _) hinside.stop_le
  exact ⟨⟨_, _, after?_eq hvalid, getElem?_tokens_arena hlt, shows_arena hsound hlt,
    sourceText?_arena hinside.source_lt⟩,
    prefix_of_isLexeme hlexeme hend hcomment hinvalid, lineText_eq_splitOn _ id hstart⟩

/-- A copy of a number that stands on the second line of the second text, with carriage returns at
the ends of the lines and characters beyond ASCII in front. -/
theorem location_points_copy :
    let store := after [.copy 2 0, .load "main" ['#', 'β', '\r', '\n', ' ', '7', '\r', '\n'],
      .addSource "first" ['é'] none]
    store.location 4 = ⟨"main", 2, 2⟩ ∧ store.lineText 4 = [' ', '7'] ∧
      store.chars 4 <+: (store.lineText 4).drop 1 := by
  let calls : List Call := [.copy 2 0,
    .load "main" ['#', 'β', '\r', '\n', ' ', '7', '\r', '\n'], .addSource "first" ['é'] none]
  have hvalid : Valid calls := by decide +kernel
  have hcut : Cut calls 4 :=
    .copied (.new trivial (by decide +kernel)) (by decide +kernel)
  have hlocation : (after calls).location 4 = ⟨"main", 2, 2⟩ := by decide +kernel
  have hline : (after calls).lineText 4 = [' ', '7'] := by decide +kernel
  have hkind : (after calls).kind 4 = .number := by decide +kernel
  obtain ⟨-, hprefix, -⟩ := location_points hvalid hcut (by rw [hkind]; decide)
    (by rw [hkind]; decide) (by rw [hkind]; decide)
  rw [hlocation] at hprefix
  exact ⟨hlocation, hline, hprefix⟩

end TokenStore

end VectorStack
