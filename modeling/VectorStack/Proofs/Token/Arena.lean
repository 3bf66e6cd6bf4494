import VectorStack.Proofs.Token.Calls
import VectorStack.Proofs.Token.LineText
import VectorStack.Proofs.Token.Slices
/-!
A store with all of its texts in one. An arena has one text that every source is appended to, and
sources and tokens are pieces of it between places that count bytes. It is another form of a store:
whatever is asked of it, every piece is cut out between characters, and the answer is the same.
-/

namespace VectorStack

open Lexer (width width_append width_nil IsBoundary lexBytes lexBytes_encode)
open Text (slice? slice?_append slice?_eq_some_iff behindLastLineEnd firstLineEnd)
open TokenStore (Call View expansionName)

/-- A piece of an arena's text that was added at once. -/
structure Arena.Source where
  name : String
  start : Nat
  stop : Nat
  producer : Option TokenId

/-- A piece of a source. -/
structure Arena.Token where
  kind : TokenKind
  source : SourceId
  start : Nat
  stop : Nat
  parent : Option TokenId

/-- One text with the sources and tokens in it; places count bytes. -/
structure Arena where
  text : List Char
  sources : List Arena.Source
  tokens : List Arena.Token

namespace Arena

def empty : Arena := ⟨[], [], []⟩

/-- Append a text. -/
def addSource (arena : Arena) (name : String) (text : List Char) (producer : Option TokenId) :
    SourceId × Arena :=
  let start := width arena.text
  let whole := arena.text ++ text
  let source : Source := ⟨name, start, width whole, producer⟩
  (arena.sources.length, { arena with text := whole, sources := arena.sources ++ [source] })

/-- Add a token, whose parent has to be there. -/
def add? (arena : Arena) (token : Token) : Option (TokenId × Arena) :=
  if token.parent.all (· < arena.tokens.length) then
    some (arena.tokens.length, { arena with tokens := arena.tokens ++ [token] })
  else none

/-- Add tokens in order. -/
def addAll? (arena : Arena) : List Token → Option (List TokenId × Arena)
  | [] => some ([], arena)
  | token :: rest => do
    let (id, arena) ← arena.add? token
    let (ids, arena) ← arena.addAll? rest
    return (id :: ids, arena)

/-- Cut a source into tokens that all have the same parent. -/
def lex? (arena : Arena) (id : SourceId) (parent : Option TokenId) :
    Option (List TokenId × Arena) := do
  let source ← arena.sources[id]?
  let text ← slice? arena.text source.start source.stop
  arena.addAll? ((lexBytes (Text.encode text)).map fun lexeme =>
    ⟨lexeme.kind, id, source.start + lexeme.start, source.start + lexeme.stop, parent⟩)

/-- Add a token that is all of a text, whatever the text is. -/
def addWhole? (arena : Arena) (producer : TokenId) (kind : TokenKind) (text : List Char) :
    Option (TokenId × Arena) := do
  let (id, arena) := arena.addSource expansionName text (some producer)
  let source ← arena.sources[id]?
  arena.add? ⟨kind, id, source.start, source.stop, some producer⟩

/-- Add a token like `template` that has the parent `parent`. -/
def copy? (arena : Arena) (template parent : TokenId) : Option (TokenId × Arena) := do
  let token ← arena.tokens[template]?
  arena.add? { token with parent := some parent }

/-- Do what is asked, unless something is not there or a text is cut within a character. -/
def perform? (arena : Arena) : Call → Option (List TokenId × Arena)
  | .addSource name text producer => some ([], (arena.addSource name text producer).2)
  | .load name text =>
    let (id, arena) := arena.addSource name text none
    arena.lex? id none
  | .lex source parent => arena.lex? source parent
  | .synthesize producer parts =>
    let (id, arena) := arena.addSource expansionName parts.flatten (some producer)
    arena.lex? id (some producer)
  | .synthesizeToken producer kind text =>
    (arena.addWhole? producer kind text).map fun (id, arena) => ([id], arena)
  | .copy template parent => (arena.copy? template parent).map fun (id, arena) => ([id], arena)

/-- The arena after calls, the last of which comes first. -/
def after? : List Call → Option Arena
  | [] => some empty
  | call :: earlier => do
    let arena ← after? earlier
    let (_, arena) ← arena.perform? call
    return arena

/-- The characters of a token. -/
def chars? (arena : Arena) (id : TokenId) : Option (List Char) := do
  let token ← arena.tokens[id]?
  slice? arena.text token.start token.stop

/-- The characters of a source. -/
def sourceText? (arena : Arena) (id : SourceId) : Option (List Char) := do
  let source ← arena.sources[id]?
  slice? arena.text source.start source.stop

/-- Where a token starts. -/
def location? (arena : Arena) (id : TokenId) : Option Location := do
  let token ← arena.tokens[id]?
  let source ← arena.sources[token.source]?
  let before ← slice? arena.text source.start token.start
  let line ← slice? before (behindLastLineEnd before) (width before)
  return ⟨source.name, before.count '\n' + 1, line.length + 1⟩

/-- The line of text that a token starts on, without carriage returns at its end. -/
def lineText? (arena : Arena) (id : TokenId) : Option (List Char) := do
  let token ← arena.tokens[id]?
  let source ← arena.sources[token.source]?
  let text ← slice? arena.text source.start source.stop
  let offset := token.start - source.start
  let before ← slice? text 0 offset
  let behind ← slice? text offset (width text)
  let line ← slice? text (behindLastLineEnd before) (offset + firstLineEnd behind)
  return line.rdropWhile (· == '\r')

/-- The places that a token came from, its own first, up to a token that has no parent. -/
inductive Traces (arena : Arena) : TokenId → Trace → Prop
  | last {id : TokenId} {token : Token} {place : Location} (htoken : arena.tokens[id]? = some token)
      (hplace : arena.location? id = some place) (hparent : token.parent = none) :
      Traces arena id [place]
  | parent {id parent : TokenId} {token : Token} {place : Location} {places : Trace}
      (htoken : arena.tokens[id]? = some token) (hplace : arena.location? id = some place)
      (hparent : token.parent = some parent) (hplaces : Traces arena parent places) :
      Traces arena id (place :: places)

/-- What the arena answers when it is asked about a token. -/
structure Shows (arena : Arena) (id : TokenId) (view : View) : Prop where
  token : ∃ token, arena.tokens[id]? = some token ∧ token.kind = view.kind ∧
    token.parent = view.parent
  chars : arena.chars? id = some view.chars
  location : arena.location? id = some view.location
  lineText : arena.lineText? id = some view.lineText
  trace : ∀ places, arena.Traces id places ↔ places = view.trace

/-- A token with the characters around it, in its source and in the whole text. -/
structure Splits (arena : Arena) (source : Source) (token : Token)
    (front before chars behind rest : List Char) : Prop where
  text : arena.text = front ++ ((before ++ (chars ++ behind)) ++ rest)
  source_start : source.start = width front
  source_stop : source.stop = source.start + width (before ++ (chars ++ behind))
  token_start : token.start = source.start + width before
  token_stop : token.stop = token.start + width chars

namespace Splits

variable {arena : Arena} {source : Source} {token : Token}
variable {front before chars behind rest : List Char}

theorem slice?_source (hsplits : arena.Splits source token front before chars behind rest) :
    slice? arena.text source.start source.stop = some (before ++ (chars ++ behind)) :=
  slice?_eq_some_iff.mpr ⟨front, rest, hsplits.text, hsplits.source_start.symm, by
    rw [hsplits.source_stop, hsplits.source_start]⟩

theorem slice?_before (hsplits : arena.Splits source token front before chars behind rest) :
    slice? arena.text source.start token.start = some before :=
  slice?_eq_some_iff.mpr ⟨front, chars ++ behind ++ rest, by
    rw [hsplits.text, List.append_assoc before], hsplits.source_start.symm, by
    rw [hsplits.token_start, hsplits.source_start]⟩

theorem slice?_token (hsplits : arena.Splits source token front before chars behind rest) :
    slice? arena.text token.start token.stop = some chars :=
  slice?_eq_some_iff.mpr ⟨front ++ before, behind ++ rest, by simp [hsplits.text], by
    rw [hsplits.token_start, hsplits.source_start, width_append], by
    rw [hsplits.token_stop, hsplits.token_start, hsplits.source_start, width_append]⟩

theorem stop_le (hsplits : arena.Splits source token front before chars behind rest) :
    source.start ≤ token.start ∧ token.stop ≤ source.stop := by
  have hstop := hsplits.source_stop
  have hchars := hsplits.token_stop
  have hbefore := hsplits.token_start
  rw [width_append, width_append] at hstop
  omega

end Splits

end Arena

/-- The sources of texts that stand one behind the other from a place on. -/
def Arena.sourcesFrom (place : Nat) : List VectorStack.Source → List Arena.Source
  | [] => []
  | source :: rest =>
    let stop := place + width source.text.toList
    ⟨source.name, place, stop, source.producer⟩ :: sourcesFrom stop rest

namespace TokenStore

/-- All texts up to one, one behind the other. -/
def textBefore (store : TokenStore) (id : SourceId) : List Char :=
  (store.sources.toList.take id).flatMap fun source => source.text.toList

/-- The piece of the whole text that a token is. -/
def placed (store : TokenStore) (token : Token) : Arena.Token :=
  let text := (store.source token.source).text.toList
  let start := width (store.textBefore token.source)
  ⟨token.kind, token.source, start + width (text.take token.start),
    start + width (text.take (token.start + token.length)), token.parent⟩

/-- The arena that a store is another form of. -/
def arena (store : TokenStore) : Arena :=
  ⟨store.sources.toList.flatMap fun source => source.text.toList,
    Arena.sourcesFrom 0 store.sources.toList, store.tokens.toList.map store.placed⟩

variable {store : TokenStore} {call : Call} {calls : List Call} {id : TokenId}

theorem sourcesFrom_append (place : Nat) (first second : List Source) :
    let stop := place + width (first.flatMap fun source => source.text.toList)
    Arena.sourcesFrom place (first ++ second) =
      Arena.sourcesFrom place first ++ Arena.sourcesFrom stop second := by
  induction first generalizing place with
  | nil => rfl
  | cons source rest ih =>
      rw [List.cons_append, Arena.sourcesFrom, ih, List.flatMap_cons, width_append, Nat.add_assoc]
      rfl

theorem length_sourcesFrom (place : Nat) (sources : List Source) :
    (Arena.sourcesFrom place sources).length = sources.length := by
  induction sources generalizing place with
  | nil => rfl
  | cons source rest ih => rw [Arena.sourcesFrom, List.length_cons, ih, List.length_cons]

theorem getElem?_sourcesFrom (place : Nat) (before : List Source) (source : Source)
    (behind : List Source) :
    let start := place + width (before.flatMap fun source => source.text.toList)
    (Arena.sourcesFrom place (before ++ source :: behind))[before.length]? =
      some ⟨source.name, start, start + width source.text.toList, source.producer⟩ := by
  rw [sourcesFrom_append, List.getElem?_append_right (Nat.le_of_eq (length_sourcesFrom _ _)),
    length_sourcesFrom, Nat.sub_self]
  rfl

/-- A source is the piece of the whole text that stands behind those that were added before. -/
theorem exists_source (hlt : id < store.sources.size) :
    store.arena.sources[id]? = some ⟨(store.source id).name, width (store.textBefore id),
      width (store.textBefore id) + width (store.source id).text.toList,
      (store.source id).producer⟩ ∧
    ∃ behind, store.arena.text =
      store.textBefore id ++ ((store.source id).text.toList ++ behind) := by
  have hthere : id < store.sources.toList.length := hlt
  have hsource : store.sources.toList[id] = store.source id := by
    rw [source, Array.getD_eq_getD_getElem?, Array.getElem?_eq_getElem hlt]
    rfl
  have hsplit : store.sources.toList.take id ++
      store.source id :: store.sources.toList.drop (id + 1) = store.sources.toList := by
    rw [← hsource, ← List.drop_eq_getElem_cons, List.take_append_drop]
  constructor
  · have hlength : (store.sources.toList.take id).length = id :=
      List.length_take_of_le (Nat.le_of_lt hlt)
    have hat := getElem?_sourcesFrom 0 (store.sources.toList.take id) (store.source id)
      (store.sources.toList.drop (id + 1))
    rw [hsplit, hlength, Nat.zero_add] at hat
    exact hat
  · have htext := congrArg (List.flatMap fun source : Source => source.text.toList) hsplit
    rw [List.flatMap_append, List.flatMap_cons] at htext
    exact ⟨_, htext.symm⟩

/-- What is cut out of the whole text for a source is the text of the source. -/
theorem slice?_arena (hlt : id < store.sources.size) :
    slice? store.arena.text (width (store.textBefore id))
      (width (store.textBefore id) + width (store.source id).text.toList) =
        some (store.source id).text.toList := by
  obtain ⟨-, behind, htext⟩ := exists_source hlt
  rw [htext]
  exact slice?_append _ _ behind

theorem sourceText?_arena (hlt : id < store.sources.size) :
    store.arena.sourceText? id = some (store.source id).text.toList := by
  rw [Arena.sourceText?, (exists_source hlt).1]
  exact slice?_arena hlt

theorem getElem?_tokens_arena (hlt : id < store.size) :
    store.arena.tokens[id]? = some (store.placed (store.token id)) := by
  have htoken : store.tokens.toList[id]? = some (store.token id) := by
    rw [Array.getElem?_toList, token, Array.getD_eq_getD_getElem?, Array.getElem?_eq_getElem hlt]
    rfl
  rw [arena, List.getElem?_map, htoken]
  rfl

/-- A token of the store is the same piece of the whole text in every later store. -/
theorem placed_eq {later : TokenStore} {token : Token} (hextends : store.Extends later)
    (hinside : store.Inside token) : later.placed token = store.placed token := by
  obtain ⟨more, hsources⟩ := hextends.sources
  have hbefore : later.textBefore token.source = store.textBefore token.source := by
    rw [textBefore, textBefore, hsources, Array.toList_append,
      List.take_append_of_le_length (Nat.le_of_lt hinside.source_lt)]
  rw [placed, placed, hbefore, hextends.source_eq hinside.source_lt]

/-- Appending a text does the same to both forms. -/
theorem arena_addSource (hsound : store.Sound) (name : String) (text : List Char)
    (producer : Option TokenId) :
    store.arena.addSource name text producer =
      ((store.addSource name text producer).1, (store.addSource name text producer).2.arena) := by
  have hextends : store.Extends (store.addSource name text producer).2 :=
    ⟨⟨#[_], Array.push_eq_append⟩, ⟨#[], Array.append_empty.symm⟩⟩
  have htokens : store.tokens.toList.map (store.addSource name text producer).2.placed =
      store.tokens.toList.map store.placed :=
    List.map_congr_left fun token hmem => placed_eq hextends (hsound.inside_of_mem hmem)
  have hlength : store.arena.sources.length = store.sources.size := length_sourcesFrom _ _
  have hsources : (store.sources.push ⟨name, text.toArray, producer⟩).toList =
      store.sources.toList ++ [⟨name, text.toArray, producer⟩] := Array.toList_push
  rw [Arena.addSource, hlength, arena, arena]
  dsimp only [addSource] at htokens ⊢
  rw [htokens, hsources, sourcesFrom_append, List.flatMap_append, width_append, Nat.zero_add]
  simp [Arena.sourcesFrom]

/-- A token whose parent is there is added to both forms. -/
theorem arena_add? {token : Token} (hparent : ∀ parent ∈ token.parent, parent < store.size) :
    store.arena.add? (store.placed token) =
      some ((store.addToken token).1, (store.addToken token).2.arena) := by
  have hlength : store.arena.tokens.length = store.size := List.length_map _
  have hparents : (store.placed token).parent.all (· < store.arena.tokens.length) = true := by
    rw [Option.all_eq_true, hlength]
    exact fun parent hmem => decide_eq_true (hparent parent hmem)
  have htokens : (store.tokens.push token).toList = store.tokens.toList ++ [token] :=
    Array.toList_push
  rw [Arena.add?, if_pos hparents, hlength, addToken, arena, arena, htokens, List.map_append]
  rfl

theorem arena_addAll? (tokens : List Token)
    (hparents : ∀ token ∈ tokens, ∀ parent ∈ token.parent, parent < store.size) :
    store.arena.addAll? (tokens.map store.placed) =
      some ((store.addTokens tokens).1, (store.addTokens tokens).2.arena) := by
  induction tokens generalizing store with
  | nil => rfl
  | cons token rest ih =>
      obtain ⟨hparent, hrest⟩ := List.forall_mem_cons.mp hparents
      have hgrown : store.size ≤ (store.addToken token).2.size :=
        Nat.le_of_lt (Nat.lt_of_lt_of_eq (Nat.lt_succ_self _) (Array.size_push _).symm)
      have hlater := @ih (store.addToken token).2 fun other hmem parent hparent =>
        Nat.lt_of_lt_of_le (hrest other hmem parent hparent) hgrown
      have hplaced : (store.addToken token).2.placed = store.placed := rfl
      rw [hplaced] at hlater
      rw [List.map_cons, Arena.addAll?, arena_add? hparent]
      simp [hlater, addTokens]

/-- A lexeme is the same piece of the text, whether its bytes are found or its characters. -/
theorem placed_ofLexeme (source : SourceId) (parent : Option TokenId) (lexeme : Lexeme) :
    let found := lexeme.inBytes (store.source source).text.toList
    let start := width (store.textBefore source)
    store.placed (ofLexeme source parent lexeme) =
      ⟨found.kind, source, start + found.start, start + found.stop, parent⟩ := by
  have hstop : width ((store.source source).text.toList.take (lexeme.start + lexeme.length)) =
      width ((store.source source).text.toList.take lexeme.start) +
        width (((store.source source).text.toList.drop lexeme.start).take lexeme.length) := by
    rw [List.take_add, width_append]
  dsimp only [placed, ofLexeme, Lexeme.stop, Lexeme.inBytes]
  rw [hstop]

theorem arena_lex? {source : SourceId} {parent : Option TokenId}
    (hsource : source < store.sources.size) (hparent : ∀ id ∈ parent, id < store.size) :
    store.arena.lex? source parent =
      some ((store.lex source parent).1, (store.lex source parent).2.arena) := by
  obtain ⟨hpiece, -⟩ := exists_source hsource
  have hlexemes : (lexBytes (Text.encode (store.source source).text.toList)).map
      (fun lexeme => (⟨lexeme.kind, source, width (store.textBefore source) + lexeme.start,
        width (store.textBefore source) + lexeme.stop, parent⟩ : Arena.Token)) =
      ((Lexer.lex (store.source source).text.toList).map (ofLexeme source parent)).map
        store.placed := by
    rw [lexBytes_encode, List.map_map, List.map_map]
    exact List.map_congr_left fun lexeme _ => (placed_ofLexeme source parent lexeme).symm
  rw [Arena.lex?, hpiece]
  dsimp only [Option.bind_eq_bind, Option.bind_some]
  rw [slice?_arena hsource, Option.bind_some, hlexemes]
  refine arena_addAll? _ fun token hmem id hid => ?_
  obtain ⟨lexeme, -, rfl⟩ := List.mem_map.mp hmem
  exact hparent id hid

/-- A token that is all of a text is the piece of it from its start to its end. -/
theorem arena_addWhole? (hsound : store.Sound) {producer : TokenId} (kind : TokenKind)
    (text : List Char) (hproducer : producer < store.size) :
    store.arena.addWhole? producer kind text =
      some ((store.synthesizeToken producer kind text).1,
        (store.synthesizeToken producer kind text).2.arena) := by
  let added := store.addSource expansionName text (some producer)
  let token : Token := ⟨kind, added.1, 0, text.length, some producer⟩
  have hsource : added.2.source added.1 = ⟨expansionName, text.toArray, some producer⟩ := by
    simp [added, addSource, source]
  have hlt : added.1 < added.2.sources.size :=
    Nat.lt_of_lt_of_eq (Nat.lt_succ_self _) (Array.size_push _).symm
  obtain ⟨hpiece, -⟩ := exists_source hlt
  have hplaced : added.2.placed token = ⟨kind, added.1, width (added.2.textBefore added.1),
      width (added.2.textBefore added.1) + width text, some producer⟩ := by
    simp [placed, token, hsource, width_nil]
  have htoken : added.2.arena.add? (added.2.placed token) =
      some ((added.2.addToken token).1, (added.2.addToken token).2.arena) :=
    arena_add? fun parent hparent => by
      cases hparent
      exact hproducer
  rw [hplaced] at htoken
  rw [hsource] at hpiece
  rw [Arena.addWhole?, arena_addSource hsound]
  dsimp only [Option.bind_eq_bind]
  rw [hpiece]
  exact htoken

theorem arena_copy? {template parent : TokenId} (htemplate : template < store.size)
    (hparent : parent < store.size) :
    store.arena.copy? template parent =
      some ((store.copy template parent).1, (store.copy template parent).2.arena) := by
  rw [Arena.copy?, getElem?_tokens_arena htemplate]
  exact @arena_add? store { store.token template with parent := some parent } fun id hid => by
    cases hid
    exact hparent

/-- Whatever is asked of the two forms of a store, the arena never fails, gives the same tokens and
goes on to be the other form. -/
theorem arena_perform? (hsound : store.Sound) (hknows : store.Knows call) :
    store.arena.perform? call =
      some ((store.perform call).1, (store.perform call).2.arena) := by
  cases call with
  | addSource name text producer =>
      rw [Arena.perform?, arena_addSource hsound]
      rfl
  | load name text =>
      obtain ⟨hlt, -⟩ := @source_perform store (.addSource name text none) _ rfl
      rw [Arena.perform?, arena_addSource hsound]
      exact arena_lex? hlt nofun
  | lex source parent => exact arena_lex? hknows.1 hknows.2
  | synthesize producer parts =>
      obtain ⟨hlt, -⟩ :=
        @source_perform store (.addSource expansionName parts.flatten (some producer)) _ rfl
      rw [Arena.perform?, arena_addSource hsound]
      refine arena_lex? hlt fun id hid => ?_
      cases hid
      exact hknows
  | synthesizeToken producer kind text =>
      rw [Arena.perform?, arena_addWhole? hsound kind text hknows]
      rfl
  | copy template parent =>
      rw [Arena.perform?, arena_copy? hknows.1 hknows.2]
      rfl

theorem after?_eq (hvalid : Valid calls) : Arena.after? calls = some (after calls).arena := by
  induction calls with
  | nil => rfl
  | cons call earlier ih =>
      rw [Arena.after?, ih hvalid.1]
      dsimp only [Option.bind_eq_bind, Option.bind_some]
      rw [arena_perform? (sound_after hvalid.1) hvalid.2]
      rfl

section Queries

variable (hsound : store.Sound) (hlt : id < store.size)

include hsound hlt

/-- A token is a piece of its text, which is a piece of the whole text. -/
theorem exists_splits : ∃ source token front behind rest,
    store.arena.tokens[id]? = some token ∧ store.arena.sources[token.source]? = some source ∧
    token.kind = store.kind id ∧ token.parent = (store.token id).parent ∧
    source.name = (store.sourceOf id).name ∧
    (store.sourceOf id).text.toList.drop (store.token id).start = store.chars id ++ behind ∧
    store.arena.Splits source token front (store.before id) (store.chars id) behind rest := by
  obtain ⟨hsource, hstop⟩ := hsound.inside id hlt
  obtain ⟨hpiece, rest, htext⟩ := exists_source hsource
  let whole := (store.source (store.token id).source).text.toList
  let behind := whole.drop ((store.token id).start + (store.token id).length)
  have hchars : store.chars id = (whole.drop (store.token id).start).take (store.token id).length :=
    chars_eq store id
  have hbehind : behind = (whole.drop (store.token id).start).drop (store.token id).length :=
    List.drop_drop.symm
  have hdrop : whole.drop (store.token id).start = store.chars id ++ behind := by
    rw [hchars, hbehind, List.take_append_drop]
  have hwhole : whole = store.before id ++ (store.chars id ++ behind) := by
    rw [← hdrop]
    exact (List.take_append_drop _ _).symm
  have hfirst : whole.take ((store.token id).start + (store.token id).length) =
      store.before id ++ store.chars id := by
    rw [List.take_add, hchars]
    rfl
  refine ⟨_, _, store.textBefore (store.token id).source, behind, rest, getElem?_tokens_arena hlt,
    hpiece, rfl, rfl, rfl, hdrop, ?_⟩
  refine ⟨?_, rfl, ?_, rfl, ?_⟩
  · rw [htext, ← hwhole]
  · rw [← hwhole]
  · change _ + width (whole.take ((store.token id).start + (store.token id).length)) = _
    rw [hfirst, width_append, ← Nat.add_assoc]
    rfl

theorem location?_arena : store.arena.location? id = some (store.location id) := by
  obtain ⟨source, token, front, behind, rest, htoken, hsource, -, -, hname, -, hsplits⟩ :=
    exists_splits hsound hlt
  have hline := slice?_append ((store.before id).rdropWhile (· != '\n'))
    ((store.before id).rtakeWhile (· != '\n')) []
  rw [List.append_nil, ← width_append, List.rdropWhile_append_rtakeWhile] at hline
  have hinside := hsound.inside id hlt
  rw [Arena.location?, htoken]
  dsimp only [Option.bind_eq_bind, Option.bind_some]
  rw [hsource, Option.bind_some, hsplits.slice?_before, Option.bind_some, behindLastLineEnd, hline,
    Option.bind_some, hname,
    TokenStore.location_eq store id (Nat.le_trans (Nat.le_add_right _ _) hinside.stop_le)]
  dsimp only [List.rtakeWhile]
  rw [List.length_reverse]
  rfl

theorem chars?_arena : store.arena.chars? id = some (store.chars id) := by
  obtain ⟨_, token, _, _, _, htoken, -, -, -, -, -, hsplits⟩ := exists_splits hsound hlt
  rw [Arena.chars?, htoken]
  exact hsplits.slice?_token

theorem lineText?_arena : store.arena.lineText? id = some (store.lineText id) := by
  obtain ⟨source, token, front, behind, rest, htoken, hsource, -, -, -, hdrop, hsplits⟩ :=
    exists_splits hsound hlt
  have hinside := hsound.inside id hlt
  let text := store.before id ++ (store.chars id ++ behind)
  let more := (store.chars id ++ behind).takeWhile (· != '\n')
  let first := (store.before id).rdropWhile (· != '\n')
  let last := (store.before id).rtakeWhile (· != '\n')
  have hfirst : first ++ last = store.before id := List.rdropWhile_append_rtakeWhile
  have hoffset : token.start - source.start = width (store.before id) := by
    rw [hsplits.token_start, Nat.add_sub_cancel_left]
  have hbefore : slice? text 0 (width (store.before id)) = some (store.before id) :=
    slice?_eq_some_iff.mpr ⟨[], _, rfl, width_nil, Nat.zero_add _⟩
  have hbehind : slice? text (width (store.before id)) (width text) =
      some (store.chars id ++ behind) :=
    slice?_eq_some_iff.mpr ⟨store.before id, [], by rw [List.append_nil], rfl,
      (width_append _ _).symm⟩
  have hline : slice? text (width first) (width (store.before id) + width more) =
      some (last ++ more) := by
    refine slice?_eq_some_iff.mpr ⟨first, (store.chars id ++ behind).dropWhile (· != '\n'), ?_, rfl,
      ?_⟩
    · rw [List.append_assoc, List.takeWhile_append_dropWhile, ← List.append_assoc, hfirst]
    · rw [← hfirst, width_append, width_append, Nat.add_assoc]
  rw [Arena.lineText?, htoken]
  dsimp only [Option.bind_eq_bind, Option.bind_some]
  rw [hsource, Option.bind_some, hsplits.slice?_source, Option.bind_some, hoffset, hbefore,
    Option.bind_some, hbehind, Option.bind_some, behindLastLineEnd, firstLineEnd, hline,
    TokenStore.lineText_eq store id (Nat.le_trans (Nat.le_add_right _ _) hinside.stop_le), hdrop]
  rfl

/-- The walk over the parents of a token ends, and what it finds is the trace. -/
theorem traces_arena_iff (places : Trace) :
    store.arena.Traces id places ↔ places = store.trace id := by
  induction id using Nat.strongRecOn generalizing places with
  | ind id ih =>
      obtain ⟨_, token, _, _, _, htoken, -, -, hparent, -⟩ := exists_splits hsound hlt
      have hplace := location?_arena hsound hlt
      cases hcaused : (store.token id).parent with
      | none =>
          have htrace : store.trace id = [store.location id] := by
            rw [trace, ancestry, hcaused]
            rfl
          rw [htrace]
          constructor
          · rintro (⟨-, hother, -⟩ | ⟨hother, -, hsome, -⟩)
            · rw [Option.some.inj (hplace.symm.trans hother)]
            · rw [Option.some.inj (hother.symm.trans htoken), hparent, hcaused] at hsome
              cases hsome
          · rintro rfl
            exact .last htoken hplace (hparent.trans hcaused)
      | some parent =>
          have hbefore := hsound.parent_lt id hlt parent hcaused
          have hparents := @ih parent hbefore (Nat.lt_trans hbefore hlt)
          have htrace : store.trace id = store.location id :: store.trace parent := by
            rw [trace, ancestry, hcaused]
            dsimp only
            rw [if_pos hbefore]
            rfl
          rw [htrace]
          constructor
          · rintro (⟨hother, -, hnone⟩ | ⟨hother, hlocation, hsome, hplaces⟩)
            · rw [Option.some.inj (hother.symm.trans htoken), hparent, hcaused] at hnone
              cases hnone
            · rw [Option.some.inj (hother.symm.trans htoken), hparent, hcaused] at hsome
              obtain rfl := Option.some.inj hsome
              rw [Option.some.inj (hplace.symm.trans hlocation), (hparents _).mp hplaces]
          · rintro rfl
            exact .parent htoken hplace (hparent.trans hcaused) ((hparents _).mpr rfl)

theorem shows_arena : store.arena.Shows id (store.view id) := by
  obtain ⟨_, token, _, _, _, htoken, -, hkind, hparent, -⟩ := exists_splits hsound hlt
  exact ⟨⟨token, htoken, hkind, hparent⟩, chars?_arena hsound hlt, location?_arena hsound hlt,
    lineText?_arena hsound hlt, traces_arena_iff hsound hlt⟩

end Queries

end TokenStore

end VectorStack
