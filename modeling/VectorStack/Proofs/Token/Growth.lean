import VectorStack.Proofs.Token.Words
import VectorStack.Token.Store
/-!
A store of tokens only grows. Texts and tokens that it has stay as they are, whatever is added. The
words and labels that are cut from texts are spelled as words, and so are their copies.
-/

namespace VectorStack

namespace TokenStore

/-- A later store has every text and every token, at the same place. -/
structure Extends (store later : TokenStore) : Prop where
  sources : ∃ more, later.sources = store.sources ++ more
  tokens : ∃ more, later.tokens = store.tokens ++ more

/-- A token of the store that is spelled as a word if it is a word or a label. -/
structure IsSpelled (store : TokenStore) (id : TokenId) : Prop where
  lt_size : id < store.size
  isWord : Lexer.IsWordKind (store.kind id) → Lexer.IsWord (store.chars id)

/-- All of these tokens are in the store, and words and labels are spelled as words. -/
def Spelled (store : TokenStore) (ids : List TokenId) : Prop := ∀ id ∈ ids, store.IsSpelled id

variable {store later : TokenStore} {ids more : List TokenId}

theorem IsSpelled.isWord_text {id : TokenId} (hspelled : store.IsSpelled id)
    (hkind : Lexer.IsWordKind (store.kind id)) : Lexer.IsWord (store.text id).toList := by
  rw [text, String.toList_ofList]
  exact hspelled.isWord hkind

theorem spelled_cons {id : TokenId} :
    store.Spelled (id :: ids) ↔ store.IsSpelled id ∧ store.Spelled ids :=
  List.forall_mem_cons

theorem spelled_append : store.Spelled (ids ++ more) ↔ store.Spelled ids ∧ store.Spelled more :=
  List.forall_mem_append

theorem Spelled.subset (hspelled : store.Spelled ids) (hsubset : more ⊆ ids) : store.Spelled more :=
  fun id hmem => hspelled id (hsubset hmem)

/-- Numbers that no token has stand for line ends. -/
theorem token_of_size_le {id : TokenId} (hle : store.size ≤ id) : store.token id = default := by
  rw [token, Array.getD_eq_getD_getElem?, Array.getElem?_eq_none hle]
  rfl

namespace Extends

theorem refl (store : TokenStore) : store.Extends store :=
  ⟨⟨#[], Array.append_empty.symm⟩, ⟨#[], Array.append_empty.symm⟩⟩

theorem trans {last : TokenStore} (hfirst : store.Extends later) (hsecond : later.Extends last) :
    store.Extends last := by
  obtain ⟨⟨sources, hsources⟩, ⟨tokens, htokens⟩⟩ := hfirst
  obtain ⟨⟨moreSources, hmoreSources⟩, ⟨moreTokens, hmoreTokens⟩⟩ := hsecond
  refine ⟨⟨sources ++ moreSources, ?_⟩, ⟨tokens ++ moreTokens, ?_⟩⟩
  · rw [hmoreSources, hsources, Array.append_assoc]
  · rw [hmoreTokens, htokens, Array.append_assoc]

theorem size_le (hextends : store.Extends later) : store.size ≤ later.size := by
  obtain ⟨more, htokens⟩ := hextends.tokens
  rw [size, size, htokens, Array.size_append]
  exact Nat.le_add_right _ _

theorem token_eq (hextends : store.Extends later) {id : TokenId} (hlt : id < store.size) :
    later.token id = store.token id := by
  obtain ⟨more, htokens⟩ := hextends.tokens
  rw [token, token, htokens, Array.getD_eq_getD_getElem?, Array.getD_eq_getD_getElem?,
    Array.getElem?_append_left hlt]

theorem kind_eq (hextends : store.Extends later) {id : TokenId} (hlt : id < store.size) :
    later.kind id = store.kind id :=
  congrArg Token.kind (hextends.token_eq hlt)

theorem source_eq (hextends : store.Extends later) {id : SourceId}
    (hlt : id < store.sources.size) : later.source id = store.source id := by
  obtain ⟨more, hsources⟩ := hextends.sources
  rw [source, source, hsources, Array.getD_eq_getD_getElem?, Array.getD_eq_getD_getElem?,
    Array.getElem?_append_left hlt]

/-- What is not empty is spelled the same in a later store. -/
theorem chars_eq (hextends : store.Extends later) {id : TokenId} (hlt : id < store.size)
    (hne : store.chars id ≠ []) : later.chars id = store.chars id := by
  have hsource : (store.token id).source < store.sources.size := by
    refine Nat.lt_of_not_le fun hle => hne ?_
    have hnone : store.source (store.token id).source = default := by
      rw [source, Array.getD_eq_getD_getElem?, Array.getElem?_eq_none hle]
      rfl
    rw [chars, hnone]
    exact congrArg Array.toList Array.extract_empty
  rw [chars, chars, hextends.token_eq hlt, hextends.source_eq hsource]

/-- A token that is spelled as a word is spelled the same in a later store. -/
theorem text_eq (hextends : store.Extends later) {id : TokenId} (hlt : id < store.size)
    (hword : Lexer.IsWord (store.text id).toList) : later.text id = store.text id := by
  have hne : store.chars id ≠ [] := by
    intro hnil
    rw [text, hnil] at hword
    exact hword
  rw [text, text, hextends.chars_eq hlt hne]

theorem isSpelled (hextends : store.Extends later) {id : TokenId} (hspelled : store.IsSpelled id) :
    later.IsSpelled id where
  lt_size := Nat.lt_of_lt_of_le hspelled.lt_size hextends.size_le
  isWord hkind := by
    rw [hextends.kind_eq hspelled.lt_size] at hkind
    have hword := hspelled.isWord hkind
    have hne : store.chars id ≠ [] := by
      intro hnil
      rw [hnil] at hword
      exact hword
    rwa [hextends.chars_eq hspelled.lt_size hne]

theorem spelled (hextends : store.Extends later) (hspelled : store.Spelled ids) :
    later.Spelled ids :=
  fun id hmem => hextends.isSpelled (hspelled id hmem)

end Extends

theorem addTokens_eq (store : TokenStore) (tokens : List Token) :
    store.addTokens tokens = (List.range' store.size tokens.length,
      ⟨store.sources, store.tokens ++ tokens.toArray⟩) := by
  induction tokens generalizing store with
  | nil => simp [addTokens]
  | cons token rest ih =>
      rw [addTokens, addToken]
      simp only [ih, size, List.length_cons, List.range'_succ, Array.push_eq_append,
        Array.size_append, List.size_toArray, List.length_nil, Array.append_assoc,
        List.append_toArray, List.singleton_append, Nat.zero_add]

/-- Add a text and cut it into tokens. -/
def addText (store : TokenStore) (name : String) (text : List Char) (producer : Option TokenId) :
    List TokenId × TokenStore :=
  (store.addSource name text producer).2.lex (store.addSource name text producer).1 producer

theorem addText_eq (store : TokenStore) (name : String) (text : List Char)
    (producer : Option TokenId) :
    store.addText name text producer =
      (List.range' store.size (Lexer.lex text).length,
        ⟨store.sources.push ⟨name, text.toArray, producer⟩, store.tokens ++
          ((Lexer.lex text).map (ofLexeme store.sources.size producer)).toArray⟩) := by
  rw [addText, addSource, lex, addTokens_eq, source, Array.getD_eq_getD_getElem?,
    Array.getElem?_push_size, Option.getD_some, List.length_map]
  rfl

theorem load_eq (store : TokenStore) (name : String) (text : List Char) :
    store.load name text = store.addText name text none := rfl

theorem synthesize_eq (store : TokenStore) (producer : TokenId) (text : List Char) :
    store.synthesize producer text = store.addText expansionName text (some producer) := rfl

/-- What a store can be made to add, and the tokens that this gives. Only tokens that are known can
be copied. -/
inductive Makes (known : List TokenId) : TokenStore → List TokenId → TokenStore → Prop
  | text (store : TokenStore) (name : String) (text : List Char) (producer : Option TokenId) :
    Makes known store (store.addText name text producer).1 (store.addText name text producer).2
  | copies (store : TokenStore) (parent : TokenId) {templates : List TokenId}
      (hknown : templates ⊆ known) :
    Makes known store (store.copyAll parent templates).1 (store.copyAll parent templates).2
  /-- A token with a text of its own, which is not cut. -/
  | single (store : TokenStore) (producer : TokenId) {kind : TokenKind} (text : List Char)
      (hkind : ¬ Lexer.IsWordKind kind) :
    Makes known store [(store.synthesizeToken producer kind text).1]
      (store.synthesizeToken producer kind text).2
  | append {store middle later : TokenStore} {ids more : List TokenId}
      (hfirst : Makes known store ids middle) (hsecond : Makes known middle more later) :
    Makes known store (ids ++ more) later

theorem extends_addText (store : TokenStore) (name : String) (text : List Char)
    (producer : Option TokenId) : store.Extends (store.addText name text producer).2 := by
  rw [addText_eq]
  exact ⟨⟨#[_], Array.push_eq_append⟩, ⟨_, rfl⟩⟩

theorem extends_copy (store : TokenStore) (template parent : TokenId) :
    store.Extends (store.copy template parent).2 :=
  ⟨⟨#[], Array.append_empty.symm⟩, ⟨#[_], Array.push_eq_append⟩⟩

theorem extends_copyAll (store : TokenStore) (parent : TokenId) (templates : List TokenId) :
    store.Extends (store.copyAll parent templates).2 := by
  induction templates generalizing store with
  | nil => exact .refl store
  | cons template rest ih => exact (store.extends_copy template parent).trans (ih _)

/-- The tokens of a text that is added are new, are spelled as its lexemes are, and know its
name. -/
theorem addText_of_lex {name : String} {parent : Option TokenId} {text : List Char}
    {lexemes : List Lexeme} (hlex : Lexer.lex text = lexemes) :
    ∃ later, store.addText name text parent =
        (List.range' store.size lexemes.length, later) ∧ store.Extends later ∧
      ∀ (index : Nat) (lexeme : Lexeme), lexemes[index]? = some lexeme →
        store.size + index < later.size ∧
        later.kind (store.size + index) = lexeme.kind ∧
        later.chars (store.size + index) = lexeme.chars text ∧
        (later.sourceOf (store.size + index)).name = name := by
  have hextends := store.extends_addText name text parent
  have hsource : (store.sources.push ⟨name, text.toArray, parent⟩).getD
      store.sources.size default = ⟨name, text.toArray, parent⟩ := by
    rw [Array.getD_eq_getD_getElem?, Array.getElem?_push_size, Option.getD_some]
  rw [addText_eq, hlex] at hextends ⊢
  refine ⟨_, rfl, hextends, fun index lexeme hlexeme => ?_⟩
  obtain ⟨hlt, -⟩ := List.getElem?_eq_some_iff.mp hlexeme
  have htoken (sources : Array Source) :
      token ⟨sources, store.tokens ++
        (lexemes.map (ofLexeme store.sources.size parent)).toArray⟩ (store.size + index) =
      ofLexeme store.sources.size parent lexeme := by
    rw [token, Array.getD_eq_getD_getElem?, size,
      Array.getElem?_append_right (Nat.le_add_right _ _), Nat.add_sub_cancel_left,
      List.getElem?_toArray, List.getElem?_map, hlexeme]
    rfl
  refine ⟨?_, ?_, ?_, ?_⟩
  · simpa [size] using hlt
  · rw [kind, htoken]
    rfl
  · rw [chars, htoken]
    simp [ofLexeme, source, hsource, Lexeme.chars, List.extract_eq_take_drop]
  · rw [sourceOf, htoken, ofLexeme, source, hsource]

/-- The words and labels of a text are spelled as words. -/
theorem spelled_addText (store : TokenStore) (name : String) (text : List Char)
    (producer : Option TokenId) :
    (store.addText name text producer).2.Spelled (store.addText name text producer).1 := by
  obtain ⟨later, hadded, -, hlexemes⟩ := @addText_of_lex store name producer text _ rfl
  rw [hadded]
  intro id hmem
  obtain ⟨index, hindex, rfl⟩ := List.mem_range'.mp hmem
  obtain ⟨hlt, hkind, hchars, -⟩ := hlexemes index _ (List.getElem?_eq_getElem hindex)
  rw [Nat.one_mul]
  refine ⟨hlt, fun hword => ?_⟩
  rw [hkind] at hword
  rw [hchars]
  exact Lexer.isWord_of_mem_lex (List.getElem_mem hindex) hword

theorem lt_size_addText (store : TokenStore) (name : String) (text : List Char)
    (producer : Option TokenId) : ∀ id ∈ (store.addText name text producer).1,
      id < (store.addText name text producer).2.size :=
  fun id hmem => (store.spelled_addText name text producer id hmem).lt_size

theorem token_copy (store : TokenStore) (template parent : TokenId) :
    (store.copy template parent).2.token (store.copy template parent).1 =
      { store.token template with parent := some parent } := by
  rw [copy, addToken, token, Array.getD_eq_getD_getElem?, Array.getElem?_push_size]
  rfl

theorem lt_size_copy (store : TokenStore) (template parent : TokenId) :
    (store.copy template parent).1 < (store.copy template parent).2.size := by
  rw [size, copy, addToken, Array.size_push]
  exact Nat.lt_succ_self _

theorem lt_size_copyAll (store : TokenStore) (parent : TokenId) (templates : List TokenId) :
    ∀ id ∈ (store.copyAll parent templates).1, id < (store.copyAll parent templates).2.size := by
  induction templates generalizing store with
  | nil => nofun
  | cons template rest ih =>
      have hextends := extends_copyAll (store.copy template parent).2 parent rest
      exact List.forall_mem_cons.mpr
        ⟨Nat.lt_of_lt_of_le (store.lt_size_copy template parent) hextends.size_le, ih _⟩

/-- A copy is spelled as its template is. -/
theorem IsSpelled.copy {template : TokenId} (hspelled : store.IsSpelled template)
    (parent : TokenId) :
    (store.copy template parent).2.IsSpelled (store.copy template parent).1 where
  lt_size := store.lt_size_copy template parent
  isWord hkind := by
    rw [kind, token_copy] at hkind
    rw [chars, token_copy]
    exact hspelled.isWord hkind

theorem Spelled.copyAll {templates : List TokenId} (hspelled : store.Spelled templates)
    (parent : TokenId) :
    (store.copyAll parent templates).2.Spelled (store.copyAll parent templates).1 := by
  induction templates generalizing store with
  | nil => nofun
  | cons template rest ih =>
      obtain ⟨htemplate, hrest⟩ := spelled_cons.mp hspelled
      have hlater := extends_copyAll (store.copy template parent).2 parent rest
      exact spelled_cons.mpr ⟨hlater.isSpelled (htemplate.copy parent),
        ih ((store.extends_copy template parent).spelled hrest)⟩

theorem lt_size_synthesizeToken (store : TokenStore) (producer : TokenId) (kind : TokenKind)
    (text : List Char) : (store.synthesizeToken producer kind text).1 <
      (store.synthesizeToken producer kind text).2.size :=
  Nat.lt_of_lt_of_eq (Nat.lt_succ_self _) (Array.size_push _).symm

/-- A token with a text of its own has the kind that it was made with. -/
theorem kind_synthesizeToken (store : TokenStore) (producer : TokenId) (kind : TokenKind)
    (text : List Char) : (store.synthesizeToken producer kind text).2.kind
      (store.synthesizeToken producer kind text).1 = kind := by
  have htoken : (store.synthesizeToken producer kind text).2.token
      (store.synthesizeToken producer kind text).1 =
        ⟨kind, store.sources.size, 0, text.length, some producer⟩ := by
    rw [token, Array.getD_eq_getD_getElem?]
    exact congrArg (Option.getD · default) Array.getElem?_push_size
  rw [TokenStore.kind, htoken]

namespace Makes

variable {known : List TokenId}

theorem toExtends (hmakes : Makes known store ids later) : store.Extends later := by
  induction hmakes with
  | text store name text producer => exact store.extends_addText name text producer
  | copies store parent hknown => exact store.extends_copyAll parent _
  | single store producer text hkind =>
      exact ⟨⟨#[_], Array.push_eq_append⟩, ⟨#[_], Array.push_eq_append⟩⟩
  | append _ _ ihFirst ihSecond => exact ihFirst.trans ihSecond

/-- What is made of tokens that are spelled is spelled. -/
theorem spelled (hmakes : Makes known store ids later) (hknown : store.Spelled known) :
    later.Spelled ids := by
  induction hmakes with
  | text store name text producer => exact store.spelled_addText name text producer
  | copies store parent hsubset => exact (hknown.subset hsubset).copyAll parent
  | single store producer text hkind =>
      refine spelled_cons.mpr
        ⟨⟨store.lt_size_synthesizeToken producer _ text, fun hword => ?_⟩, nofun⟩
      rw [kind_synthesizeToken] at hword
      exact absurd hword hkind
  | append hfirst hsecond ihFirst ihSecond =>
      exact spelled_append.mpr ⟨hsecond.toExtends.spelled (ihFirst hknown),
        ihSecond (hfirst.toExtends.spelled hknown)⟩

end Makes

end TokenStore

end VectorStack
