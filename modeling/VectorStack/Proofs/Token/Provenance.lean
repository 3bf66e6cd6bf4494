import Mathlib.Data.List.Chain
import VectorStack.Proofs.Token.Growth
/-!
Where tokens come from. The tokens of the main text are the first in a store and have no parent, and
every token that is added later was caused by one that was there already. So the parents of a token
are smaller and smaller numbers, the last of them is a token of the main text, and the trace of the
token ends at the place of that one.
-/

namespace VectorStack

/-- Where a lexeme of a named text stands. The line counts the line ends before it, and the column
what follows the last of them. -/
def Lexeme.location (lexeme : Lexeme) (name : String) (text : List Char) : Location :=
  let before := text.take lexeme.start
  ⟨name, before.count '\n' + 1, (before.reverse.takeWhile (· != '\n')).length + 1⟩

namespace TokenStore

/-- All of these tokens are in the store. -/
def Has (store : TokenStore) (ids : List TokenId) : Prop := ∀ id ∈ ids, id < store.size

/-- A later store, in which every token that was added was caused by one before it. -/
structure Grows (store later : TokenStore) : Prop extends store.Extends later where
  caused : ∀ id, store.size ≤ id → id < later.size →
    ∃ parent < id, (later.token id).parent = some parent

/-- The store began with a text, and grew from there. -/
def GrownFrom (store : TokenStore) (name : String) (text : List Char) : Prop :=
  (empty.load name text).2.Grows store

/-- The parents of a token come before their children, and the last of them was cut from a text. -/
structure LeadsBack (store : TokenStore) (name : String) (text : List Char) (id : TokenId) :
    Prop where
  starts : ∃ parents, store.ancestry id = id :: parents
  chain : (store.ancestry id).IsChain fun child parent =>
    parent < child ∧ (store.token child).parent = some parent
  ends : ∃ root lexeme, (store.ancestry id).getLast? = some root ∧
    (Lexer.lex text)[root]? = some lexeme ∧ store.token root = ofLexeme 0 none lexeme ∧
    store.source 0 = ⟨name, text.toArray, none⟩

variable {store later : TokenStore} {ids more : List TokenId}

@[simp] theorem has_nil (store : TokenStore) : store.Has [] := nofun

@[simp] theorem has_cons {id : TokenId} : store.Has (id :: ids) ↔ id < store.size ∧ store.Has ids :=
  List.forall_mem_cons

@[simp] theorem has_append : store.Has (ids ++ more) ↔ store.Has ids ∧ store.Has more :=
  List.forall_mem_append

@[simp] theorem has_reverse : store.Has ids.reverse ↔ store.Has ids := by
  simp only [Has, List.mem_reverse]

theorem has_flatMap {α : Type} {list : List α} {tokens : α → List TokenId} :
    store.Has (list.flatMap tokens) ↔ ∀ a ∈ list, store.Has (tokens a) := by
  simp only [Has, List.mem_flatMap]
  exact ⟨fun h a hmem id hid => h id ⟨a, hmem, hid⟩, fun h id ⟨a, hmem, hid⟩ => h a hmem id hid⟩

theorem has_flatten {lists : List (List TokenId)} :
    store.Has lists.flatten ↔ ∀ list ∈ lists, store.Has list := by
  rw [← List.flatMap_id]
  exact has_flatMap

theorem Has.subset (hhas : store.Has ids) (hsubset : more ⊆ ids) : store.Has more :=
  fun id hmem => hhas id (hsubset hmem)

theorem Extends.has (hextends : store.Extends later) (hhas : store.Has ids) : later.Has ids :=
  fun id hmem => Nat.lt_of_lt_of_le (hhas id hmem) hextends.size_le

namespace Grows

theorem refl (store : TokenStore) : store.Grows store :=
  ⟨.refl store, fun _ hle hlt => absurd hlt (Nat.not_lt_of_le hle)⟩

theorem trans {last : TokenStore} (hfirst : store.Grows later) (hsecond : later.Grows last) :
    store.Grows last := by
  refine ⟨hfirst.toExtends.trans hsecond.toExtends, fun id hle hlt => ?_⟩
  by_cases hadded : later.size ≤ id
  · exact hsecond.caused id hadded hlt
  · have hbetween := Nat.lt_of_not_le hadded
    rw [hsecond.token_eq hbetween]
    exact hfirst.caused id hle hbetween

/-- Tokens whose parents are in the store may be added, with any texts. -/
theorem of_added {sources : Array Source} {tokens : List Token}
    (hsources : ∃ more, sources = store.sources ++ more)
    (htokens : ∀ token ∈ tokens, ∃ parent < store.size, token.parent = some parent) :
    store.Grows ⟨sources, store.tokens ++ tokens.toArray⟩ := by
  refine ⟨⟨hsources, _, rfl⟩, fun id hle hlt => ?_⟩
  have hindex : id - store.tokens.size < tokens.length := by
    simp only [size, Array.size_append, List.size_toArray] at hle hlt
    omega
  obtain ⟨parent, hparent, hcaused⟩ := htokens _ (List.getElem_mem hindex)
  refine ⟨parent, Nat.lt_of_lt_of_le hparent hle, ?_⟩
  rw [token, Array.getD_eq_getD_getElem?, Array.getElem?_append_right hle, List.getElem?_toArray,
    List.getElem?_eq_getElem hindex, Option.getD_some, hcaused]

end Grows

theorem grows_addText (name : String) (text : List Char) {producer : TokenId}
    (hproducer : producer < store.size) :
    store.Grows (store.addText name text (some producer)).2 := by
  rw [addText_eq]
  refine .of_added ⟨_, Array.push_eq_append⟩ fun token hmem => ?_
  obtain ⟨lexeme, -, rfl⟩ := List.mem_map.mp hmem
  exact ⟨producer, hproducer, rfl⟩

/-- One more token, with the texts that it may need. -/
theorem grows_push {sources : Array Source} {token : Token} {parent : TokenId}
    (hsources : ∃ more, sources = store.sources ++ more) (hparent : parent < store.size)
    (hcaused : token.parent = some parent) : store.Grows ⟨sources, store.tokens.push token⟩ := by
  rw [Array.push_eq_append]
  exact .of_added hsources (List.forall_mem_singleton.mpr ⟨parent, hparent, hcaused⟩)

theorem grows_copyAll {parent : TokenId} (templates : List TokenId)
    (hparent : parent < store.size) : store.Grows (store.copyAll parent templates).2 := by
  induction templates generalizing store with
  | nil => exact .refl store
  | cons template rest ih =>
      have hcopy : store.Grows (store.copy template parent).2 :=
        grows_push ⟨#[], Array.append_empty.symm⟩ hparent rfl
      exact hcopy.trans (ih (Nat.lt_of_lt_of_le hparent hcopy.size_le))

theorem grows_synthesizeToken (kind : TokenKind) (text : List Char) {producer : TokenId}
    (hproducer : producer < store.size) :
    store.Grows (store.synthesizeToken producer kind text).2 :=
  grows_push ⟨#[_], Array.push_eq_append⟩ hproducer rfl

variable {name : String} {text : List Char} {id : TokenId}

theorem size_load (name : String) (text : List Char) :
    (empty.load name text).2.size = (Lexer.lex text).length := by
  rw [load_eq, addText_eq]
  simp [size, empty]

theorem token_load {lexeme : Lexeme} (hlexeme : (Lexer.lex text)[id]? = some lexeme) :
    (empty.load name text).2.token id = ofLexeme 0 none lexeme := by
  rw [load_eq, addText_eq, token, Array.getD_eq_getD_getElem?]
  simp [empty, hlexeme]

namespace GrownFrom

/-- The main text is the first. -/
theorem source_zero (hgrown : store.GrownFrom name text) :
    store.source 0 = ⟨name, text.toArray, none⟩ := by
  rw [hgrown.source_eq (by rw [load_eq, addText_eq]; simp [empty]), load_eq, addText_eq]
  simp [source, empty]

/-- The tokens of the main text are the first. -/
theorem token_eq (hgrown : store.GrownFrom name text) {lexeme : Lexeme}
    (hlexeme : (Lexer.lex text)[id]? = some lexeme) : store.token id = ofLexeme 0 none lexeme := by
  have hlt : id < (empty.load name text).2.size := by
    rw [size_load]
    exact (List.getElem?_eq_some_iff.mp hlexeme).1
  rw [hgrown.toExtends.token_eq hlt, token_load hlexeme]

/-- Every token leads back to the main text. -/
theorem leadsBack (hgrown : store.GrownFrom name text) (hlt : id < store.size) :
    store.LeadsBack name text id := by
  induction id using Nat.strongRecOn with
  | ind id ih =>
      by_cases hmain : id < (Lexer.lex text).length
      · have hlexeme := List.getElem?_eq_getElem hmain
        have htoken := hgrown.token_eq hlexeme
        have hancestry : store.ancestry id = [id] := by
          rw [ancestry, htoken]
          rfl
        refine ⟨⟨[], hancestry⟩, ?_, id, _, ?_, hlexeme, htoken, hgrown.source_zero⟩
        · rw [hancestry]
          exact .singleton id
        · rw [hancestry]
          rfl
      · obtain ⟨parent, hparent, hcaused⟩ :=
          hgrown.caused id (by rw [size_load]; exact Nat.le_of_not_lt hmain) hlt
        obtain ⟨⟨parents, hparents⟩, hchain, hends⟩ := ih parent hparent (Nat.lt_trans hparent hlt)
        have hancestry : store.ancestry id = id :: parent :: parents := by
          rw [ancestry, hcaused]
          dsimp only
          rw [if_pos hparent, hparents]
        rw [hparents] at hchain hends
        refine ⟨⟨_, hancestry⟩, ?_, ?_⟩
        · rw [hancestry]
          exact .cons_cons ⟨hparent, hcaused⟩ hchain
        · rw [hancestry, List.getLast?_cons_cons]
          exact hends

end GrownFrom

/-- The trace of a token ends at the place of a token of the text that it leads back to. -/
theorem LeadsBack.getLast?_trace (hleads : store.LeadsBack name text id) :
    ∃ lexeme ∈ Lexer.lex text, (store.trace id).getLast? = some (lexeme.location name text) := by
  obtain ⟨root, lexeme, hlast, hlexeme, htoken, hsource⟩ := hleads.ends
  have hmem := List.mem_of_getElem? hlexeme
  have hsourceOf : store.sourceOf root = ⟨name, text.toArray, none⟩ := by
    rw [sourceOf, htoken]
    exact hsource
  refine ⟨lexeme, hmem, ?_⟩
  rw [trace, List.getLast?_map, hlast, Option.map_some, location_eq, hsourceOf, before, hsourceOf,
    htoken]
  · rfl
  · rw [hsourceOf, htoken]
    exact Nat.le_of_lt (Lexer.start_lt_of_mem_lex hmem)

end TokenStore

end VectorStack
