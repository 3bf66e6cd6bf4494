import VectorStack.Proofs.Token.Provenance
/-!
Copies of tokens. A store that copies were added to has all tokens that it had, and the copies are
of the same kinds and spelled the same as what they are copies of, but all have one parent.
-/

namespace VectorStack

namespace TokenStore

variable {store later : TokenStore} {parent : TokenId} {templates copies : List TokenId}

/-- Tokens of a later store that are like others of an earlier one. -/
def SameTokens (store later : TokenStore) (templates copies : List TokenId) : Prop :=
  copies.map later.kind = templates.map store.kind ∧
    copies.map later.text = templates.map store.text

namespace SameTokens

theorem cons {template copy : TokenId} (hkind : later.kind copy = store.kind template)
    (htext : later.text copy = store.text template)
    (hrest : store.SameTokens later templates copies) :
    store.SameTokens later (template :: templates) (copy :: copies) :=
  ⟨List.cons_eq_cons.mpr ⟨hkind, hrest.1⟩, List.cons_eq_cons.mpr ⟨htext, hrest.2⟩⟩

theorem append {more others : List TokenId} (hfirst : store.SameTokens later templates copies)
    (hsecond : store.SameTokens later more others) :
    store.SameTokens later (templates ++ more) (copies ++ others) := by
  refine ⟨?_, ?_⟩
  · rw [List.map_append, List.map_append, hfirst.1, hsecond.1]
  · rw [List.map_append, List.map_append, hfirst.2, hsecond.2]

theorem trans {last : TokenStore} {others : List TokenId}
    (hfirst : store.SameTokens later templates copies)
    (hsecond : later.SameTokens last copies others) : store.SameTokens last templates others :=
  ⟨hsecond.1.trans hfirst.1, hsecond.2.trans hfirst.2⟩

end SameTokens

theorem sources_copyAll (store : TokenStore) (parent : TokenId) (templates : List TokenId) :
    (store.copyAll parent templates).2.sources = store.sources := by
  induction templates generalizing store with
  | nil => rfl
  | cons template rest ih => exact ih (store.copy template parent).2

/-- Tokens that a store has stay as they are when copies are made. -/
theorem sameTokens_copyAll (parent : TokenId) (templates : List TokenId) {ids : List TokenId}
    (hids : store.Has ids) :
    store.SameTokens (store.copyAll parent templates).2 ids ids := by
  have htoken (id : TokenId) (hmem : id ∈ ids) :=
    (store.extends_copyAll parent templates).token_eq (hids id hmem)
  refine ⟨List.map_congr_left fun id hmem => ?_, List.map_congr_left fun id hmem => ?_⟩
  · rw [kind, kind, htoken id hmem]
  · rw [text, text, chars, chars, source, source, sources_copyAll, htoken id hmem]

/-- Copies are like what they are copies of, and have the parent that they were made for. -/
theorem copied_copyAll (parent : TokenId) (htemplates : store.Has templates) :
    store.SameTokens (store.copyAll parent templates).2 templates
        (store.copyAll parent templates).1 ∧
      ∀ copy ∈ (store.copyAll parent templates).1,
        ((store.copyAll parent templates).2.token copy).parent = some parent := by
  induction templates generalizing store with
  | nil => exact ⟨⟨rfl, rfl⟩, nofun⟩
  | cons template rest ih =>
      obtain ⟨-, hrest⟩ := has_cons.mp htemplates
      obtain ⟨hsame, hparents⟩ := ih ((store.extends_copy template parent).has hrest)
      have hnew := store.lt_size_copy template parent
      have htoken := ((store.copy template parent).2.extends_copyAll parent rest).token_eq hnew
      rw [token_copy] at htoken
      have hkind := congrArg Token.kind htoken
      have hparent := congrArg Token.parent htoken
      have htext : ((store.copy template parent).2.copyAll parent rest).2.text
          (store.copy template parent).1 = store.text template := by
        rw [text, chars, source, sources_copyAll, htoken]
        rfl
      have hstay : store.SameTokens (store.copy template parent).2 rest rest :=
        store.sameTokens_copyAll parent [template] hrest
      exact ⟨.cons hkind htext (hstay.trans hsame), List.forall_mem_cons.mpr ⟨hparent, hparents⟩⟩

end TokenStore

end VectorStack
