import VectorStack.Proofs.Token.Pieces
/-!
Tokens of texts that expansion makes. They come behind all tokens of the store, in the order of the
text, with the kinds and characters of its lexemes. A name that is made is one word, or one label
where a colon is put behind it, and an address in front of a label is one position.
-/

namespace VectorStack

namespace Lexer

/-- A numeral behind an at sign, with a label behind it, is a position and the label. -/
theorem lex_position_label {digits word : List Char} {n : Nat} (hnumeral : Numeral digits n)
    (hword : IsWord word) :
    lex ('@' :: (digits ++ ' ' :: (word ++ [':']))) =
      [⟨.position, 0, digits.length + 1⟩, ⟨.label, digits.length + 2, word.length⟩] := by
  have hne := hnumeral.ne_nil
  cases digits with
  | nil => exact absurd rfl hne
  | cons first more =>
      have hscan : scan '@' (first :: more ++ ' ' :: (word ++ [':'])) =
          ⟨.position, (first :: more).length, 0⟩ :=
        scan_position hnumeral.isDigit (ends_cons rfl _)
      have hdrop : (first :: more ++ ' ' :: (word ++ [':'])).drop ((first :: more).length + 0) =
          ' ' :: (word ++ [':']) := List.drop_left
      have hplace : 0 + 1 + (first :: more).length + 0 + 1 = (first :: more).length + 2 := by omega
      rw [lex, lexFrom_cons _ _ (by decide), hscan, hdrop, lexFrom_space, lexFrom_label _ hword]
      dsimp only
      rw [hplace]

end Lexer

namespace TokenStore

variable {store : TokenStore} {producer : TokenId}

/-- The tokens of a text that is made are new, and are spelled as its lexemes are. -/
theorem synthesize_of_lex {text : List Char} {lexemes : List Lexeme}
    (hlex : Lexer.lex text = lexemes) :
    ∃ later, store.synthesize producer text =
        (List.range' store.size lexemes.length, later) ∧ store.Extends later ∧
      ∀ (index : Nat) (lexeme : Lexeme), lexemes[index]? = some lexeme →
        store.size + index < later.size ∧
        later.kind (store.size + index) = lexeme.kind ∧
        later.chars (store.size + index) = lexeme.chars text := by
  obtain ⟨later, hmade, hextends, hspelled⟩ :=
    @addText_of_lex store expansionName (some producer) _ _ hlex
  refine ⟨later, hmade, hextends, fun index lexeme hlexeme => ?_⟩
  obtain ⟨hlt, hkind, hchars, -⟩ := hspelled index lexeme hlexeme
  exact ⟨hlt, hkind, hchars⟩

/-- A word that is made is one token. -/
theorem synthesize_word {word : String} (hword : Lexer.IsWord word.toList) :
    ∃ later, store.synthesize producer word.toList = ([store.size], later) ∧ store.Extends later ∧
      store.size < later.size ∧ later.kind store.size = .word ∧ later.text store.size = word := by
  obtain ⟨later, hmade, hextends, hspelled⟩ :=
    @synthesize_of_lex store producer _ _ (Lexer.lex_word hword)
  obtain ⟨hlt, hkind, hchars⟩ := hspelled 0 _ rfl
  rw [Nat.add_zero] at hlt hkind hchars
  refine ⟨later, hmade, hextends, hlt, hkind, ?_⟩
  rw [text, hchars, Lexeme.chars, List.drop_zero, List.take_length, String.ofList_toList]

/-- A label that is made is one token. -/
theorem synthesize_label {word : String} (hword : Lexer.IsWord word.toList) :
    ∃ later, store.synthesize producer (word ++ ":").toList = ([store.size], later) ∧
      store.Extends later ∧ store.size < later.size ∧ later.kind store.size = .label ∧
      later.text store.size = word := by
  obtain ⟨later, hmade, hextends, hspelled⟩ :=
    @synthesize_of_lex store producer _ _ (Lexer.lex_label hword)
  obtain ⟨hlt, hkind, hchars⟩ := hspelled 0 _ rfl
  rw [Nat.add_zero] at hlt hkind hchars
  rw [String.toList_append]
  refine ⟨later, hmade, hextends, hlt, hkind, ?_⟩
  rw [text, hchars, Lexeme.chars, List.drop_zero, List.take_left, String.ofList_toList]

/-- An address and a label that are made are two tokens. -/
theorem synthesize_position_label (address : Nat) {word : String}
    (hword : Lexer.IsWord word.toList) :
    ∃ later, store.synthesize producer ("@" ++ Nat.repr address ++ " " ++ word ++ ":").toList =
        ([store.size, store.size + 1], later) ∧
      store.Extends later ∧ store.size + 1 < later.size ∧
      later.kind store.size = .position ∧
      later.chars store.size = '@' :: (Nat.repr address).toList ∧
      later.kind (store.size + 1) = .label ∧ later.text (store.size + 1) = word := by
  let digits := (Nat.repr address).toList
  have htext : ("@" ++ Nat.repr address ++ " " ++ word ++ ":").toList =
      '@' :: (digits ++ ' ' :: (word.toList ++ [':'])) := by
    simp [digits]
  have hlex := Lexer.lex_position_label (numeral_repr address) hword
  obtain ⟨later, hmade, hextends, hspelled⟩ := @synthesize_of_lex store producer _ _ hlex
  obtain ⟨-, hposition, hnumber⟩ := hspelled 0 _ rfl
  obtain ⟨hlt, hlabel, hname⟩ := hspelled 1 _ rfl
  rw [Nat.add_zero] at hposition hnumber
  rw [htext]
  refine ⟨later, hmade, hextends, hlt, hposition, ?_, hlabel, ?_⟩
  · rw [hnumber, Lexeme.chars, List.drop_zero, List.take_succ_cons, List.take_left]
  · have hdrop : ('@' :: (digits ++ ' ' :: (word.toList ++ [':']))).drop (digits.length + 2) =
        word.toList ++ [':'] := by
      rw [List.drop_succ_cons, ← List.drop_drop, List.drop_left]
      rfl
    rw [text, hname, Lexeme.chars, hdrop, List.take_left, String.ofList_toList]

end TokenStore

end VectorStack
