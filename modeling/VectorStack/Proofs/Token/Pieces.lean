import VectorStack.Proofs.Token.Growth
import VectorStack.Proofs.Token.Numeral
/-!
Texts that are put together from pieces. A word, a type, a number or a mark is one piece of a text
when what follows does not go on with it, and the tokens of a text that is loaded are its pieces in
order.
-/

namespace VectorStack

namespace Lexer

/-- A text with its pieces and their kinds, in order. Spaces may stand between pieces. -/
inductive Cuts : List Char → List (TokenKind × List Char) → Prop
  | nil : Cuts [] []
  | space {rest : List Char} {pieces : List (TokenKind × List Char)} (hrest : Cuts rest pieces) :
    Cuts (' ' :: rest) pieces
  | piece {first : Char} {more rest : List Char} {kind : TokenKind}
      {pieces : List (TokenKind × List Char)} (hfirst : first ∉ blanks)
      (hscan : scan first (more ++ rest) = ⟨kind, more.length, 0⟩) (hrest : Cuts rest pieces) :
    Cuts (first :: (more ++ rest)) ((kind, first :: more) :: pieces)

variable {text more rest : List Char} {first : Char} {pieces : List (TokenKind × List Char)}

theorem lexFrom_space (place : Nat) (rest : List Char) :
    lexFrom place (' ' :: rest) = lexFrom (place + 1) rest := by
  rw [lexFrom_eq, lexFrom_eq (place + 1), skipBlanks]

/-- The lexemes of a text are its pieces. -/
theorem Cuts.map_lexFrom (hcuts : Cuts text pieces) {whole : List Char} {place : Nat}
    (htext : whole.drop place = text) :
    (lexFrom place text).map (fun lexeme => (lexeme.kind, lexeme.chars whole)) = pieces := by
  induction hcuts generalizing place with
  | nil =>
      rw [lexFrom_nil]
      rfl
  | space _ ih =>
      rw [lexFrom_space]
      exact ih (drop_of_eq_append [' '] htext)
  | @piece first more rest kind pieces hfirst hscan _ ih =>
      have hchars : Lexeme.chars ⟨kind, place, more.length + 1⟩ whole = first :: more := by
        rw [Lexeme.chars, htext, List.take_succ_cons, List.take_left]
      have hrest : whole.drop (place + 1 + more.length) = rest := by
        rw [Nat.add_assoc, Nat.add_comm 1]
        exact drop_of_eq_append (first :: more) htext
      rw [lexFrom_cons place _ hfirst, hscan]
      simp only [List.map_cons, hchars, Nat.add_zero, List.drop_left, ih hrest]

/-- A word ends where no word character follows. -/
theorem Cuts.word {word : List Char} (hword : IsWord word)
    (hends : ∀ c ∈ rest.head?, isWordChar c = false) (hlabel : isLabelEnd rest = false)
    (hrest : Cuts rest pieces) : Cuts (word ++ rest) ((.word, word) :: pieces) := by
  cases word with
  | nil => exact hword.elim
  | cons first more =>
      refine .piece (notMem_blanks_of_isWordStart hword.1) ?_ hrest
      rw [scan_word _ hword.1, count_append hword.2 hends, List.drop_left, hlabel]
      rfl

/-- A colon and a word behind it name a type. -/
theorem Cuts.type {word : List Char} (hword : IsWord word)
    (hends : ∀ c ∈ rest.head?, isWordChar c = false) (hrest : Cuts rest pieces) :
    Cuts (':' :: (word ++ rest)) ((.type, ':' :: word) :: pieces) := by
  refine .piece (by decide) ?_ hrest
  have hfollows : wordFollows (word ++ rest) = true := by
    cases word with
    | nil => exact hword.elim
    | cons first more => exact hword.1
  rw [scan, hfollows, count_append hword.isWordChar hends]
  rfl

/-- A numeral ends where no word character follows. -/
theorem Cuts.number {digits : List Char} {n : Nat} (hnumeral : Numeral digits n)
    (hends : ∀ c ∈ rest.head?, isWordChar c = false) (hrest : Cuts rest pieces) :
    Cuts (digits ++ rest) ((.number, digits) :: pieces) := by
  cases digits with
  | nil => exact absurd rfl hnumeral.ne_nil
  | cons first more =>
      refine .piece ?_ (scan_digits hnumeral.isDigit hends) hrest
      intro hblank
      have hdigit := hnumeral.isDigit first List.mem_cons_self
      simp only [blanks, List.mem_cons, List.not_mem_nil, or_false] at hblank
      rcases hblank with rfl | rfl | rfl | rfl <;> exact absurd hdigit (by decide)

/-- A mark is a piece by itself, whatever follows, unless it may be the start of an arrow. -/
theorem Cuts.mark {mark : Char} {kind : TokenKind} (hmark : markKind? mark = some kind)
    (harrow : mark ≠ '-') (hrest : Cuts rest pieces) :
    Cuts (mark :: rest) ((kind, [mark]) :: pieces) := by
  have hscan : scan mark ([] ++ rest) = ⟨kind, 0, 0⟩ := by
    unfold markKind? at hmark
    split at hmark
    all_goals first
      | exact (harrow rfl).elim
      | (cases hmark; rfl)
      | cases hmark
  refine @Cuts.piece mark [] rest kind pieces ?_ hscan hrest
  intro hblank
  simp only [blanks, List.mem_cons, List.not_mem_nil, or_false] at hblank
  rcases hblank with rfl | rfl | rfl | rfl <;> cases hmark

end Lexer

namespace TokenStore

/-- The first tokens of a store are pieces. -/
def Spells (store : TokenStore) (pieces : List (TokenKind × List Char)) : Prop :=
  ∀ (id : TokenId) (piece : TokenKind × List Char), pieces[id]? = some piece →
    store.kind id = piece.1 ∧ store.chars id = piece.2

/-- The tokens of a text that is loaded are its pieces. -/
theorem load_of_cuts {text : List Char} {pieces : List (TokenKind × List Char)} (name : String)
    (hcuts : Lexer.Cuts text pieces) :
    ∃ store, empty.load name text = (List.range pieces.length, store) ∧ store.Spells pieces := by
  have hpieces : (Lexer.lex text).map (fun lexeme => (lexeme.kind, lexeme.chars text)) = pieces :=
    hcuts.map_lexFrom rfl
  have hlength : (Lexer.lex text).length = pieces.length := by
    rw [← hpieces, List.length_map]
  let store : TokenStore :=
    ⟨#[⟨name, text.toArray, none⟩], ((Lexer.lex text).map (ofLexeme 0 none)).toArray⟩
  refine ⟨store, ?_, ?_⟩
  · rw [load_eq, addText_eq, hlength, List.range_eq_range']
    simp [store, empty, size]
  · intro id piece hpiece
    rw [← hpieces, List.getElem?_map, Option.map_eq_some_iff] at hpiece
    obtain ⟨lexeme, hlexeme, rfl⟩ := hpiece
    have htoken : store.token id = ofLexeme 0 none lexeme := by
      simp [store, token, hlexeme]
    have hsource : store.source 0 = ⟨name, text.toArray, none⟩ := rfl
    rw [kind, chars, htoken]
    refine ⟨rfl, ?_⟩
    simp [ofLexeme, hsource, Lexeme.chars, List.extract_eq_take_drop]

end TokenStore

end VectorStack
