import VectorStack.Token.Lexer
/-!
Words in a text. Whatever the text, a lexeme that is a word or a label is spelled with word
characters alone. A word at the end of a text is one lexeme, and with a colon behind it one label.
-/

namespace VectorStack

/-- The characters of a lexeme of a text. -/
def Lexeme.chars (lexeme : Lexeme) (text : List Char) : List Char :=
  (text.drop lexeme.start).take lexeme.length

namespace Lexer

/-- A letter or an underscore, and then letters, digits, underscores and dots. -/
def IsWord : List Char → Prop
  | [] => False
  | first :: rest => isWordStart first = true ∧ ∀ c ∈ rest, isWordChar c = true

instance : DecidablePred IsWord
  | [] => .isFalse id
  | first :: rest =>
    decidable_of_iff (isWordStart first = true ∧ rest.all isWordChar = true)
      (and_congr_right fun _ => List.all_eq_true)

theorem isWordChar_of_isWordStart {c : Char} (hstart : isWordStart c = true) :
    isWordChar c = true := by
  simp only [isWordStart, isWordChar, Char.isAlphanum, Bool.or_eq_true] at *
  rcases hstart with halpha | hunderscore
  · exact .inl (.inl (.inl halpha))
  · exact .inl (.inr hunderscore)

theorem IsWord.isWordChar {text : List Char} (hword : IsWord text) :
    ∀ c ∈ text, isWordChar c = true := by
  cases text with
  | nil => exact hword.elim
  | cons first rest =>
      intro c hmem
      rcases List.mem_cons.mp hmem with rfl | hmem
      · exact isWordChar_of_isWordStart hword.1
      · exact hword.2 c hmem

/-- Word characters behind a word belong to it. -/
theorem IsWord.append {text more : List Char} (hword : IsWord text)
    (hmore : ∀ c ∈ more, Lexer.isWordChar c = true) : IsWord (text ++ more) := by
  cases text with
  | nil => exact hword.elim
  | cons first rest =>
      refine ⟨hword.1, ?_⟩
      intro c hmem
      rcases List.mem_append.mp hmem with hmem | hmem
      · exact hword.2 c hmem
      · exact hmore c hmem

/-- What can be skipped starts with one of these. -/
def blanks : List Char := [' ', '\t', '\r', '\\']

theorem skipBlanks_eq_self {first : Char} (place : Nat) (rest : List Char)
    (hfirst : first ∉ blanks) :
    skipBlanks place (first :: rest) = (place, first :: rest) := by
  simp only [blanks, List.mem_cons, List.not_mem_nil, or_false, not_or] at hfirst
  obtain ⟨hspace, htab, hreturn, hbackslash⟩ := hfirst
  rw [skipBlanks]
  · exact fun _ h => hspace (List.cons.inj h).1
  · exact fun _ h => htab (List.cons.inj h).1
  · exact fun _ h => hreturn (List.cons.inj h).1
  · exact fun _ h => hbackslash (List.cons.inj h).1
  · exact fun _ h => hbackslash (List.cons.inj h).1

theorem lexFrom_eq (place : Nat) (text : List Char) :
    lexFrom place text = match skipBlanks place text with
      | (_, []) => []
      | (start, first :: rest) =>
        ⟨(scan first rest).kind, start, (scan first rest).more + 1⟩ ::
          lexFrom (start + 1 + (scan first rest).more + (scan first rest).skipped)
            (rest.drop ((scan first rest).more + (scan first rest).skipped)) := by
  rw [lexFrom]
  split <;> simp only [*]

theorem lexFrom_nil (place : Nat) : lexFrom place [] = [] := by
  rw [lexFrom_eq, skipBlanks]
  all_goals nofun

theorem lexFrom_cons {first : Char} (place : Nat) (rest : List Char)
    (hfirst : first ∉ blanks) :
    lexFrom place (first :: rest) =
      ⟨(scan first rest).kind, place, (scan first rest).more + 1⟩ ::
        lexFrom (place + 1 + (scan first rest).more + (scan first rest).skipped)
          (rest.drop ((scan first rest).more + (scan first rest).skipped)) := by
  rw [lexFrom_eq, skipBlanks_eq_self place rest hfirst]

/-- A word does not go on with a text that starts with a character of no word. -/
theorem ends_cons {c : Char} (hend : isWordChar c = false) (rest : List Char) :
    ∀ other ∈ (c :: rest).head?, isWordChar other = false := by
  intro other hmem
  rw [List.head?_cons, Option.mem_some_iff] at hmem
  exact hmem ▸ hend

/-- A run of characters that pass a test, up to one that does not, is counted whole. -/
theorem count_append {test : Char → Bool} {run rest : List Char} (hrun : ∀ c ∈ run, test c = true)
    (hrest : ∀ c ∈ rest.head?, test c = false) : count test (run ++ rest) = run.length := by
  rw [count, List.takeWhile_append_of_pos hrun, List.length_append]
  cases rest with
  | nil => rfl
  | cons c rest =>
      rw [List.takeWhile_cons, hrest c rfl]
      rfl

theorem notMem_blanks_of_isWordStart {first : Char} (hstart : isWordStart first = true) :
    first ∉ blanks := by
  intro hmem
  simp only [blanks, List.mem_cons, List.not_mem_nil, or_false] at hmem
  rcases hmem with rfl | rfl | rfl | rfl <;> exact absurd hstart (by decide)

/-- What starts a word starts nothing else. -/
theorem ne_of_isWordStart {first : Char} (hstart : isWordStart first = true) :
    first ≠ '#' ∧ first ≠ '@' ∧ first ≠ '.' ∧ first ≠ ':' := by
  refine ⟨?_, ?_, ?_, ?_⟩ <;> rintro rfl <;> exact absurd hstart (by decide)

theorem isDigit_of_isWordStart {first : Char} (hstart : isWordStart first = true) :
    first.isDigit = false := by
  rw [Bool.eq_false_iff]
  intro hdigit
  have hbelow : first.val ≤ 57 := of_decide_eq_true (Bool.and_eq_true_iff.mp hdigit).2
  rcases Bool.or_eq_true_iff.mp hstart with halpha | hunderscore
  · rcases Bool.or_eq_true_iff.mp halpha with hupper | hlower
    · have habove : 65 ≤ first.val := (of_decide_eq_true hupper).1
      exact absurd (UInt32.le_trans habove hbelow) (by decide)
    · have habove : 97 ≤ first.val := of_decide_eq_true (Bool.and_eq_true_iff.mp hlower).1
      exact absurd (UInt32.le_trans habove hbelow) (by decide)
  · rw [beq_iff_eq.mp hunderscore] at hdigit
    exact absurd hdigit (by decide)

/-- A word goes on as long as word characters follow, and a colon can make it a label. -/
theorem scan_word {first : Char} (rest : List Char) (hstart : isWordStart first = true) :
    scan first rest =
      if isLabelEnd (rest.drop (count isWordChar rest)) then
        ⟨.label, count isWordChar rest, 1⟩
      else ⟨.word, count isWordChar rest, 0⟩ := by
  simp [scan, ne_of_isWordStart hstart, isDigit_of_isWordStart hstart, hstart]

/-- Kinds of words. -/
def IsWordKind (kind : TokenKind) : Prop := kind = .word ∨ kind = .label

instance : DecidablePred IsWordKind := fun kind =>
  inferInstanceAs (Decidable (kind = .word ∨ kind = .label))

theorem not_isWordKind_scanNumber (text : List Char) : ¬ IsWordKind (scanNumber text).1 := by
  rw [scanNumber]
  dsimp only
  split <;> rintro (h | h) <;> cases h

theorem not_isWordKind_markKind? (c : Char) : ¬ IsWordKind ((markKind? c).getD .invalid) := by
  unfold markKind?
  split <;> rintro (h | h) <;> cases h

/-- Nothing but a word is scanned as one. -/
theorem not_isWordKind_scan {first : Char} (rest : List Char)
    (hstart : isWordStart first = false) : ¬ IsWordKind (scan first rest).kind := by
  have hnumber := not_isWordKind_scanNumber (first :: rest)
  have hmark := not_isWordKind_markKind? first
  unfold scan
  rw [hstart]
  generalize scanNumber (first :: rest) = number at *
  repeat' split
  all_goals first
    | exact hmark
    | exact hnumber
    | (rintro (h | h) <;> contradiction)

theorem drop_of_eq_append {whole rest : List Char} {place : Nat} (taken : List Char)
    (hdrop : whole.drop place = taken ++ rest) : whole.drop (place + taken.length) = rest := by
  rw [← List.drop_drop, hdrop, List.drop_left]

/-- Skipping blanks moves on in a text. -/
theorem skipBlanks_eq_drop {whole text : List Char} {place : Nat}
    (htext : whole.drop place = text) :
    whole.drop (skipBlanks place text).1 = (skipBlanks place text).2 := by
  fun_induction skipBlanks place text with
  | case1 place rest ih => exact ih (drop_of_eq_append [' '] htext)
  | case2 place rest ih => exact ih (drop_of_eq_append ['\t'] htext)
  | case3 place rest ih => exact ih (drop_of_eq_append ['\r'] htext)
  | case4 place rest ih => exact ih (drop_of_eq_append ['\\', '\n'] htext)
  | case5 place rest ih => exact ih (drop_of_eq_append ['\\', '\r', '\n'] htext)
  | case6 place text => exact htext

/-- Of what can be skipped, only a backslash may be left at the front. -/
theorem eq_backslash_of_skipBlanks {text rest : List Char} {first : Char} {place start : Nat}
    (hskip : skipBlanks place text = (start, first :: rest)) (hmem : first ∈ blanks) :
    first = '\\' := by
  fun_induction skipBlanks place text with
  | case1 _ _ ih | case2 _ _ ih | case3 _ _ ih | case4 _ _ ih | case5 _ _ ih => exact ih hskip
  | case6 place text hspace htab hreturn =>
      cases hskip
      simp only [blanks, List.mem_cons, List.not_mem_nil, or_false] at hmem
      rcases hmem with rfl | rfl | rfl | rfl
      · exact (hspace rest rfl).elim
      · exact (htab rest rfl).elim
      · exact (hreturn rest rfl).elim
      · rfl

/-- Every lexeme is what is scanned from some place of the text on, where nothing is skipped. -/
theorem exists_scan_of_mem_lexFrom {whole text : List Char} {place : Nat}
    (htext : whole.drop place = text) :
    ∀ lexeme ∈ lexFrom place text, ∃ first rest, whole.drop lexeme.start = first :: rest ∧
      lexeme.kind = (scan first rest).kind ∧ lexeme.length = (scan first rest).more + 1 ∧
      (first ∈ blanks → first = '\\') := by
  fun_induction lexFrom place text with
  | case1 => nofun
  | case2 place text start first rest hblank found ih =>
      have hstart := skipBlanks_eq_drop htext
      rw [hblank] at hstart
      intro lexeme hmem
      rcases List.mem_cons.mp hmem with rfl | hmem
      · exact ⟨first, rest, hstart, rfl, rfl, eq_backslash_of_skipBlanks hblank⟩
      · refine ih ?_ lexeme hmem
        rw [Nat.add_assoc, Nat.add_assoc, ← List.drop_drop, hstart, Nat.add_comm 1]
        exact List.drop_succ_cons

theorem exists_scan_of_mem_lex {text : List Char} {lexeme : Lexeme} (hmem : lexeme ∈ lex text) :
    ∃ first rest, text.drop lexeme.start = first :: rest ∧
      lexeme.kind = (scan first rest).kind ∧
      lexeme.chars text = first :: rest.take (scan first rest).more := by
  obtain ⟨first, rest, hdrop, hkind, hlength, -⟩ := exists_scan_of_mem_lexFrom rfl lexeme hmem
  refine ⟨first, rest, hdrop, hkind, ?_⟩
  rw [Lexeme.chars, hdrop, hlength, List.take_succ_cons]

theorem start_lt_of_mem_lex {text : List Char} {lexeme : Lexeme} (hmem : lexeme ∈ lex text) :
    lexeme.start < text.length := by
  obtain ⟨first, rest, hdrop, -, -⟩ := exists_scan_of_mem_lex hmem
  refine Nat.lt_of_not_le fun hle => ?_
  rw [List.drop_eq_nil_of_le hle] at hdrop
  cases hdrop

/-- Words and labels are spelled as words. -/
theorem isWord_of_mem_lex {text : List Char} {lexeme : Lexeme} (hmem : lexeme ∈ lex text)
    (hkind : IsWordKind lexeme.kind) : IsWord (lexeme.chars text) := by
  obtain ⟨first, rest, -, hscan, hchars⟩ := exists_scan_of_mem_lex hmem
  rw [hscan] at hkind
  cases hfirst : isWordStart first with
  | false => exact absurd hkind (not_isWordKind_scan rest hfirst)
  | true =>
      have hmore : (scan first rest).more = count isWordChar rest := by
        rw [scan_word rest hfirst]
        split <;> rfl
      have htaken := List.prefix_iff_eq_take.mp (List.takeWhile_prefix isWordChar (l := rest))
      rw [hchars, hmore, count, ← htaken]
      exact ⟨hfirst, fun c hc => List.all_eq_true.mp List.all_takeWhile c hc⟩

/-- A word that ends a text is one word. -/
theorem lex_word {word : List Char} (hword : IsWord word) :
    lex word = [⟨.word, 0, word.length⟩] := by
  cases word with
  | nil => exact hword.elim
  | cons first rest =>
      have hcount : count isWordChar (rest ++ []) = rest.length := count_append hword.2 nofun
      rw [List.append_nil] at hcount
      have hscan : scan first rest = ⟨.word, rest.length, 0⟩ := by
        rw [scan_word _ hword.1, hcount, List.drop_length]
        rfl
      have hend : rest.drop (rest.length + 0) = [] := List.drop_length
      rw [lex, lexFrom_cons _ _ (notMem_blanks_of_isWordStart hword.1), hscan, hend, lexFrom_nil]
      rfl

/-- A word with a colon behind it at the end of a text is one label. -/
theorem lexFrom_label (place : Nat) {word : List Char} (hword : IsWord word) :
    lexFrom place (word ++ [':']) = [⟨.label, place, word.length⟩] := by
  cases word with
  | nil => exact hword.elim
  | cons first rest =>
      have hcount : count isWordChar (rest ++ [':']) = rest.length :=
        count_append hword.2 (ends_cons rfl [])
      have hscan : scan first (rest ++ [':']) = ⟨.label, rest.length, 1⟩ := by
        rw [scan_word _ hword.1, hcount, List.drop_left]
        rfl
      have hend : (rest ++ [':']).drop (rest.length + 1) = [] :=
        List.drop_eq_nil_of_le (Nat.le_of_eq List.length_append)
      rw [List.cons_append, lexFrom_cons _ _ (notMem_blanks_of_isWordStart hword.1), hscan, hend,
        lexFrom_nil]
      rfl

theorem lex_label {word : List Char} (hword : IsWord word) :
    lex (word ++ [':']) = [⟨.label, 0, word.length⟩] :=
  lexFrom_label 0 hword

end Lexer

end VectorStack
