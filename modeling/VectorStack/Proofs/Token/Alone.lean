import VectorStack.Proofs.Token.Stretches
/-!
Lexemes by themselves. The lexer decides what a lexeme is from its own characters and, for a label,
from the colon behind it. So the text of a lexeme, cut out of whatever text it was in, is one lexeme
of the same kind, and only a label that has lost its colon is a word.
-/

namespace VectorStack

/-- What a lexeme is without the text that follows it: a label without its colon is a word. -/
def TokenKind.alone : TokenKind → TokenKind
  | .label => .word
  | kind => kind

namespace Lexer

variable {first : Char} {text rest : List Char} {size : Nat}

section Cutting

/-- A length that is told from the characters within it: a text may be cut off anywhere behind
them. -/
def Settled (length : List Char → Nat) : Prop :=
  ∀ text size, length text ≤ size → length (text.take size) = length text

theorem count_take (test : Char → Bool) (text : List Char) (size : Nat) :
    count test (text.take size) = min size (count test text) := by
  induction text generalizing size with
  | nil => simp [count]
  | cons c text ih =>
      cases size with
      | zero => simp [count]
      | succ size =>
          have hrest := ih size
          simp only [count] at hrest ⊢
          by_cases hpass : test c = true
          · simp only [List.take_succ_cons, List.takeWhile_cons, hpass, if_true, List.length_cons,
              hrest]
            omega
          · simp [hpass]

theorem settled_count (test : Char → Bool) : Settled (count test) := by
  intro text size hsize
  rw [count_take, Nat.min_eq_right hsize]

/-- One length behind another one. -/
theorem Settled.then {length more : List Char → Nat} (hlength : Settled length)
    (hmore : Settled more) : Settled fun text => length text + more (text.drop (length text)) := by
  intro text size hsize
  have hle : length text + more (text.drop (length text)) ≤ size := hsize
  have hfirst : length (text.take size) = length text := hlength text size (by omega)
  simp only [hfirst, List.drop_take]
  rw [hmore _ _ (by omega)]

theorem head?_take (hsize : 0 < size) : (rest.take size).head? = rest.head? := by
  rw [List.head?_take, if_neg (by omega)]

theorem settled_fractionLength : Settled fractionLength := by
  intro text size hsize
  by_cases hdigit : ∃ digit rest, text = '.' :: digit :: rest ∧ digit.isDigit = true
  · obtain ⟨digit, rest, rfl, hdigit⟩ := hdigit
    simp only [fractionLength, hdigit, if_true] at hsize ⊢
    obtain ⟨size, rfl⟩ := Nat.exists_eq_add_of_le (Nat.le_of_add_right_le hsize)
    have hrest := settled_count Char.isDigit rest size (by omega)
    rw [Nat.add_comm 2]
    simp [hdigit, hrest]
  · have hzero : ∀ text' : List Char, text' <+: text → fractionLength text' = 0 := by
      rintro text' ⟨behind, rfl⟩
      unfold fractionLength
      split
      · next digit rest =>
          rw [if_neg]
          exact fun hpass => hdigit ⟨digit, rest ++ behind, rfl, hpass⟩
      · rfl
    rw [hzero _ (List.take_prefix size text), hzero text List.prefix_rfl]

theorem settled_signLength : Settled signLength := by
  intro text size hsize
  cases size with
  | zero => simpa [signLength] using hsize
  | succ size => simp [signLength, head?_take]

/-- The digits of an exponent that are left when the text behind its mark is cut off. -/
theorem count_exponent_take (rest : List Char) (size : Nat) :
    count Char.isDigit ((rest.take size).drop (signLength (rest.take size))) =
      min (size - signLength rest) (count Char.isDigit (rest.drop (signLength rest))) := by
  cases size with
  | zero => simp [count]
  | succ size =>
      have hsign : signLength (rest.take (size + 1)) = signLength rest := by
        simp [signLength, head?_take]
      rw [hsign, List.drop_take, count_take]

theorem settled_exponentLength : Settled exponentLength := by
  intro text size hsize
  cases text with
  | nil => simp
  | cons mark rest =>
      cases size with
      | zero =>
          rw [Nat.le_zero.mp hsize]
          rfl
      | succ size =>
          rw [exponentLength_cons] at hsize
          rw [List.take_succ_cons, exponentLength_cons, exponentLength_cons, count_exponent_take]
          by_cases hmark : (mark == 'e' || mark == 'E') = true
          · by_cases hnone : count Char.isDigit (rest.drop (signLength rest)) = 0
            · simp [hnone]
            · rw [if_pos hmark, if_neg hnone] at hsize
              have hsign := settled_signLength rest size (by omega)
              rw [hsign, Nat.min_eq_right (by omega)]
          · rw [if_neg hmark, if_neg hmark]

/-- Behind its mark a number goes on with the digits of its radix. -/
theorem exists_numberLength_of_mem_marks {mark : Char} (hmark : mark ∈ marks) :
    ∃ test, ∀ rest, numberLength ('0' :: mark :: rest) =
      (count test rest != 0, 2 + count test rest) := by
  simp only [marks, List.mem_cons, List.not_mem_nil, or_false] at hmark
  rcases hmark with rfl | rfl | rfl | rfl <;> exact ⟨_, fun _ => rfl⟩

theorem numberLength_take (hsize : (numberLength text).2 ≤ size) :
    numberLength (text.take size) = numberLength text := by
  by_cases hmarked : IsMarked text
  · obtain ⟨mark, hmark, rest, rfl⟩ := hmarked
    obtain ⟨test, htest⟩ := exists_numberLength_of_mem_marks hmark
    rw [htest] at hsize ⊢
    obtain ⟨size, rfl⟩ := Nat.exists_eq_add_of_le' (Nat.le_of_add_right_le hsize)
    change numberLength ('0' :: mark :: rest.take size) = _
    have hrest := settled_count test rest size
    rw [htest, hrest (by omega)]
  · have hdecimal :=
      ((settled_count Char.isDigit).then settled_fractionLength).then settled_exponentLength
    have hcut : ¬ IsMarked (text.take size) := by
      rintro ⟨mark, hmark, rest, htext⟩
      refine hmarked ⟨mark, hmark, rest ++ text.drop size, ?_⟩
      calc text = text.take size ++ text.drop size := (List.take_append_drop size text).symm
        _ = '0' :: mark :: (rest ++ text.drop size) := by rw [htext]; rfl
    rw [numberLength_of_not_isMarked hmarked] at hsize ⊢
    rw [numberLength_of_not_isMarked hcut]
    exact congrArg (Prod.mk true) (hdecimal text size hsize)

theorem scanNumber_take (hsize : (scanNumber text).2 ≤ size) :
    scanNumber (text.take size) = scanNumber text := by
  simp only [scanNumber] at hsize ⊢
  rw [numberLength_take (by omega), List.drop_take, settled_count _ _ _ (by omega)]

/-- A number has a digit. -/
theorem scanNumber_pos (hdigit : (text.head?.map Char.isDigit).getD false = true) :
    0 < (scanNumber text).2 := by
  by_cases hmarked : IsMarked text
  · obtain ⟨mark, hmark, rest, rfl⟩ := hmarked
    obtain ⟨test, htest⟩ := exists_numberLength_of_mem_marks hmark
    simp only [scanNumber, htest]
    omega
  · have hcount : 0 < count Char.isDigit text := by
      cases text with
      | nil => simp at hdigit
      | cons c rest => simp_all [count]
    simp only [scanNumber, numberLength_of_not_isMarked hmarked]
    omega

theorem scanString_take (valid : Bool) (text : List Char) :
    scanString valid (text.take (scanString valid text).2) = scanString valid text := by
  fun_induction scanString valid text with
  | case1 => rfl
  | case2 => rfl
  | case3 valid c rest hline good length hscan ih =>
      rw [hscan] at ih
      rw [List.take_succ_cons, List.take_succ_cons, scanString_escape valid hline, ih]
  | case4 => rfl
  | case5 => rfl
  | case6 valid c rest hpattern hline hquote good length hscan ih =>
      rw [hscan] at ih
      rw [List.take_succ_cons, scanString, if_neg hline, if_neg hquote, ih]
      intro next others hbackslash htake
      cases rest with
      | nil => simp at htake
      | cons other rest => exact hpattern other rest hbackslash rfl

end Cutting

/-- What is found by itself where the text is cut off behind the lexeme. -/
def Scan.alone (found : Scan) : Scan := ⟨found.kind.alone, found.more, 0⟩

/-- A lexeme that starts with the character reaches as far, and is of the same kind, where nothing
follows it. -/
def StandsAlone (first : Char) (rest : List Char) : Prop :=
  scan first (rest.take (scan first rest).more) = (scan first rest).alone

theorem alone_of_not_isWordKind {kind : TokenKind} (hkind : ¬ IsWordKind kind) :
    kind.alone = kind := by
  unfold TokenKind.alone
  split
  · exact absurd (.inr rfl) hkind
  · rfl

theorem standsAlone_comment (rest : List Char) : StandsAlone '#' rest := by
  have hcount := settled_count (· != '\n') rest _ (Nat.le_refl _)
  change (⟨.comment, count (· != '\n') (rest.take (count (· != '\n') rest)), 0⟩ : Scan) = _
  rw [hcount]
  rfl

theorem scan_at (rest : List Char) : scan '@' rest =
    if (rest.head?.map Char.isDigit).getD false then
      ⟨if (scanNumber rest).1 = .number then .position else .invalid, (scanNumber rest).2, 0⟩
    else ⟨.invalid, 0, 0⟩ := rfl

theorem standsAlone_position (rest : List Char) : StandsAlone '@' rest := by
  unfold StandsAlone
  rw [scan_at rest]
  by_cases hdigit : (rest.head?.map Char.isDigit).getD false = true
  · have hnumber := scanNumber_take (Nat.le_refl (scanNumber rest).2)
    rw [if_pos hdigit, scan_at, head?_take (scanNumber_pos hdigit), if_pos hdigit, hnumber]
    by_cases hkind : (scanNumber rest).1 = .number
    · rw [if_pos hkind]
      rfl
    · rw [if_neg hkind]
      rfl
  · rw [if_neg hdigit]
    rfl

theorem scan_digit (rest : List Char) (hdigit : first.isDigit = true) :
    scan first rest = ⟨(scanNumber (first :: rest)).1, (scanNumber (first :: rest)).2 - 1, 0⟩ := by
  have hcomment : first ≠ '#' := by
    rintro rfl
    cases hdigit
  have hposition : first ≠ '@' := by
    rintro rfl
    cases hdigit
  rw [scan, if_neg hcomment, if_neg hposition, if_pos hdigit]

theorem standsAlone_digit (rest : List Char) (hdigit : first.isDigit = true) :
    StandsAlone first rest := by
  have hpos : 0 < (scanNumber (first :: rest)).2 := scanNumber_pos hdigit
  have hnumber := scanNumber_take (Nat.le_refl (scanNumber (first :: rest)).2)
  obtain ⟨length, hlength⟩ := Nat.exists_eq_add_of_le' hpos
  rw [hlength, List.take_succ_cons] at hnumber
  unfold StandsAlone
  rw [scan_digit rest hdigit, scan_digit _ hdigit, hlength, Nat.add_sub_cancel, hnumber, hlength,
    Scan.alone, alone_of_not_isWordKind (not_isWordKind_scanNumber _)]
  rfl

/-- A word that follows a mark still follows it where its own characters are kept. -/
theorem wordFollows_take (hword : wordFollows rest = true) :
    wordFollows (rest.take (count isWordChar rest)) = true := by
  have hpos : 0 < count isWordChar rest := by
    cases rest with
    | nil => cases hword
    | cons c rest => simp [count, isWordChar_of_isWordStart hword]
  rw [wordFollows, head?_take hpos]
  exact hword

theorem scan_dot (rest : List Char) : scan '.' rest =
    if rest.take 2 = ['.', '.'] then ⟨.ellipsis, 2, 0⟩
    else if wordFollows rest then ⟨.directive, count isWordChar rest, 0⟩
    else ⟨.invalid, 0, 0⟩ := by
  have hstart : isWordStart '.' = false := by decide
  by_cases hdots : rest.take 2 = ['.', '.']
  · simp [scan, hdots]
  · simp [scan, hdots, hstart, markKind?]

theorem standsAlone_dot (rest : List Char) : StandsAlone '.' rest := by
  unfold StandsAlone
  rw [scan_dot rest]
  by_cases hdots : rest.take 2 = ['.', '.']
  · rw [if_pos hdots, hdots]
    rfl
  · by_cases hword : wordFollows rest = true
    · have hcut := wordFollows_take hword
      have hsame := settled_count isWordChar rest _ (Nat.le_refl _)
      rw [if_neg hdots, if_pos hword, scan_dot, hcut, hsame, if_neg]
      · rfl
      · intro hagain
        have hprefix : ['.', '.'] <+: rest :=
          hagain ▸ (List.take_prefix 2 _).trans (List.take_prefix _ rest)
        obtain ⟨others, rfl⟩ := hprefix
        exact hdots rfl
    · rw [if_neg hdots, if_neg hword]
      rfl

theorem scan_colon (rest : List Char) : scan ':' rest =
    if wordFollows rest then ⟨.type, count isWordChar rest, 0⟩ else ⟨.invalid, 0, 0⟩ := rfl

theorem standsAlone_colon (rest : List Char) : StandsAlone ':' rest := by
  unfold StandsAlone
  rw [scan_colon rest]
  by_cases hword : wordFollows rest = true
  · have hsame := settled_count isWordChar rest _ (Nat.le_refl _)
    rw [if_pos hword, scan_colon, if_pos (wordFollows_take hword), hsame]
    rfl
  · rw [if_neg hword]
    rfl

theorem standsAlone_word (rest : List Char) (hstart : isWordStart first = true) :
    StandsAlone first rest := by
  have hmore : (scan first rest).more = count isWordChar rest := by
    rw [scan_word rest hstart]
    split <;> rfl
  have hkind : (scan first rest).kind.alone = .word := by
    rw [scan_word rest hstart]
    split <;> rfl
  have hsame := settled_count isWordChar rest _ (Nat.le_refl _)
  have hnone : (rest.take (count isWordChar rest)).drop (count isWordChar rest) = [] := by simp
  unfold StandsAlone
  rw [Scan.alone, hkind, hmore, scan_word _ hstart, hsame, hnone]
  rfl

theorem standsAlone_string (rest : List Char) : StandsAlone '"' rest := by
  have hscan := scanString_take true rest
  unfold StandsAlone
  rw [scan_quote rest, scan_quote, hscan]
  by_cases hgood : (scanString true rest).1 = true
  · rw [if_pos hgood]
    rfl
  · rw [if_neg hgood]
    rfl

theorem scan_minus (rest : List Char) : scan '-' rest =
    if rest.head? = some '>' then ⟨.arrow, 1, 0⟩ else ⟨.minus, 0, 0⟩ := by
  have hstart : isWordStart '-' = false := by decide
  by_cases harrow : rest.head? = some '>'
  · simp [scan, hstart, harrow]
  · simp [scan, hstart, harrow, markKind?]

theorem standsAlone_minus (rest : List Char) : StandsAlone '-' rest := by
  unfold StandsAlone
  rw [scan_minus rest]
  by_cases harrow : rest.head? = some '>'
  · rw [if_pos harrow, scan_minus, head?_take Nat.zero_lt_one, if_pos harrow]
    rfl
  · rw [if_neg harrow]
    rfl

/-- Every lexeme stands alone. -/
theorem standsAlone (first : Char) (rest : List Char) : StandsAlone first rest := by
  by_cases hcomment : first = '#'
  · exact hcomment ▸ standsAlone_comment rest
  by_cases hposition : first = '@'
  · exact hposition ▸ standsAlone_position rest
  by_cases hdigit : first.isDigit = true
  · exact standsAlone_digit rest hdigit
  by_cases hdot : first = '.'
  · exact hdot ▸ standsAlone_dot rest
  by_cases hcolon : first = ':'
  · exact hcolon ▸ standsAlone_colon rest
  by_cases hstart : isWordStart first = true
  · exact standsAlone_word rest hstart
  by_cases hquote : first = '"'
  · exact hquote ▸ standsAlone_string rest
  by_cases hminus : first = '-'
  · exact hminus ▸ standsAlone_minus rest
  -- everything else is one character, whatever follows
  have hscan : ∀ rest, scan first rest = ⟨(markKind? first).getD .invalid, 0, 0⟩ := by
    intro rest
    simp [scan, *]
  unfold StandsAlone
  rw [hscan rest, hscan, Scan.alone, alone_of_not_isWordKind (not_isWordKind_markKind? first)]

/-- What a lexeme is spelled with is all that it takes. -/
theorem lex_of_scan {kind : TokenKind} {more : List Char}
    (hscan : scan first more = ⟨kind, more.length, 0⟩) (hskip : first ∈ blanks → first = '\\') :
    lex (first :: more) = [⟨kind, 0, more.length + 1⟩] := by
  by_cases hblank : first ∈ blanks
  · have hbackslash := hskip hblank
    subst hbackslash
    obtain rfl : more = [] := List.length_eq_zero_iff.mp (congrArg Scan.more hscan).symm
    cases hscan
    decide +kernel
  · have hend : more.drop (more.length + 0) = [] := List.drop_length
    rw [lex, lexFrom_cons 0 more hblank, hscan, hend, lexFrom_nil]

/-- A lexeme of a text is scanned whole from its own text. -/
theorem exists_scan_chars {lexeme : Lexeme} (hmem : lexeme ∈ lex text) :
    ∃ first more, lexeme.chars text = first :: more ∧
      scan first more = ⟨lexeme.kind.alone, more.length, 0⟩ ∧ (first ∈ blanks → first = '\\') := by
  obtain ⟨first, rest, hdrop, hkind, hlength, hskip⟩ := exists_scan_of_mem_lexFrom rfl lexeme hmem
  obtain ⟨kind, more, colon, behind, hscans⟩ := exists_scans first rest
  have halone := standsAlone first rest
  have hchars : lexeme.chars text = first :: more := by
    rw [Lexeme.chars, hdrop, hlength, hscans.scan_eq, hscans.rest_eq, List.take_succ_cons,
      List.take_left]
  rw [StandsAlone, hscans.scan_eq, hscans.rest_eq, List.take_left] at halone
  rw [hkind, hscans.scan_eq]
  exact ⟨first, more, hchars, halone, hskip⟩

/-- The text of a lexeme is one lexeme, of the same kind unless it was a label, and a word is a
label where a colon ends the text. -/
theorem lex_chars (text : List Char) : ∀ lexeme ∈ lex text,
    lex (lexeme.chars text) = [⟨lexeme.kind.alone, 0, (lexeme.chars text).length⟩] ∧
      (lexeme.kind = .word ∨ lexeme.kind = .label →
        lex (lexeme.chars text ++ [':']) = [⟨.label, 0, (lexeme.chars text).length⟩]) := by
  intro lexeme hmem
  refine ⟨?_, fun hkind => lex_label (isWord_of_mem_lex hmem hkind)⟩
  obtain ⟨first, more, hchars, hscan, hskip⟩ := exists_scan_chars hmem
  rw [hchars]
  exact lex_of_scan hscan hskip

/-- A label in front of a line is a word by itself, and a label again with a colon. -/
theorem lex_chars_label :
    (⟨.label, 1, 4⟩ : Lexeme) ∈ lex [' ', 'm', 'a', 'i', 'n', ':', '\n'] ∧
      lex ['m', 'a', 'i', 'n'] = [⟨.word, 0, 4⟩] ∧
      lex ['m', 'a', 'i', 'n', ':'] = [⟨.label, 0, 4⟩] := by
  have hmem : (⟨.label, 1, 4⟩ : Lexeme) ∈ lex [' ', 'm', 'a', 'i', 'n', ':', '\n'] := by
    have hlex : lex [' ', 'm', 'a', 'i', 'n', ':', '\n'] = [⟨.label, 1, 4⟩, ⟨.lineEnd, 6, 1⟩] := by
      decide +kernel
    rw [hlex]
    exact List.mem_cons_self
  obtain ⟨hword, hlabel⟩ := lex_chars _ _ hmem
  exact ⟨hmem, hword, hlabel (.inr rfl)⟩

end Lexer

end VectorStack
