import VectorStack.Proofs.Token.NumberLexeme
/-!
How lexemes end. They end within their text, and none but a line end goes beyond its line. Carriage
returns are blanks, so that only a comment, a string or something malformed can hold one, and a
string ends with its quote.
-/

namespace VectorStack

namespace Number

theorem IsDigits.notMem_return {radix : Nat} {digits : List Char} (hdigits : IsDigits radix digits)
    (hradix : radix ≤ 16) : '\r' ∉ digits := by
  intro hmem
  have hlt := hdigits.digit_lt '\r' hmem
  have hnone : digitOf '\r' = 16 := by decide
  omega

/-- No number is spelled with a carriage return. -/
theorem Spells.notMem_return {text : List Char} {spelling : Spelling}
    (hspells : Spells text spelling) : '\r' ∉ text := by
  cases hspells with
  | decimal hdigits => exact hdigits.notMem_return (by decide)
  | hexadecimal hmark hdigits =>
      have hdigits := hdigits.notMem_return (by decide)
      rcases hmark with rfl | rfl <;> simp [hdigits]
  | binary hmark hdigits =>
      have hdigits := hdigits.notMem_return (by decide)
      rcases hmark with rfl | rfl <;> simp [hdigits]
  | @real digits fraction exponent hdigits hfraction hexponent hsome =>
      have hwhole := hdigits.notMem_return (by decide)
      have hpoint : '\r' ∉ fraction := by
        cases hfraction with
        | none => exact List.not_mem_nil
        | point hdigits => simp [hdigits.notMem_return (by decide)]
      have hmark : '\r' ∉ exponent := by
        cases hexponent with
        | none => exact List.not_mem_nil
        | mark hmark hsign hdigits =>
            have hdigits := hdigits.notMem_return (by decide)
            rcases hmark with rfl | rfl <;> rcases hsign with rfl | rfl | rfl <;> simp [hdigits]
      simp [hwhole, hpoint, hmark]

end Number

/-- Only a word may have been something else with what follows it. -/
theorem TokenKind.eq_of_alone_eq {kind other : TokenKind} (hne : other ≠ .word)
    (halone : kind.alone = other) : kind = other := by
  cases kind with
  | label => exact absurd halone.symm hne
  | _ => exact halone

namespace Lexer

variable {first : Char} {more : List Char} {kind : TokenKind}

/-- What is behind an opening quote ends with the closing one. -/
theorem Quoted.getLast? {literal : List Char} (hquoted : Quoted literal) :
    literal.getLast? = some '"' := by
  induction hquoted with
  | close => rfl
  | @escaped c rest _ hrest ih =>
      rw [List.getLast?_cons_cons, List.getLast?_cons, ih]
      rfl
  | @plain c rest _ _ _ hrest ih =>
      rw [List.getLast?_cons, ih]
      rfl

theorem getLast?_ne_of_notMem {c : Char} {text : List Char} (hnone : c ∉ text) :
    text.getLast? ≠ some c :=
  fun hlast => hnone (List.mem_of_getLast? hlast)

/-- What goes on with word characters does not go on with a carriage return. -/
theorem notMem_return_of_count (hfirst : first ≠ '\r')
    (hcount : count isWordChar more = more.length) : '\r' ∉ first :: more := by
  rw [List.mem_cons, not_or]
  refine ⟨hfirst.symm, fun hmem => ?_⟩
  exact absurd (Number.forall_of_count_eq hcount '\r' hmem) (by decide)

theorem notMem_return_position (hscan : scan '@' more = ⟨kind, more.length, 0⟩)
    (hinvalid : kind ≠ .invalid) : '\r' ∉ '@' :: more := by
  rw [scan_at] at hscan
  split at hscan
  · next hdigit =>
      obtain ⟨hkind, hlength, -⟩ := Scan.mk.inj hscan
      split at hkind
      · next hnumber =>
          obtain ⟨spelling, hspells⟩ :=
            Number.exists_spells_of_scanNumber hdigit (Prod.ext hnumber hlength)
          simp [hspells.notMem_return]
      · exact absurd hkind.symm hinvalid
  · exact absurd (congrArg Scan.kind hscan).symm hinvalid

theorem notMem_return_digit (hscan : scan first more = ⟨kind, more.length, 0⟩)
    (hdigit : first.isDigit = true) (hinvalid : kind ≠ .invalid) : '\r' ∉ first :: more := by
  have hpos : 0 < (scanNumber (first :: more)).2 := scanNumber_pos hdigit
  rw [scan_digit more hdigit] at hscan
  obtain ⟨hkind, hlength, -⟩ := Scan.mk.inj hscan
  have hnumber : (scanNumber (first :: more)).1 = .number := by
    by_contra hne
    refine hinvalid (hkind.symm.trans ?_)
    simp only [scanNumber] at hne ⊢
    split at hne
    · exact absurd rfl hne
    · next hbad => exact if_neg hbad
  have hwhole : (scanNumber (first :: more)).2 = (first :: more).length := by
    rw [List.length_cons, ← hlength, Nat.sub_add_cancel hpos]
  obtain ⟨spelling, hspells⟩ :=
    @Number.exists_spells_of_scanNumber (first :: more) hdigit (Prod.ext hnumber hwhole)
  exact hspells.notMem_return

theorem notMem_return_dot (hscan : scan '.' more = ⟨kind, more.length, 0⟩)
    (hinvalid : kind ≠ .invalid) : '\r' ∉ '.' :: more := by
  rw [scan_dot] at hscan
  split at hscan
  · next hdots =>
      have hlength := congrArg Scan.more hscan
      rw [List.take_of_length_le (Nat.le_of_eq hlength.symm)] at hdots
      rw [hdots]
      decide
  · split at hscan
    · exact notMem_return_of_count (by decide) (congrArg Scan.more hscan)
    · exact absurd (congrArg Scan.kind hscan).symm hinvalid

theorem notMem_return_colon (hscan : scan ':' more = ⟨kind, more.length, 0⟩)
    (hinvalid : kind ≠ .invalid) : '\r' ∉ ':' :: more := by
  rw [scan_colon] at hscan
  split at hscan
  · exact notMem_return_of_count (by decide) (congrArg Scan.more hscan)
  · exact absurd (congrArg Scan.kind hscan).symm hinvalid

theorem notMem_return_word (hscan : scan first more = ⟨kind, more.length, 0⟩)
    (hstart : isWordStart first = true) : '\r' ∉ first :: more := by
  have hcount : count isWordChar more = more.length := by
    rw [scan_word more hstart] at hscan
    split at hscan <;> exact congrArg Scan.more hscan
  refine notMem_return_of_count ?_ hcount
  rintro rfl
  cases hstart

theorem notMem_return_minus (hscan : scan '-' more = ⟨kind, more.length, 0⟩) :
    '\r' ∉ '-' :: more := by
  rw [scan_minus] at hscan
  split at hscan
  · next harrow =>
      obtain ⟨rest, rfl⟩ := List.head?_eq_some_iff.mp harrow
      have hlength := congrArg Scan.more hscan
      obtain rfl : rest = [] := List.length_eq_zero_iff.mp (Nat.succ.inj hlength).symm
      decide
  · obtain rfl : more = [] := List.length_eq_zero_iff.mp (congrArg Scan.more hscan).symm
    decide

/-- What is scanned whole has no carriage return, unless it is a string, a comment or malformed. -/
theorem notMem_return_of_scan (hscan : scan first more = ⟨kind, more.length, 0⟩)
    (hstring : first ≠ '"') (hcomment : kind ≠ .comment) (hinvalid : kind ≠ .invalid) :
    '\r' ∉ first :: more := by
  by_cases hsharp : first = '#'
  · subst hsharp
    exact absurd (congrArg Scan.kind hscan).symm hcomment
  by_cases hposition : first = '@'
  · subst hposition
    exact notMem_return_position hscan hinvalid
  by_cases hdigit : first.isDigit = true
  · exact notMem_return_digit hscan hdigit hinvalid
  by_cases hdot : first = '.'
  · subst hdot
    exact notMem_return_dot hscan hinvalid
  by_cases hcolon : first = ':'
  · subst hcolon
    exact notMem_return_colon hscan hinvalid
  by_cases hstart : isWordStart first = true
  · exact notMem_return_word hscan hstart
  by_cases hminus : first = '-'
  · subst hminus
    exact notMem_return_minus hscan
  -- everything else is one character, and a carriage return is none that stands for itself
  have hmark : scan first more = ⟨(markKind? first).getD .invalid, 0, 0⟩ := by
    simp [scan, *]
  rw [hmark] at hscan
  obtain rfl : more = [] := List.length_eq_zero_iff.mp (congrArg Scan.more hscan).symm
  rw [List.mem_singleton]
  rintro rfl
  exact hinvalid (congrArg Scan.kind hscan).symm

/-- A lexeme ends with no carriage return, unless it is a comment or malformed. -/
theorem getLast?_chars_ne_return {text : List Char} {lexeme : Lexeme} (hmem : lexeme ∈ lex text)
    (hcomment : lexeme.kind ≠ .comment) (hinvalid : lexeme.kind ≠ .invalid) :
    (lexeme.chars text).getLast? ≠ some '\r' := by
  by_cases hstring : lexeme.kind = .string
  · obtain ⟨literal, hchars, hquoted⟩ := quoted_of_mem_lex hmem hstring
    rw [hchars, List.getLast?_cons, hquoted.getLast?]
    decide
  · obtain ⟨first, more, hchars, hscan, -⟩ := exists_scan_chars hmem
    have hkind : lexeme.kind.alone ≠ .comment ∧ lexeme.kind.alone ≠ .invalid ∧
        lexeme.kind.alone ≠ .string :=
      ⟨mt (TokenKind.eq_of_alone_eq (by decide)) hcomment,
        mt (TokenKind.eq_of_alone_eq (by decide)) hinvalid,
        mt (TokenKind.eq_of_alone_eq (by decide)) hstring⟩
    rw [hchars]
    refine getLast?_ne_of_notMem (notMem_return_of_scan hscan ?_ hkind.1 hkind.2.1)
    rintro rfl
    rw [scan_quote] at hscan
    have hquoted := congrArg Scan.kind hscan
    split at hquoted
    · exact hkind.2.2 hquoted.symm
    · exact hkind.2.1 hquoted.symm

/-- A lexeme ends within its text. -/
theorem stop_le_of_mem_lex {text : List Char} {lexeme : Lexeme} (hmem : lexeme ∈ lex text) :
    lexeme.start + lexeme.length ≤ text.length := by
  obtain ⟨first, rest, hdrop, -, hlength, -⟩ := exists_scan_of_mem_lexFrom rfl lexeme hmem
  obtain ⟨kind, more, colon, behind, hscans⟩ := exists_scans first rest
  have hbehind := congrArg List.length hdrop
  rw [hscans.rest_eq] at hbehind
  rw [hscans.scan_eq] at hlength
  simp only [List.length_drop, List.length_cons, List.length_append] at hbehind hlength
  omega

/-- A lexeme that is no line end is on one line. -/
theorem newline_notMem_chars {text : List Char} {lexeme : Lexeme} (hmem : lexeme ∈ lex text)
    (hkind : lexeme.kind ≠ .lineEnd) : '\n' ∉ lexeme.chars text := by
  obtain ⟨first, rest, -, hscan, hchars⟩ := exists_scan_of_mem_lex hmem
  obtain ⟨kind, more, colon, behind, hscans⟩ := exists_scans first rest
  rw [hscans.scan_eq] at hscan hchars
  rw [hscans.rest_eq, List.take_left] at hchars
  rw [hchars]
  exact fun hline => hkind (hscan.trans (hscans.newline hline).1)

end Lexer

end VectorStack
