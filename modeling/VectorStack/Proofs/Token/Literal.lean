import VectorStack.Proofs.Token.Pieces
import VectorStack.Token.StringLiteral
/-!
String literals in a text. Whatever the text, a lexeme that is a string is one in quotes with proper
escapes inside: it stands for a text, and it is cut out of every other text in the same way.
-/

namespace VectorStack

namespace Lexer

/-- What stands behind an opening quote, up to and with the closing one: characters that stand for
themselves, and escapes. -/
inductive Quoted : List Char → Prop
  | close : Quoted ['"']
  | escaped {c : Char} {rest : List Char} (hescape : isEscape c = true) (hrest : Quoted rest) :
    Quoted ('\\' :: c :: rest)
  | plain {c : Char} {rest : List Char} (hbackslash : c ≠ '\\') (hline : c ≠ '\n')
    (hquote : c ≠ '"') (hrest : Quoted rest) : Quoted (c :: rest)

/-- What the scan of a string accepts is quoted. -/
theorem quoted_of_scanString {valid : Bool} {text : List Char}
    (hscan : (scanString valid text).1 = true) :
    valid = true ∧ Quoted (text.take (scanString valid text).2) := by
  fun_induction scanString valid text with
  | case1 | case2 | case4 => cases hscan
  | case3 valid c rest hline good length hrest ih =>
      rw [hrest] at ih
      obtain ⟨hvalid, hquoted⟩ := ih hscan
      rw [Bool.and_eq_true] at hvalid
      exact ⟨hvalid.1, .escaped hvalid.2 hquoted⟩
  | case5 valid rest => exact ⟨hscan, .close⟩
  | case6 valid c rest hpattern hline hquote good length hrest ih =>
      rw [hrest] at ih
      obtain ⟨hvalid, hquoted⟩ := ih hscan
      refine ⟨hvalid, .plain ?_ hline hquote hquoted⟩
      rintro rfl
      -- a backslash has a character behind it, or else nothing closes the string
      cases rest with
      | nil =>
          cases hrest
          cases hscan
      | cons c rest => exact hpattern c rest rfl rfl

/-- What is quoted is accepted whole, whatever follows it. -/
theorem Quoted.scanString_append {literal : List Char} (hquoted : Quoted literal)
    (rest : List Char) : scanString true (literal ++ rest) = (true, literal.length) := by
  induction hquoted with
  | close => rfl
  | @escaped c others hescape _ ih =>
      have hline : c ≠ '\n' := by
        rintro rfl
        cases hescape
      rw [List.cons_append, List.cons_append, scanString, if_neg hline, hescape, Bool.and_self, ih]
      rfl
  | @plain c others hbackslash hline hquote _ ih =>
      rw [List.cons_append, scanString, if_neg hline, if_neg hquote, ih]
      · rfl
      · exact fun _ _ hc => absurd hc hbackslash

theorem kind_scanNumber_ne (text : List Char) : (scanNumber text).1 ≠ .string := by
  rw [scanNumber]
  dsimp only
  split <;> decide

theorem markKind?_ne (c : Char) : (markKind? c).getD .invalid ≠ .string := by
  unfold markKind?
  split <;> decide

theorem scan_quote (rest : List Char) :
    scan '"' rest = ⟨if (scanString true rest).1 then .string else .invalid,
      (scanString true rest).2, 0⟩ := by
  have hstart : isWordStart '"' = false := by decide
  simp [scan, hstart]

/-- Only a quote starts a string. -/
theorem eq_of_kind_scan {first : Char} {rest : List Char}
    (hkind : (scan first rest).kind = .string) : first = '"' := by
  have hnumber := kind_scanNumber_ne (first :: rest)
  have hmark := markKind?_ne first
  by_contra hquote
  unfold scan at hkind
  rw [if_neg hquote] at hkind
  generalize scanNumber (first :: rest) = number at *
  repeat' split at hkind
  all_goals first
    | exact hmark hkind
    | exact hnumber hkind
    | contradiction
    | (dsimp only at hkind; split at hkind <;> cases hkind)

theorem quoted_of_kind_scan {first : Char} {rest : List Char}
    (hkind : (scan first rest).kind = .string) :
    first = '"' ∧ Quoted (rest.take (scan first rest).more) := by
  obtain rfl := eq_of_kind_scan hkind
  rw [scan_quote] at hkind ⊢
  have hscan : (scanString true rest).1 = true := by
    by_contra hbad
    rw [if_neg hbad] at hkind
    cases hkind
  exact ⟨rfl, (quoted_of_scanString hscan).2⟩

/-- Strings are quoted, whatever the text that they are in. -/
theorem quoted_of_mem_lex {text : List Char} {lexeme : Lexeme} (hmem : lexeme ∈ lex text)
    (hkind : lexeme.kind = .string) :
    ∃ literal, lexeme.chars text = '"' :: literal ∧ Quoted literal := by
  obtain ⟨first, rest, -, hscan, hchars⟩ := exists_scan_of_mem_lex hmem
  obtain ⟨rfl, hquoted⟩ := quoted_of_kind_scan (hscan.symm.trans hkind)
  exact ⟨_, hchars, hquoted⟩

/-- A string is a piece of a text by itself, whatever follows. -/
theorem Cuts.string {literal rest : List Char} {pieces : List (TokenKind × List Char)}
    (hquoted : Quoted literal) (hrest : Cuts rest pieces) :
    Cuts ('"' :: (literal ++ rest)) ((.string, '"' :: literal) :: pieces) := by
  refine .piece (by decide) ?_ hrest
  rw [scan_quote, hquoted.scanString_append]
  rfl

/-- A text that is quoted is one string. -/
theorem lex_quoted {literal : List Char} (hquoted : Quoted literal) :
    lex ('"' :: literal) = [⟨.string, 0, literal.length + 1⟩] := by
  have hscan : scan '"' literal = ⟨.string, literal.length, 0⟩ := by
    have happend := hquoted.scanString_append []
    rw [List.append_nil] at happend
    rw [scan_quote, happend]
    rfl
  have hend : literal.drop (literal.length + 0) = [] := List.drop_length
  rw [lex, lexFrom_cons 0 literal (by decide), hscan, hend, lexFrom_nil]

theorem quoted_replicate {c : Char} (hbackslash : c ≠ '\\') (hline : c ≠ '\n') (hquote : c ≠ '"')
    (count : Nat) : Quoted (List.replicate count c ++ ['"']) := by
  induction count with
  | zero => exact .close
  | succ count ih => exact .plain hbackslash hline hquote ih

end Lexer

namespace StringLiteral

theorem exists_unescapeChar? {c : Char} (hescape : Lexer.isEscape c = true) :
    ∃ meant, unescapeChar? c = some meant := by
  simp only [Lexer.isEscape, Bool.or_eq_true, beq_iff_eq] at hescape
  rcases hescape with ((((rfl | rfl) | rfl) | rfl) | rfl) | rfl <;> exact ⟨_, rfl⟩

/-- What is quoted stands for a text. -/
theorem exists_unescapeInner? {literal : List Char} (hquoted : Lexer.Quoted literal) :
    ∃ inner text, literal = inner ++ ['"'] ∧ unescapeInner? inner = some text := by
  induction hquoted with
  | close => exact ⟨[], [], rfl, rfl⟩
  | @escaped c rest hescape _ ih =>
      obtain ⟨inner, text, rfl, htext⟩ := ih
      obtain ⟨meant, hmeant⟩ := exists_unescapeChar? hescape
      refine ⟨'\\' :: c :: inner, meant :: text, rfl, ?_⟩
      rw [unescapeInner?, hmeant, htext]
  | @plain c rest hbackslash hline hquote _ ih =>
      obtain ⟨inner, text, rfl, htext⟩ := ih
      refine ⟨c :: inner, c :: text, rfl, ?_⟩
      rw [unescapeInner?, htext]
      · rfl
      · exact fun hc => absurd hc hbackslash
      · exact fun _ _ hc => absurd hc hbackslash

theorem exists_unescape? {literal : List Char} (hquoted : Lexer.Quoted literal) :
    ∃ text, unescape? ('"' :: literal) = some text := by
  obtain ⟨inner, text, rfl, htext⟩ := exists_unescapeInner? hquoted
  refine ⟨text, ?_⟩
  simp [unescape?, htext]

end StringLiteral

end VectorStack
