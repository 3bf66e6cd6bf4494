import VectorStack.Proofs.Token.Bytewise
/-!
Texts as their lexemes and what stands between them. The main statement is that a text is made of
stretches, each of them a lexeme with the separators before it, and that the lexer finds the same
ones in characters and in bytes.
-/

namespace VectorStack

namespace Lexer

/-- What may stand between lexemes: blanks, and line ends behind a backslash. -/
def separators : List (List Char) := [[' '], ['\t'], ['\r'], ['\\', '\n'], ['\\', '\r', '\n']]

/-- Separators, one after the other. -/
inductive Gap : List Char → Prop
  | nil : Gap []
  | cons {separator rest : List Char} (hmem : separator ∈ separators) (hrest : Gap rest) :
    Gap (separator ++ rest)

section Blanks

variable {text separator : List Char}

theorem isAscii_of_mem_separators (hmem : separator ∈ separators) :
    ∀ c ∈ separator, isAscii c = true := by
  have hall : separators.all (·.all isAscii) = true := rfl
  exact List.all_eq_true.mp (List.all_eq_true.mp hall separator hmem)

theorem Gap.isAscii {gap : List Char} (hgap : Gap gap) : ∀ c ∈ gap, isAscii c = true := by
  induction hgap with
  | nil => nofun
  | cons hmem _ ih => exact List.forall_mem_append.mpr ⟨isAscii_of_mem_separators hmem, ih⟩

theorem skipBlanks_append (place : Nat) (hmem : separator ∈ separators) (rest : List Char) :
    skipBlanks place (separator ++ rest) = skipBlanks (place + separator.length) rest := by
  simp only [separators, List.mem_cons, List.not_mem_nil, or_false] at hmem
  rcases hmem with rfl | rfl | rfl | rfl | rfl <;> rfl

/-- Nothing is skipped of a text that starts with no separator. -/
theorem skipBlanks_eq (place : Nat) (hnone : ∀ separator ∈ separators, ¬ separator <+: text) :
    skipBlanks place text = (place, text) := by
  rw [skipBlanks]
  · rintro rest rfl
    exact hnone [' '] (by simp [separators]) (List.prefix_append [' '] rest)
  · rintro rest rfl
    exact hnone ['\t'] (by simp [separators]) (List.prefix_append ['\t'] rest)
  · rintro rest rfl
    exact hnone ['\r'] (by simp [separators]) (List.prefix_append ['\r'] rest)
  · rintro rest rfl
    exact hnone ['\\', '\n'] (by simp [separators]) (List.prefix_append ['\\', '\n'] rest)
  · rintro rest rfl
    exact hnone ['\\', '\r', '\n'] (by simp [separators])
      (List.prefix_append ['\\', '\r', '\n'] rest)

/-- What is skipped at the front of a text is skipped in its bytes. -/
theorem exists_gap (place other : Nat) (text : List Char) :
    ∃ gap rest, Gap gap ∧ text = gap ++ rest ∧
      skipBlanks place text = (place + gap.length, rest) ∧
      skipBlanks other (codes text) = (other + width gap, codes rest) := by
  induction hsize : text.length using Nat.strong_induction_on generalizing place other text with
  | h size ih =>
      by_cases hsome : ∃ separator ∈ separators, separator <+: text
      · obtain ⟨separator, hmem, rest, rfl⟩ := hsome
        have hascii := isAscii_of_mem_separators hmem
        have hpos : 0 < separator.length := by
          have hall : separators.all (0 < ·.length) = true := rfl
          exact of_decide_eq_true (List.all_eq_true.mp hall separator hmem)
        rw [List.length_append] at hsize
        obtain ⟨gap, behind, hgap, rfl, hskip, hskipBytes⟩ := ih rest.length (by omega)
          (place + separator.length) (other + separator.length) rest rfl
        refine ⟨separator ++ gap, behind, .cons hmem hgap, (List.append_assoc _ _ _).symm, ?_, ?_⟩
        · rw [skipBlanks_append place hmem, hskip, List.length_append, Nat.add_assoc]
        · rw [codes_append, codes_eq_self hascii, skipBlanks_append other hmem, hskipBytes,
            width_append, width_eq_length hascii, Nat.add_assoc]
      · have hnone : ∀ separator ∈ separators, ¬ separator <+: text :=
          fun separator hmem hprefix => hsome ⟨separator, hmem, hprefix⟩
        refine ⟨[], text, .nil, rfl, skipBlanks_eq place hnone, skipBlanks_eq other ?_⟩
        rintro separator hmem ⟨bytes, hbytes⟩
        have halike := alike_codes text
        rw [← hbytes] at halike
        obtain ⟨rest, rfl, -⟩ :=
          halike.symm.exists_append separator (isAscii_of_mem_separators hmem)
        exact hnone separator hmem (List.prefix_append separator rest)

end Blanks

section Lexemes

/-- What is scanned at the front of a text as a lexeme, and behind it the colon of a label: it is
the same for characters and for bytes, and the end of a line is a lexeme of its own. -/
structure Scans (first : Char) (rest : List Char) (kind : TokenKind)
    (more colon behind : List Char) : Prop where
  rest_eq : rest = more ++ (colon ++ behind)
  scan_eq : scan first rest = ⟨kind, more.length, colon.length⟩
  scanByte_eq : ∃ lead tail bytes, codes (first :: rest) = lead :: tail ∧
    width (first :: more) = bytes + 1 ∧ scanByte lead tail = ⟨kind, bytes, colon.length⟩
  newline : '\n' ∈ first :: more → kind = .lineEnd ∧ first :: more = ['\n']
  colon_eq : colon = [] ∨ colon = [':'] ∧ kind = .label

variable {first : Char} {rest : List Char}

namespace Scans

variable {kind : TokenKind} {more colon behind : List Char}

theorem drop_eq (hscans : Scans first rest kind more colon behind) :
    rest.drop (more.length + colon.length) = behind := by
  rw [hscans.rest_eq, ← List.append_assoc, ← List.length_append, List.drop_left]

theorem isAscii_colon (hscans : Scans first rest kind more colon behind) :
    ∀ c ∈ colon, isAscii c = true := by
  rcases hscans.colon_eq with rfl | ⟨rfl, -⟩
  · nofun
  · exact List.forall_mem_singleton.mpr (by decide)

theorem width_colon (hscans : Scans first rest kind more colon behind) :
    width colon = colon.length := width_eq_length hscans.isAscii_colon

/-- The scan of the bytes takes the bytes of the lexeme. -/
theorem bytes (hscans : Scans first rest kind more colon behind) :
    ∃ lead tail bytes, codes (first :: rest) = lead :: tail ∧ width (first :: more) = bytes + 1 ∧
      scanByte lead tail = ⟨kind, bytes, colon.length⟩ ∧
      tail.drop (bytes + colon.length) = codes behind := by
  obtain ⟨lead, tail, bytes, hcodes, hwidth, hscanByte⟩ := hscans.scanByte_eq
  refine ⟨lead, tail, bytes, hcodes, hwidth, hscanByte, ?_⟩
  have hsplit : lead :: tail = codes (first :: more ++ colon) ++ codes behind := by
    rw [← hcodes, hscans.rest_eq, ← codes_append]
    simp
  have hlength : (codes (first :: more ++ colon)).length = bytes + colon.length + 1 := by
    rw [length_codes, width_append, hwidth, hscans.width_colon]
    omega
  have hdrop : (codes (first :: more ++ colon) ++ codes behind).drop
      (codes (first :: more ++ colon)).length = codes behind := List.drop_left
  rw [← hsplit, hlength, List.drop_succ_cons] at hdrop
  exact hdrop

end Scans

theorem scans_of_not_isAscii (hforeign : isAscii first = false) (rest : List Char) :
    Scans first rest .invalid [] [] rest := by
  obtain ⟨lead, tail, hcodes, hlead, -, hwidth, hlength⟩ := exists_codes_cons hforeign
  refine ⟨rfl, scan_of_not_isAscii hforeign rest, ⟨lead, _, tail.length, hcodes rest, hwidth, ?_⟩,
    ?_, .inl rfl⟩
  · rw [scanByte, hlead, hlength, hwidth]
    rfl
  · intro hmem
    cases List.mem_singleton.mp hmem
    cases hforeign

/-- A lexeme that starts with an ASCII character, from what both scans say. -/
theorem scans_of_isAscii {kind : TokenKind} {more colon behind : List Char}
    (hascii : isAscii first = true) (hrest : rest = more ++ (colon ++ behind))
    (hscan : scan first rest = ⟨kind, more.length, colon.length⟩)
    (hscanByte : scan first (codes rest) = ⟨kind, width more, colon.length⟩)
    (hnewline : '\n' ∈ first :: more → kind = .lineEnd ∧ first :: more = ['\n'])
    (hcolon : colon = [] ∨ colon = [':'] ∧ kind = .label) :
    Scans first rest kind more colon behind := by
  refine ⟨hrest, hscan, ⟨first, codes rest, width more, codes_cons_of_isAscii hascii rest,
    width_cons_of_isAscii hascii more, ?_⟩, hnewline, hcolon⟩
  rw [scanByte, if_pos hascii, hscanByte]

theorem scans_comment (rest : List Char) :
    Scans '#' rest .comment (rest.takeWhile (· != '\n')) [] (rest.dropWhile (· != '\n')) := by
  refine scans_of_isAscii (by decide) List.takeWhile_append_dropWhile.symm rfl ?_ ?_ (.inl rfl)
  · change (⟨.comment, count (· != '\n') (codes rest), 0⟩ : Scan) = _
    rw [count, takeWhile_codes, length_codes]
    rfl
  · intro hmem
    rcases List.mem_cons.mp hmem with heq | hmem
    · cases heq
    · have hpass := List.all_eq_true.mp (List.all_takeWhile (p := (· != '\n'))) '\n' hmem
      cases hpass

theorem exists_scans_string (rest : List Char) :
    ∃ kind more behind, Scans '"' rest kind more [] behind := by
  obtain ⟨hgood, front, behind, hrest, hlength, hwidth, hline⟩ := scansAlike_scanString true rest
  refine ⟨if (scanString true rest).1 then .string else .invalid, front, behind,
    scans_of_isAscii (by decide) hrest ?_ ?_ ?_ (.inl rfl)⟩
  · rw [scan_quote, hlength]
    rfl
  · rw [scan_quote, hgood, hwidth]
    rfl
  · intro hmem
    rcases List.mem_cons.mp hmem with heq | hmem
    · cases heq
    · exact absurd hmem hline

/-- Other lexemes reach as far as both texts are the same. -/
theorem exists_scans_shared (hascii : isAscii first = true) (hcomment : first ≠ '#')
    (hquote : first ≠ '"') :
    ∃ more colon behind, Scans first rest (scan first rest).kind more colon behind := by
  obtain ⟨hsame, ⟨more, a, b, hrest, -, hlength, hmore, -⟩, hcolon⟩ :=
    (alike_codes rest).scan hascii hcomment hquote
  have hwidth : width more = more.length := width_eq_length fun c hmem => (hmore c hmem).1
  have hnewline : '\n' ∈ first :: more →
      (scan first rest).kind = .lineEnd ∧ first :: more = ['\n'] := by
    intro hmem
    rcases List.mem_cons.mp hmem with heq | hmem
    · subst heq
      cases List.length_eq_zero_iff.mp hlength
      exact ⟨rfl, rfl⟩
    · exact absurd rfl (hmore _ hmem).2
  rcases hcolon with hskipped | ⟨hskipped, hkind, behind, hdrop⟩
  · refine ⟨more, [], a, scans_of_isAscii hascii hrest ?_ ?_ hnewline (.inl rfl)⟩
    · rw [hlength, List.length_nil, ← hskipped]
    · rw [← hsame, hwidth, hlength, List.length_nil, ← hskipped]
  · have ha : a = ':' :: behind := by
      rw [← hlength, hrest, List.drop_left] at hdrop
      exact hdrop
    refine ⟨more, [':'], behind, scans_of_isAscii hascii (by rw [hrest, ha]; rfl) ?_ ?_ hnewline
      (.inr ⟨rfl, hkind⟩)⟩
    · rw [hlength, List.length_singleton, ← hskipped]
    · rw [← hsame, hwidth, hlength, List.length_singleton, ← hskipped]

/-- Every lexeme is scanned alike in a text and in its bytes. -/
theorem exists_scans (first : Char) (rest : List Char) :
    ∃ kind more colon behind, Scans first rest kind more colon behind := by
  cases hascii : isAscii first with
  | false => exact ⟨_, _, _, _, scans_of_not_isAscii hascii rest⟩
  | true =>
      by_cases hcomment : first = '#'
      · subst hcomment
        exact ⟨_, _, _, _, scans_comment rest⟩
      · by_cases hquote : first = '"'
        · subst hquote
          obtain ⟨kind, more, behind, hscans⟩ := exists_scans_string rest
          exact ⟨kind, more, [], behind, hscans⟩
        · exact ⟨_, exists_scans_shared hascii hcomment hquote⟩

theorem lexBytesFrom_eq (place : Nat) (bytes : List Char) :
    lexBytesFrom place bytes = match skipBlanks place bytes with
      | (_, []) => []
      | (start, first :: rest) =>
        ⟨(scanByte first rest).kind, start, (scanByte first rest).more + 1⟩ ::
          lexBytesFrom (start + 1 + (scanByte first rest).more + (scanByte first rest).skipped)
            (rest.drop ((scanByte first rest).more + (scanByte first rest).skipped)) := by
  rw [lexBytesFrom]
  split <;> simp only [*]

end Lexemes

/-- A lexeme with what is skipped before it, and with the colon behind it if it is a label. -/
structure Stretch where
  gap : List Char
  kind : TokenKind
  spelled : List Char
  colon : List Char
  isGap : Gap gap
  spelled_ne_nil : spelled ≠ []
  /-- The end of a line is a lexeme of its own. -/
  newline : '\n' ∈ spelled → kind = .lineEnd ∧ spelled = ['\n']
  colon_eq : colon = [] ∨ colon = [':'] ∧ kind = .label

namespace Stretch

/-- The part of a text that the stretch is. -/
def chars (stretch : Stretch) : List Char := stretch.gap ++ (stretch.spelled ++ stretch.colon)

/-- The lexemes of stretches that start at a given place, where places and lengths are counted by
`size`. -/
def lexemes (size : List Char → Nat) : Nat → List Stretch → List Lexeme
  | _, [] => []
  | place, stretch :: rest =>
    ⟨stretch.kind, place + size stretch.gap, size stretch.spelled⟩ ::
      lexemes size (place + size stretch.chars) rest

variable {text gap : List Char} {first : Char} {rest : List Char} {kind : TokenKind}
variable {more colon behind : List Char}

/-- The stretch of a lexeme that is scanned behind a gap. -/
def ofScans (hgap : Gap gap) (hscans : Scans first rest kind more colon behind) : Stretch :=
  ⟨gap, kind, first :: more, colon, hgap, List.cons_ne_nil first more, hscans.newline,
    hscans.colon_eq⟩

variable (hgap : Gap gap) (hscans : Scans first rest kind more colon behind) (place : Nat)

theorem chars_ofScans : (ofScans hgap hscans).chars ++ behind = gap ++ first :: rest := by
  simp [ofScans, chars, hscans.rest_eq]

/-- A step of the lexer takes a stretch off the text. -/
theorem lexFrom_eq_cons (hskip : skipBlanks place text = (place + gap.length, first :: rest)) :
    lexFrom place text = ⟨kind, place + gap.length, more.length + 1⟩ ::
      lexFrom (place + (ofScans hgap hscans).chars.length) behind := by
  have hlength : (ofScans hgap hscans).chars.length =
      gap.length + 1 + more.length + colon.length := by
    simp [ofScans, chars]
    omega
  rw [lexFrom_eq, hskip]
  dsimp only
  rw [hscans.scan_eq, hscans.drop_eq, hlength, ← Nat.add_assoc place, ← Nat.add_assoc place,
    ← Nat.add_assoc place]

/-- Byte by byte, a step of the lexer takes the bytes of the same stretch. -/
theorem lexBytesFrom_eq_cons {bytes : List Char}
    (hskip : skipBlanks place bytes = (place + width gap, codes (first :: rest))) :
    lexBytesFrom place bytes = ⟨kind, place + width gap, width (first :: more)⟩ ::
      lexBytesFrom (place + width (ofScans hgap hscans).chars) (codes behind) := by
  obtain ⟨lead, tail, length, hcodes, hwidth, hscanByte, hdrop⟩ := hscans.bytes
  have hsize : width (ofScans hgap hscans).chars = width gap + 1 + length + colon.length := by
    change width (gap ++ (first :: more ++ colon)) = _
    rw [width_append, width_append, hwidth, hscans.width_colon]
    omega
  rw [lexBytesFrom_eq, hskip, hcodes]
  dsimp only
  rw [hscanByte, hdrop, hsize, hwidth, ← Nat.add_assoc place, ← Nat.add_assoc place,
    ← Nat.add_assoc place]

end Stretch

/-- A text is made of stretches and of what is skipped at its end. The lexer finds them counting
characters, and byte by byte it finds the same ones counting bytes. -/
theorem exists_stretches (place other : Nat) (text : List Char) :
    ∃ stretches gap, Gap gap ∧ text = stretches.flatMap Stretch.chars ++ gap ∧
      lexFrom place text = Stretch.lexemes List.length place stretches ∧
      lexBytesFrom other (codes text) = Stretch.lexemes width other stretches := by
  induction hsize : text.length using Nat.strong_induction_on generalizing place other text with
  | h size ih =>
      obtain ⟨gap, rest, hgap, rfl, hskip, hskipBytes⟩ := exists_gap place other text
      cases rest with
      | nil =>
          refine ⟨[], gap, hgap, List.append_nil gap, ?_, ?_⟩
          · rw [lexFrom_eq, hskip]
            rfl
          · rw [lexBytesFrom_eq, hskipBytes]
            rfl
      | cons first rest =>
          obtain ⟨kind, more, colon, behind, hscans⟩ := exists_scans first rest
          let stretch := Stretch.ofScans hgap hscans
          have hshorter : behind.length < size := by
            rw [← hsize, hscans.rest_eq]
            simp
            omega
          obtain ⟨stretches, last, hlast, hbehind, hlex, hlexBytes⟩ := ih _ hshorter
            (place + stretch.chars.length) (other + width stretch.chars) behind rfl
          refine ⟨stretch :: stretches, last, hlast, ?_, ?_, ?_⟩
          · rw [List.flatMap_cons, List.append_assoc, ← hbehind]
            exact (Stretch.chars_ofScans hgap hscans).symm
          · rw [Stretch.lexFrom_eq_cons hgap hscans place hskip, hlex]
            rfl
          · rw [Stretch.lexBytesFrom_eq_cons hgap hscans other hskipBytes, hlexBytes]
            rfl

end Lexer

end VectorStack
