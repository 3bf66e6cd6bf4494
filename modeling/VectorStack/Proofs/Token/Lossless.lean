import VectorStack.Proofs.Token.Stretches
/-!
The lexemes of a text account for it: they lie in it in order and on boundaries of characters, and
only blanks, continued line ends and the colons of labels are outside of them.
-/

namespace VectorStack

namespace Lexeme

/-- The place behind a lexeme. -/
def stop (lexeme : Lexeme) : Nat := lexeme.start + lexeme.length

/-- The place is one of the lexeme. -/
def Covers (lexeme : Lexeme) (place : Nat) : Prop := lexeme.start ≤ place ∧ place < lexeme.stop

/-- A lexeme of a text with places that count bytes. -/
def inBytes (text : List Char) (lexeme : Lexeme) : Lexeme :=
  ⟨lexeme.kind, Lexer.width (text.take lexeme.start),
    Lexer.width ((text.drop lexeme.start).take lexeme.length)⟩

end Lexeme

namespace Lexer

/-- The place of a byte that starts a character of the text, or the end of the text. -/
def IsBoundary (text : List Char) (place : Nat) : Prop :=
  ∃ front behind, text = front ++ behind ∧ width front = place

/-- The place belongs to no lexeme. -/
def Outside (lexemes : List Lexeme) (place : Nat) : Prop :=
  ∀ lexeme ∈ lexemes, ¬ lexeme.Covers place

/-- A separator of the text has the place in it, and starts behind `front`. -/
structure HasSeparator (text front separator : List Char) (place : Nat) : Prop where
  mem : separator ∈ separators
  isPrefix : front ++ separator <+: text
  start_le : front.length ≤ place
  lt_stop : place < front.length + separator.length

/-- The byte at the place belongs to a separator, all of which is outside of the lexemes. -/
def IsSeparated (bytes : List Char) (lexemes : List Lexeme) (place : Nat) : Prop :=
  ∃ front separator, HasSeparator bytes front separator place ∧
    ∀ other, front.length ≤ other → other < front.length + separator.length → Outside lexemes other

/-- Lexemes with places of bytes account for a text. -/
structure Accounts (text : List Char) (lexemes : List Lexeme) : Prop where
  nonempty : ∀ lexeme ∈ lexemes, 0 < lexeme.length
  boundary : ∀ lexeme ∈ lexemes, IsBoundary text lexeme.start ∧ IsBoundary text lexeme.stop
  ordered : lexemes.Pairwise fun first second => first.stop ≤ second.start
  /-- Only separators and the colons of labels are left out. -/
  outside : ∀ place < width text, Outside lexemes place → IsSeparated (codes text) lexemes place ∨
    (codes text)[place]? = some ':' ∧ ∃ lexeme ∈ lexemes, lexeme.kind = .label ∧ lexeme.stop = place
  /-- The end of a line is a lexeme of its own. -/
  newline : ∀ lexeme ∈ lexemes, ∀ place, lexeme.Covers place → (codes text)[place]? = some '\n' →
    lexeme.kind = .lineEnd ∧ lexeme.length = 1

theorem width_pos {text : List Char} (htext : text ≠ []) : 0 < width text := by
  obtain ⟨c, rest, rfl⟩ := List.exists_cons_of_ne_nil htext
  cases hascii : isAscii c with
  | true => exact width_cons_of_isAscii hascii rest ▸ Nat.succ_pos _
  | false =>
      obtain ⟨lead, tail, -, -, -, hwidth, -⟩ := exists_codes_cons hascii
      rw [width_cons, hwidth]
      omega

/-- No byte of a longer character ends a line. -/
theorem newline_mem_of_mem_codes {text : List Char} (hmem : '\n' ∈ codes text) : '\n' ∈ text := by
  induction text with
  | nil => cases hmem
  | cons c rest ih =>
      cases hascii : isAscii c with
      | true =>
          rw [codes_cons_of_isAscii hascii] at hmem
          exact List.mem_cons.mpr ((List.mem_cons.mp hmem).imp_right ih)
      | false =>
          obtain ⟨lead, tail, hcodes, hlead, htail, -⟩ := exists_codes_cons hascii
          rw [hcodes] at hmem
          rcases List.mem_cons.mp hmem with heq | hmem
          · cases heq
            cases hlead
          · rcases List.mem_append.mp hmem with hmem | hmem
            · cases htail _ hmem
            · exact List.mem_cons_of_mem c (ih hmem)

/-- The bytes of a part of a text, from where the part starts. -/
theorem codes_getElem? (front part behind : List Char) {place : Nat}
    (hstart : width front ≤ place) (hstop : place < width front + width part) :
    (codes (front ++ (part ++ behind)))[place]? = (codes part)[place - width front]? := by
  rw [codes_append, codes_append, List.getElem?_append_right (by rw [length_codes]; exact hstart),
    length_codes, List.getElem?_append_left (by rw [length_codes]; omega)]

namespace Stretch

variable (place : Nat) {stretches : List Stretch}

/-- The bytes of a stretch are those of its three parts. -/
theorem width_chars (stretch : Stretch) :
    width stretch.chars = width stretch.gap + width stretch.spelled + width stretch.colon := by
  rw [chars, width_append, width_append, Nat.add_assoc]

theorem lexemes_append (front back : List Stretch) :
    lexemes width place (front ++ back) =
      lexemes width place front ++ lexemes width (place + width (front.flatMap chars)) back := by
  induction front generalizing place with
  | nil => rfl
  | cons stretch front ih =>
      rw [List.cons_append, lexemes, lexemes, ih, List.flatMap_cons, width_append, Nat.add_assoc]
      rfl

/-- A lexeme is what is spelled in a stretch. -/
theorem exists_of_mem {lexeme : Lexeme} (hmem : lexeme ∈ lexemes width place stretches) :
    ∃ front stretch back, stretches = front ++ stretch :: back ∧
      lexeme = ⟨stretch.kind, place + width (front.flatMap chars ++ stretch.gap),
        width stretch.spelled⟩ := by
  induction stretches generalizing place with
  | nil => cases hmem
  | cons stretch rest ih =>
      rcases List.mem_cons.mp hmem with rfl | hmem
      · exact ⟨[], stretch, rest, rfl, rfl⟩
      · obtain ⟨front, other, back, rfl, rfl⟩ := ih _ hmem
        refine ⟨stretch :: front, other, back, rfl, ?_⟩
        rw [List.flatMap_cons, List.append_assoc, width_append stretch.chars, Nat.add_assoc]

/-- Lexemes lie between the start and the end of their stretches. -/
theorem bounds_of_mem {lexeme : Lexeme} (hmem : lexeme ∈ lexemes width place stretches) :
    place ≤ lexeme.start ∧ lexeme.stop ≤ place + width (stretches.flatMap chars) := by
  obtain ⟨front, stretch, back, rfl, rfl⟩ := exists_of_mem place hmem
  simp only [Lexeme.stop, List.flatMap_append, List.flatMap_cons, width_append, width_chars]
  omega

theorem pairwise_lexemes :
    (lexemes width place stretches).Pairwise fun first second => first.stop ≤ second.start := by
  induction stretches generalizing place with
  | nil => exact .nil
  | cons stretch rest ih =>
      refine .cons (fun lexeme hmem => ?_) (ih _)
      have hstart := (bounds_of_mem _ hmem).1
      rw [width_chars] at hstart
      change place + width stretch.gap + width stretch.spelled ≤ lexeme.start
      omega

/-- What comes before a gap and what comes behind it leave the gap out. -/
theorem outside_of_mem_gap (front back : List Stretch) (gap : List Char) {other : Nat}
    (hstart : width (front.flatMap chars) ≤ other)
    (hstop : other < width (front.flatMap chars ++ gap))
    (hgap : ∀ lexeme ∈ lexemes width (width (front.flatMap chars)) back,
      width (front.flatMap chars ++ gap) ≤ lexeme.start) :
    Outside (lexemes width 0 (front ++ back)) other := by
  intro lexeme hmem hcovers
  obtain ⟨hfirst, hlast⟩ := hcovers
  rw [lexemes_append, Nat.zero_add] at hmem
  rcases List.mem_append.mp hmem with hmem | hmem
  · have hbefore := (bounds_of_mem _ hmem).2
    omega
  · have hbehind := hgap lexeme hmem
    omega

/-- The gap of a stretch comes before its lexeme and those of all later stretches. -/
theorem gap_le_start {stretch : Stretch} {back : List Stretch} {lexeme : Lexeme}
    (hmem : lexeme ∈ lexemes width place (stretch :: back)) :
    place + width stretch.gap ≤ lexeme.start := by
  rcases List.mem_cons.mp hmem with rfl | hmem
  · exact Nat.le_refl _
  · have hstart := (bounds_of_mem _ hmem).1
    rw [width_chars] at hstart
    omega

/-- A place of the bytes of stretches lies in one of them. -/
theorem exists_part (place : Nat) (stretches : List Stretch)
    (hplace : place < width (stretches.flatMap chars)) :
    ∃ front stretch back, stretches = front ++ stretch :: back ∧
      width (front.flatMap chars) ≤ place ∧
      place < width (front.flatMap chars) + width stretch.chars := by
  induction stretches generalizing place with
  | nil => cases hplace
  | cons stretch rest ih =>
      rw [List.flatMap_cons, width_append] at hplace
      by_cases hfirst : place < width stretch.chars
      · exact ⟨[], stretch, rest, rfl, Nat.zero_le place, by simpa [width_nil] using hfirst⟩
      · obtain ⟨front, other, back, rfl, hstart, hstop⟩ :=
          ih (place - width stretch.chars) (by omega)
        refine ⟨stretch :: front, other, back, rfl, ?_, ?_⟩ <;>
          rw [List.flatMap_cons, width_append] <;> omega

end Stretch

theorem HasSeparator.append {text front separator : List Char} {place : Nat}
    (hhas : HasSeparator text front separator place) (before behind : List Char) :
    HasSeparator (before ++ (text ++ behind)) (before ++ front) separator
      (before.length + place) := by
  obtain ⟨hmem, ⟨rest, rfl⟩, hstart, hstop⟩ := hhas
  refine ⟨hmem, ⟨rest ++ behind, by simp⟩, ?_, ?_⟩ <;> rw [List.length_append] <;> omega

/-- A gap is made of separators. -/
theorem Gap.exists_separator {gap : List Char} (hgap : Gap gap) (place : Nat)
    (hplace : place < gap.length) : ∃ front separator, HasSeparator gap front separator place := by
  induction hgap generalizing place with
  | nil => cases hplace
  | @cons separator rest hmem _ ih =>
      by_cases hfirst : place < separator.length
      · exact ⟨[], separator, hmem, List.prefix_append separator rest, Nat.zero_le place,
          by simpa using hfirst⟩
      · rw [List.length_append] at hplace
        obtain ⟨front, other, hhas⟩ := ih (place - separator.length) (by omega)
        have hlater := hhas.append separator []
        rw [List.append_nil, Nat.add_sub_of_le (by omega)] at hlater
        exact ⟨_, other, hlater⟩

/-- A place in a gap belongs to a separator, which no lexeme touches. -/
theorem Gap.isSeparated {gap : List Char} (hgap : Gap gap) (before behind : List Char)
    {lexemes : List Lexeme} {place : Nat} (hstart : width before ≤ place)
    (hstop : place < width (before ++ gap))
    (houtside : ∀ other, width before ≤ other → other < width (before ++ gap) →
      Outside lexemes other) :
    IsSeparated (codes (before ++ (gap ++ behind))) lexemes place := by
  rw [width_append, width_eq_length hgap.isAscii] at hstop houtside
  obtain ⟨front, separator, hhas⟩ := hgap.exists_separator (place - width before) (by omega)
  have hlength := hhas.isPrefix.length_le
  have hlater := hhas.append (codes before) (codes behind)
  rw [length_codes, Nat.add_sub_of_le hstart, ← codes_eq_self hgap.isAscii, ← codes_append,
    ← codes_append] at hlater
  refine ⟨_, separator, hlater, fun other hother hbound => ?_⟩
  rw [List.length_append] at hlength hother hbound
  rw [length_codes] at hother hbound
  exact houtside other (by omega) (by omega)

section Stretches

variable {stretches : List Stretch} {gap : List Char}

open Stretch

/-- A text around one of its stretches. -/
theorem chars_around (front : List Stretch) (stretch : Stretch) (back : List Stretch)
    (gap : List Char) : (front ++ stretch :: back).flatMap chars ++ gap =
      front.flatMap chars ++ (stretch.gap ++ (stretch.spelled ++ (stretch.colon ++
        (back.flatMap chars ++ gap)))) := by
  simp [chars]

theorem mem_lexemes (front : List Stretch) (stretch : Stretch) (back : List Stretch) :
    ⟨stretch.kind, width (front.flatMap chars) + width stretch.gap, width stretch.spelled⟩ ∈
      lexemes width 0 (front ++ stretch :: back) := by
  rw [lexemes_append, Nat.zero_add]
  exact List.mem_append_right _ List.mem_cons_self

/-- What is behind the lexeme of a stretch is the colon of a label. -/
theorem colon_behind (front : List Stretch) (stretch : Stretch) (behind : List Char) {place : Nat}
    (hstart : width (front.flatMap chars) + width stretch.gap + width stretch.spelled ≤ place)
    (hstop : place < width (front.flatMap chars) + width stretch.chars) :
    stretch.kind = .label ∧
      width (front.flatMap chars) + width stretch.gap + width stretch.spelled = place ∧
      (codes (front.flatMap chars ++ (stretch.gap ++ (stretch.spelled ++
        (stretch.colon ++ behind)))))[place]? = some ':' := by
  rw [width_chars] at hstop
  rcases stretch.colon_eq with hcolon | ⟨hcolon, hkind⟩
  · rw [hcolon, width_nil] at hstop
    omega
  · have hone : width [':'] = 1 := rfl
    rw [hcolon, hone] at hstop
    have hplace :
      width (front.flatMap chars) + width stretch.gap + width stretch.spelled = place := by omega
    refine ⟨hkind, hplace, ?_⟩
    have hbefore : width ((front.flatMap chars ++ stretch.gap) ++ stretch.spelled) = place := by
      rw [width_append, width_append, hplace]
    rw [← List.append_assoc, ← List.append_assoc, hcolon,
      codes_getElem? _ [':'] behind (Nat.le_of_eq hbefore) (by omega), hbefore, Nat.sub_self]
    rfl

/-- What no lexeme covers is in a gap, or it is the colon of a label. -/
theorem separated_or_colon (hgap : Gap gap) {place : Nat}
    (hplace : place < width (stretches.flatMap chars ++ gap))
    (houtside : Outside (lexemes width 0 stretches) place) :
    IsSeparated (codes (stretches.flatMap chars ++ gap)) (lexemes width 0 stretches) place ∨
      (codes (stretches.flatMap chars ++ gap))[place]? = some ':' ∧
        ∃ lexeme ∈ lexemes width 0 stretches, lexeme.kind = .label ∧ lexeme.stop = place := by
  by_cases hlast : width (stretches.flatMap chars) ≤ place
  · have hends := hgap.isSeparated (stretches.flatMap chars) [] hlast hplace
      fun other hstart hstop => outside_of_mem_gap stretches [] gap hstart hstop nofun
    rw [List.append_nil, List.append_nil] at hends
    exact .inl hends
  · obtain ⟨front, stretch, back, rfl, hstart, hstop⟩ :=
      exists_part place stretches (Nat.lt_of_not_le hlast)
    rw [chars_around]
    by_cases hbefore : place < width (front.flatMap chars ++ stretch.gap)
    · refine .inl (stretch.isGap.isSeparated _ _ hstart hbefore fun other hstart hstop =>
        outside_of_mem_gap front _ stretch.gap hstart hstop fun lexeme hmem => ?_)
      rw [width_append]
      exact gap_le_start _ hmem
    · rw [width_append] at hbefore
      have hmem := mem_lexemes front stretch back
      have hbehind : width (front.flatMap chars) + width stretch.gap + width stretch.spelled ≤
          place := by
        by_contra hinside
        exact houtside _ hmem ⟨Nat.le_of_not_lt hbefore, Nat.lt_of_not_le hinside⟩
      obtain ⟨hkind, hends, hcolon⟩ := colon_behind front stretch _ hbehind hstop
      exact .inr ⟨hcolon, _, hmem, hkind, hends⟩

/-- A line ends within a lexeme only where it is all of the lexeme. -/
theorem newline_of_covers {lexeme : Lexeme} (hmem : lexeme ∈ lexemes width 0 stretches)
    {place : Nat} (hcovers : lexeme.Covers place)
    (hline : (codes (stretches.flatMap chars ++ gap))[place]? = some '\n') :
    lexeme.kind = .lineEnd ∧ lexeme.length = 1 := by
  obtain ⟨front, stretch, back, rfl, rfl⟩ := exists_of_mem 0 hmem
  obtain ⟨hstart, hstop⟩ := hcovers
  rw [Nat.zero_add] at hstart
  rw [Lexeme.stop, Nat.zero_add] at hstop
  rw [chars_around, ← List.append_assoc, codes_getElem? _ _ _ hstart hstop] at hline
  have hspelled := newline_mem_of_mem_codes (List.mem_of_getElem? hline)
  obtain ⟨hkind, hall⟩ := stretch.newline hspelled
  refine ⟨hkind, ?_⟩
  change width stretch.spelled = 1
  rw [hall]
  rfl

theorem boundary_of_mem {lexeme : Lexeme} (hmem : lexeme ∈ lexemes width 0 stretches) :
    IsBoundary (stretches.flatMap chars ++ gap) lexeme.start ∧
      IsBoundary (stretches.flatMap chars ++ gap) lexeme.stop := by
  obtain ⟨front, stretch, back, rfl, rfl⟩ := exists_of_mem 0 hmem
  rw [chars_around, ← List.append_assoc]
  refine ⟨⟨_, _, rfl, (Nat.zero_add _).symm⟩, _, _, (List.append_assoc _ _ _).symm, ?_⟩
  rw [width_append, Lexeme.stop, Nat.zero_add]

/-- The lexemes of stretches account for the text that is made of them. -/
theorem accounts_stretches (stretches : List Stretch) (hgap : Gap gap) :
    Accounts (stretches.flatMap chars ++ gap) (lexemes width 0 stretches) where
  nonempty lexeme hmem := by
    obtain ⟨front, stretch, back, rfl, rfl⟩ := exists_of_mem 0 hmem
    exact width_pos stretch.spelled_ne_nil
  boundary _ hmem := boundary_of_mem hmem
  ordered := pairwise_lexemes 0
  outside _ hplace houtside := separated_or_colon hgap hplace houtside
  newline _ hmem _ hcovers hline := newline_of_covers hmem hcovers hline

/-- Counting bytes finds the lexemes that counting characters does. -/
theorem lexemes_width (before : List Char) (stretches : List Stretch) (gap : List Char) :
    lexemes width (width before) stretches = (lexemes List.length before.length stretches).map
      (Lexeme.inBytes (before ++ (stretches.flatMap chars ++ gap))) := by
  induction stretches generalizing before with
  | nil => rfl
  | cons stretch rest ih =>
      have hrest := ih (before ++ stretch.chars)
      rw [width_append, List.length_append, List.append_assoc,
        ← List.append_assoc stretch.chars, ← List.flatMap_cons] at hrest
      rw [lexemes, lexemes, List.map_cons, hrest, Lexeme.inBytes]
      congr 1
      have htext : before ++ ((stretch :: rest).flatMap chars ++ gap) =
          (before ++ stretch.gap) ++ (stretch.spelled ++ (stretch.colon ++
            (rest.flatMap chars ++ gap))) := by
        simp [chars]
      rw [htext, ← List.length_append, List.take_left, List.drop_left, List.take_left,
        width_append]

end Stretches

/-- Byte by byte, the lexemes of a text are the same with other places. -/
theorem lexBytes_encode (text : List Char) :
    lexBytes (Text.encode text) = (lex text).map (Lexeme.inBytes text) := by
  obtain ⟨stretches, gap, -, rfl, hlex, hlexBytes⟩ := exists_stretches 0 0 text
  change lexBytesFrom 0 (codes _) = (lexFrom 0 _).map _
  rw [hlex, hlexBytes]
  exact lexemes_width [] stretches gap

/-- The lexemes of the bytes of a text are those of the text, and account for every byte of it. -/
theorem lexBytes_accounts (text : List Char) :
    lexBytes (Text.encode text) = (lex text).map (Lexeme.inBytes text) ∧
      Accounts text (lexBytes (Text.encode text)) := by
  obtain ⟨stretches, gap, hgap, rfl, hlex, hlexBytes⟩ := exists_stretches 0 0 text
  change lexBytesFrom 0 (codes _) = (lexFrom 0 _).map _ ∧ Accounts _ (lexBytesFrom 0 (codes _))
  rw [hlex, hlexBytes]
  exact ⟨lexemes_width [] stretches gap, accounts_stretches stretches hgap⟩

/-- The backslash steps over the first byte of a character only, and the string still ends behind a
quote. -/
example : lexBytes (Text.encode ['é', ' ', '"', '\\', 'é', '"']) =
    [⟨.invalid, 0, 2⟩, ⟨.invalid, 3, 5⟩] := by decide +kernel

end Lexer

end VectorStack
