import VectorStack.Proofs.Statement.LineLocal
/-!
Statements line by line. Reading all lines where they stand, one after another, always comes to an
end, and gives what reading them cut apart gives. Tokens in front of a line end are read as if there
were none behind it, and those behind it as if there were none in front.
-/

namespace VectorStack.TokenStore

variable {store : TokenStore}

/-- Tokens begin with a line and go on with what ends it, and with them the lines that they are cut
into. -/
theorem exists_line (store : TokenStore) {tokens : List TokenId} (hne : tokens ≠ []) :
    ∃ line tail, tokens = line ++ tail ∧ store.IsLine line ∧ store.IsEnding tail.head? ∧
      store.lines tokens = (line ++ tail.head?.toList) :: store.lines tail.tail := by
  induction tokens with
  | nil => contradiction
  | cons token rest ih =>
      by_cases hend : store.kind token = .lineEnd
      · exact ⟨[], token :: rest, rfl, by simp [IsLine], by simpa [IsEnding] using hend, by
          simp [lines, hend]⟩
      · by_cases hrest : rest = []
        · subst hrest
          exact ⟨[token], [], rfl, by simpa [IsLine] using hend, by simp [IsEnding], by
            simp [lines, hend]⟩
        · obtain ⟨line, tail, rfl, hline, hending, hlines⟩ := ih hrest
          exact ⟨token :: line, tail, rfl, isLine_cons.mpr ⟨hend, hline⟩, hending, by
            simp [lines, hend, hlines]⟩

theorem readLines_cons (line : List TokenId) (below : List (List TokenId)) :
    store.readLines (line :: below) = store.readLine line >>= fun statements =>
      (store.readLines below).map (statements ++ ·) :=
  rfl

/-- The first line is read where it stands as it is by itself. -/
theorem exists_outcome (store : TokenStore) {tokens : List TokenId} (hne : tokens ≠ []) :
    ∃ outcome rest, rest.length < tokens.length ∧
      store.takeLine tokens = outcome.map (·, rest) ∧
      store.statements tokens = outcome >>= fun statements =>
        (store.statements rest).map (statements ++ ·) := by
  obtain ⟨line, tail, rfl, hline, hending, hlines⟩ := exists_line store hne
  obtain ⟨outcome, hread⟩ := whole_takeLine hline hending
  refine ⟨outcome, tail.tail, ?_, hread tail rfl, ?_⟩
  · have hpos := List.length_pos_iff.mpr hne
    simp only [List.length_append, List.length_tail] at hpos ⊢
    omega
  · have hfirst : store.readLine (line ++ tail.head?.toList) = outcome := by
      rw [← map_fst_takeLine, hread _ Option.head?_toList]
      cases outcome <;> rfl
    rw [statements, hlines, readLines_cons, hfirst]
    rfl

theorem takesLines_statements (tokens : List TokenId) :
    TakesLines store tokens (store.statements tokens) := by
  induction hlength : tokens.length using Nat.strong_induction_on generalizing tokens with
  | h n ih =>
  cases tokens with
  | nil => exact .done
  | cons token rest =>
      obtain ⟨outcome, below, hlt, hline, hall⟩ :=
        exists_outcome store (List.cons_ne_nil token rest)
      rw [hall]
      cases outcome with
      | error fault => exact .fault hline
      | ok statements => exact .line hline (ih _ (hlength ▸ hlt) below rfl)

theorem lines_append_lineEnd {ending : TokenId} (hending : store.kind ending = .lineEnd)
    (first second : List TokenId) :
    store.lines (first ++ ending :: second) =
      store.lines (first ++ [ending]) ++ store.lines second := by
  induction first with
  | nil => simp [lines, hending]
  | cons token first ih =>
      have hne : first ++ [ending] ≠ [] := by simp
      obtain ⟨line, tail, -, -, -, hlines⟩ := exists_line store hne
      by_cases hend : store.kind token = .lineEnd <;> simp [lines, hend, ih, hlines]

theorem readLines_append (lines below : List (List TokenId)) :
    store.readLines (lines ++ below) = store.readLines lines >>= fun statements =>
      (store.readLines below).map (statements ++ ·) := by
  induction lines with
  | nil =>
      change store.readLines below = (store.readLines below).map ([] ++ ·)
      cases store.readLines below <;> rfl
  | cons line lines ih =>
      rw [List.cons_append, readLines_cons, readLines_cons, ih]
      cases store.readLine line with
      | error fault => rfl
      | ok statements =>
          cases store.readLines lines with
          | error fault => rfl
          | ok others =>
              cases store.readLines below with
              | error fault => rfl
              | ok rest => exact congrArg Except.ok (List.append_assoc statements others rest).symm

theorem statements_append_lineEnd {ending : TokenId} (hending : store.kind ending = .lineEnd)
    (first second : List TokenId) :
    store.statements (first ++ ending :: second) =
      store.statements (first ++ [ending]) >>= fun read =>
        (store.statements second).map (read ++ ·) := by
  rw [statements, lines_append_lineEnd hending, readLines_append]
  rfl

/-- The reader that goes on from line to line ends with the statements of the tokens, or with their
fault. A fault up to a line end is the fault of all the tokens; otherwise they are at fault where
those behind the line end are, or their statements are those up to it and those behind it. -/
theorem statements_line_local (store : TokenStore) :
    (∀ tokens outcome, store.TakesLines tokens outcome ↔ outcome = store.statements tokens) ∧
      ∀ first ending second, store.kind ending = .lineEnd →
        (∀ fault, store.statements (first ++ [ending]) = .error fault →
          store.statements (first ++ ending :: second) = .error fault) ∧
        ∀ read, store.statements (first ++ [ending]) = .ok read →
          (∀ fault, store.statements second = .error fault →
            store.statements (first ++ ending :: second) = .error fault) ∧
          ∀ others, store.statements second = .ok others →
            store.statements (first ++ ending :: second) = .ok (read ++ others) := by
  constructor
  · intro tokens outcome
    constructor
    · exact fun houtcome => houtcome.unique (takesLines_statements tokens)
    · rintro rfl
      exact takesLines_statements tokens
  · intro first ending second hending
    have hall := statements_append_lineEnd hending first second
    constructor
    · intro fault hfault
      rw [hall, hfault]
      rfl
    · intro read hread
      rw [hall, hread]
      exact ⟨fun fault hfault => congrArg (Except.map _) hfault,
        fun others hothers => congrArg (Except.map _) hothers⟩

/-- A halt, and an instruction whose parenthesis is closed on the next line. -/
def openLines : TokenStore :=
  ⟨#[⟨"main", #['h', 'a', 'l', 't', '\n', 'p', 'u', 's', 'h', ' ', '(', '1', '\n', '2', ')', '\n'],
      none⟩],
    #[⟨.word, 0, 0, 4, none⟩, ⟨.lineEnd, 0, 4, 1, none⟩, ⟨.word, 0, 5, 4, none⟩,
      ⟨.openParen, 0, 10, 1, none⟩, ⟨.number, 0, 11, 1, none⟩, ⟨.lineEnd, 0, 12, 1, none⟩,
      ⟨.number, 0, 13, 1, none⟩, ⟨.closeParen, 0, 14, 1, none⟩, ⟨.lineEnd, 0, 15, 1, none⟩]⟩

/-- The parenthesis is not closed, whatever stands on the next line. -/
theorem statements_line_local_open :
    openLines.kind 1 = .lineEnd ∧ openLines.kind 5 = .lineEnd ∧
      (∃ fault, openLines.statements [2, 3, 4, 5] = .error fault ∧
        openLines.statements [2, 3, 4, 5, 6, 7, 8] = .error fault ∧
        openLines.statements [0, 1, 2, 3, 4, 5] = .error fault) ∧
      ∃ read, openLines.statements [0, 1] = .ok read ∧
        openLines.statements [0, 1, 0, 1] = .ok (read ++ read) := by
  have hfirst : openLines.kind 1 = .lineEnd := by decide
  have hsecond : openLines.kind 5 = .lineEnd := by decide
  have hopen : (openLines.statements [2, 3, 4, 5]).isOk = false := by decide +kernel
  have hhalt : openLines.statements [0, 1] = .ok [.instruction ⟨.halt, 0, none, 1, [], []⟩] := by
    decide +kernel
  have hlocal := (statements_line_local openLines).2
  refine ⟨hfirst, hsecond, ?_, ?_⟩
  · cases hread : openLines.statements [2, 3, 4, 5] with
    | error fault =>
        exact ⟨fault, rfl, (hlocal [2, 3, 4] 5 [6, 7, 8] hsecond).1 fault hread,
          ((hlocal [0] 1 [2, 3, 4, 5] hfirst).2 _ hhalt).1 fault hread⟩
    | ok read =>
        rw [hread] at hopen
        cases hopen
  · exact ⟨_, hhalt, ((hlocal [0] 1 [0, 1] hfirst).2 _ hhalt).2 _ hhalt⟩

end VectorStack.TokenStore
