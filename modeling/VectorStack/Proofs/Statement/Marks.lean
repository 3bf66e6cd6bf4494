import VectorStack.Proofs.Statement.Lines
/-!
Labels and positions among statements. Neither of them can be a part of an operand, of a type or of
a width, so tokens that read well have a statement of its own for each, and what is read from such a
token on does not depend on what stands before it.
-/

namespace VectorStack

variable {store : TokenStore} {token mark opening : TokenId}
  {tokens rest taken front : List TokenId}

namespace TokenStore

/-- Kinds of labels and positions. -/
def IsMarkKind (kind : TokenKind) : Prop := kind = .label ∨ kind = .position

instance : DecidablePred IsMarkKind := fun kind =>
  inferInstanceAs (Decidable (kind = .label ∨ kind = .position))

/-- What is read of tokens, up to the rest that is left, holds no label and no position. -/
def Unmarked (store : TokenStore) (tokens rest : List TokenId) : Prop :=
  ∃ taken, tokens = taken ++ rest ∧ ∀ token ∈ taken, ¬ IsMarkKind (store.kind token)

namespace Unmarked

theorem refl (store : TokenStore) (tokens : List TokenId) : store.Unmarked tokens tokens :=
  ⟨[], rfl, nofun⟩

theorem cons {kind : TokenKind} (hrest : store.Unmarked tokens rest)
    (hkind : store.kind token = kind) (hplain : ¬ IsMarkKind kind) :
    store.Unmarked (token :: tokens) rest := by
  obtain ⟨taken, rfl, htaken⟩ := hrest
  exact ⟨token :: taken, rfl, List.forall_mem_cons.mpr ⟨hkind ▸ hplain, htaken⟩⟩

theorem trans {left : List TokenId} (hfirst : store.Unmarked tokens rest)
    (hsecond : store.Unmarked rest left) : store.Unmarked tokens left := by
  obtain ⟨first, rfl, hfirst⟩ := hfirst
  obtain ⟨second, rfl, hsecond⟩ := hsecond
  exact ⟨first ++ second, (List.append_assoc _ _ _).symm,
    List.forall_mem_append.mpr ⟨hfirst, hsecond⟩⟩

end Unmarked

end TokenStore

namespace Expression

open TokenStore

theorem parseInside_mark (hmark : IsMarkKind (store.kind token)) (state : Partial) :
    ∃ fault, parseInside store opening state (token :: rest) = .error fault := by
  rcases hmark with hkind | hkind <;> cases hvalue : state.afterValue <;>
    simp [parseInside, hvalue, hkind, ExpressionNode.unary?, ExpressionNode.binary?]

theorem unmarked_parseInside {state : Partial} {expression : Expression}
    (hread : parseInside store opening state tokens = .ok (expression, rest)) :
    store.Unmarked tokens rest := by
  induction tokens generalizing state with
  | nil => cases hread
  | cons token tokens ih =>
      have hplain : ¬ IsMarkKind (store.kind token) := by
        intro hmark
        obtain ⟨fault, hfault⟩ := @parseInside_mark _ _ opening tokens hmark state
        cases hfault.symm.trans hread
      rcases parseInside_cons store opening state token with
        ⟨fault, hfault⟩ | ⟨next, hnext⟩ | ⟨found, hfound⟩
      · cases (hfault tokens).symm.trans hread
      · exact (ih ((hnext tokens).symm.trans hread)).cons rfl hplain
      · cases (hfound tokens).symm.trans hread
        exact (Unmarked.refl store _).cons rfl hplain

theorem unmarked_parse {expression : Expression}
    (hread : parse store tokens = .ok (expression, rest)) : store.Unmarked tokens rest := by
  cases tokens with
  | nil => cases hread
  | cons token tokens =>
      rw [parse] at hread
      split at hread
      · next hkind => exact (unmarked_parseInside hread).cons hkind (by decide)
      · cases hread

end Expression

namespace TokenStore

theorem unmarked_readCount {cause : TokenId} {count : Nat}
    (hread : store.readCount cause tokens = .ok (count, rest)) : store.Unmarked tokens rest := by
  cases tokens with
  | nil => cases hread
  | cons token tokens =>
      rw [readCount] at hread
      split at hread
      · next hkind =>
          repeat' split at hread
          all_goals cases hread
          exact (Unmarked.refl store _).cons hkind (by decide)
      · cases hread

theorem unmarked_readWritten {cause : TokenId} {written : Written}
    (hread : store.readWritten cause tokens = .ok (written, rest)) :
    store.Unmarked tokens rest := by
  cases tokens with
  | nil => cases hread
  | cons token tokens =>
      unfold readWritten at hread
      dsimp only at hread
      split at hread
      · next hkind =>
          cases hread
          exact (Unmarked.refl store _).cons hkind (by decide)
      · next hkind =>
          cases hread
          exact (Unmarked.refl store _).cons hkind (by decide)
      · next hkind =>
          split at hread
          · next number left =>
              split at hread
              · next hnumber =>
                  cases hread
                  exact ((Unmarked.refl store _).cons hnumber (by decide)).cons hkind (by decide)
              · cases hread
          · cases hread
      · next hkind =>
          cases hread
          exact (Unmarked.refl store _).cons hkind (by decide)
      · split at hread
        · next expression left hparse =>
            cases hread
            exact Expression.unmarked_parse hparse
        · cases hread
      · cases hread

theorem unmarked_readTerm {cause : TokenId} {term : Term}
    (hread : store.readTerm cause tokens = .ok (term, rest)) : store.Unmarked tokens rest := by
  cases tokens with
  | nil => cases hread
  | cons token tokens =>
      rw [readTerm_cons] at hread
      obtain ⟨⟨written, behind⟩, hwritten, hcopies⟩ := bind_eq_ok.mp hread
      refine (unmarked_readWritten hwritten).trans ?_
      cases behind with
      | nil =>
          cases hcopies
          exact .refl store []
      | cons star behind =>
          dsimp only [readCopies] at hcopies
          split at hcopies
          · next hstar =>
              obtain ⟨⟨copies, left⟩, hcount, hsame⟩ := map_eq_ok.mp hcopies
              cases hsame
              exact (unmarked_readCount hcount).cons hstar (by decide)
          · cases hcopies
            exact .refl store _

theorem unmarked_skipComma (tokens : List TokenId) :
    store.Unmarked tokens (store.skipComma tokens) := by
  rw [skipComma]
  split
  · next hcomma =>
      obtain ⟨comma, hhead, hkind⟩ := Option.map_eq_some_iff.mp hcomma
      obtain ⟨behind, rfl⟩ := List.head?_eq_some_iff.mp hhead
      exact (Unmarked.refl store behind).cons hkind (by decide)
  · exact .refl store tokens

/-- What is read of tokens goes up to the end of their line, and holds no label and no position. -/
def UnmarkedLine (store : TokenStore) (tokens : List TokenId) : Prop :=
  ∃ rest, store.Unmarked tokens rest ∧ store.atLineEnd rest = true

theorem Unmarked.line (htokens : store.Unmarked tokens rest) (hrest : store.UnmarkedLine rest) :
    store.UnmarkedLine tokens := by
  obtain ⟨left, hleft, hend⟩ := hrest
  exact ⟨left, htokens.trans hleft, hend⟩

theorem unmarkedLine_of_atLineEnd (hend : store.atLineEnd tokens = true) :
    store.UnmarkedLine tokens :=
  ⟨tokens, .refl store tokens, hend⟩

/-- A label or a position on the line would be left to be read. -/
theorem UnmarkedLine.false_of_mark (hread : store.UnmarkedLine (front ++ mark :: tokens))
    (hfront : store.IsLine front) (hmark : IsMarkKind (store.kind mark)) : False := by
  obtain ⟨rest, ⟨taken, hsplit, htaken⟩, hend⟩ := hread
  rcases List.append_eq_append_iff.mp hsplit with ⟨more, rfl, hrest⟩ | ⟨more, rfl, rfl⟩
  · cases more with
    | nil =>
        cases hrest
        rcases hmark with hkind | hkind <;> simp [atLineEnd, nextKind, hkind] at hend
    | cons next more =>
        obtain ⟨rfl, -⟩ := List.cons_eq_cons.mp hrest
        exact htaken mark (List.mem_append_right _ List.mem_cons_self) hmark
  · cases more with
    | nil => rcases hmark with hkind | hkind <;> simp [atLineEnd, nextKind, hkind] at hend
    | cons next more =>
        exact hfront next (List.mem_append_right _ List.mem_cons_self) (atLineEnd_cons.mp hend)

theorem unmarked_readItems {typeToken : TokenId} {type : DataType} {items : List Statement}
    (hread : store.readItems typeToken type tokens = .ok items) : store.UnmarkedLine tokens := by
  fun_induction readItems store typeToken type tokens generalizing items with
  | case1 tokens hend => exact unmarkedLine_of_atLineEnd hend
  | case2 => cases hread
  | case3 => cases hread
  | case4 tokens hend item rest hterm hvalue behind =>
      rename_i ih
      obtain ⟨others, hothers, -⟩ := map_eq_ok.mp hread
      exact (unmarked_readTerm hterm).line ((unmarked_skipComma rest).line (ih hothers))

theorem unmarked_readTerms {mnemonic : TokenId} {afterArrow : Bool}
    {terms : List Term × List Term}
    (hread : store.readTerms mnemonic afterArrow tokens = .ok terms) :
    store.UnmarkedLine tokens := by
  fun_induction readTerms store mnemonic afterArrow tokens generalizing terms with
  | case1 => exact unmarkedLine_of_atLineEnd rfl
  | case2 afterArrow token rest hend =>
      exact unmarkedLine_of_atLineEnd (atLineEnd_cons.mpr hend)
  | case3 | case5 | case10 => cases hread
  | case4 afterArrow token rest hend harrow hfirst ih =>
      exact ((Unmarked.refl store rest).cons harrow (by decide)).line (ih hread)
  | case6 afterArrow token rest hend harrow term add hterm =>
      exact (unmarked_readTerm hterm).line (unmarkedLine_of_atLineEnd rfl)
  | case7 afterArrow token rest hend harrow term add next left hterm hcomma _ =>
      rename_i ih
      obtain ⟨others, hothers, -⟩ := map_eq_ok.mp hread
      have hbehind := (Unmarked.refl store left).cons hcomma (by decide)
      exact (unmarked_readTerm hterm).line (hbehind.line (ih hothers))
  | case8 afterArrow token rest hend harrow term add next left hterm hnext _
  | case9 afterArrow token rest hend harrow term add next left hterm hnext _ =>
      rename_i ih
      obtain ⟨others, hothers, -⟩ := map_eq_ok.mp hread
      exact (unmarked_readTerm hterm).line (ih hothers)

theorem unmarked_readTypeSuffix {type : Option DataType}
    (hread : store.readTypeSuffix tokens = .ok (type, rest)) : store.Unmarked tokens rest := by
  cases tokens with
  | nil =>
      cases hread
      exact .refl store []
  | cons token tokens =>
      rw [readTypeSuffix] at hread
      split at hread
      · next hkind =>
          obtain ⟨found, -, hsame⟩ := map_eq_ok.mp hread
          cases hsame
          exact (Unmarked.refl store _).cons hkind (by decide)
      · cases hread
        exact .refl store _

theorem unmarked_readWidthSuffix {mnemonic : TokenId} {width : Nat}
    (hread : store.readWidthSuffix mnemonic tokens = .ok (width, rest)) :
    store.Unmarked tokens rest := by
  cases tokens with
  | nil =>
      cases hread
      exact .refl store []
  | cons token tokens =>
      rw [readWidthSuffix] at hread
      split at hread
      · next hstar =>
          split at hread
          · cases hread
          · next count behind hcount =>
              split at hread
              · cases hread
              · cases hread
                exact (unmarked_readCount hcount).cons hstar (by decide)
      · cases hread
        exact .refl store _

theorem unmarked_readData {typeToken : TokenId} {items : List Statement}
    (hread : store.readData typeToken tokens = .ok items) : store.UnmarkedLine tokens := by
  unfold readData at hread
  split at hread
  · cases hread
  · split at hread
    · cases hread
    · exact unmarked_readItems hread

theorem unmarked_readInstruction {mnemonic : TokenId} {statement : Statement}
    (hread : store.readInstruction mnemonic tokens = .ok statement) :
    store.UnmarkedLine tokens := by
  unfold readInstruction at hread
  dsimp only at hread
  split at hread
  · cases hread
  · obtain ⟨⟨type, afterType⟩, htype, hread⟩ := bind_eq_ok.mp hread
    obtain ⟨⟨width, afterWidth⟩, hwidth, hread⟩ := bind_eq_ok.mp hread
    obtain ⟨terms, hterms, -⟩ := bind_eq_ok.mp hread
    have hsuffix := (unmarked_readTypeSuffix htype).trans (unmarked_readWidthSuffix hwidth)
    exact hsuffix.line (unmarked_readTerms hterms)

/-- A line that reads well is read anew from a label or a position on. -/
theorem readLine_of_mark {statements : List Statement} (hfront : store.IsLine front)
    (hmark : IsMarkKind (store.kind mark))
    (hread : store.readLine (front ++ mark :: tokens) = .ok statements) :
    ∃ before after, statements = before ++ after ∧
      store.readLine (mark :: tokens) = .ok after := by
  induction front generalizing statements with
  | nil => exact ⟨[], statements, rfl, hread⟩
  | cons token front ih =>
      obtain ⟨htoken, hfront⟩ := isLine_cons.mp hfront
      have hkept {statement : Statement}
          (hread : (store.readLine (front ++ mark :: tokens)).map (statement :: ·) =
            .ok statements) :
          ∃ before after, statements = before ++ after ∧
            store.readLine (mark :: tokens) = .ok after := by
        obtain ⟨others, hothers, rfl⟩ := map_eq_ok.mp hread
        obtain ⟨before, after, rfl, hafter⟩ := ih hfront hothers
        exact ⟨statement :: before, after, rfl, hafter⟩
      rw [List.cons_append, readLine] at hread
      split at hread
      · next hkind => exact absurd hkind htoken
      · exact hkept hread
      · exact hkept hread
      · exact ((unmarked_readData hread).false_of_mark hfront hmark).elim
      · obtain ⟨statement, hstatement, -⟩ := map_eq_ok.mp hread
        exact ((unmarked_readInstruction hstatement).false_of_mark hfront hmark).elim
      · cases hread

/-- The line that a token stands on, and the lines before and after it. -/
theorem exists_lines (hmark : store.kind mark ≠ .lineEnd) (front tokens : List TokenId) :
    ∃ above first line below, store.IsLine first ∧
      store.lines (mark :: tokens) = (mark :: line) :: below ∧
      store.lines (front ++ mark :: tokens) = above ++ (first ++ mark :: line) :: below := by
  induction front with
  | nil =>
      rw [List.nil_append, lines, if_neg hmark]
      cases store.lines tokens with
      | nil => exact ⟨[], [], [], [], List.forall_mem_nil _, rfl, rfl⟩
      | cons line below => exact ⟨[], [], line, below, List.forall_mem_nil _, rfl, rfl⟩
  | cons token front ih =>
      obtain ⟨above, first, line, below, hfirst, hline, hlines⟩ := ih
      by_cases hend : store.kind token = .lineEnd
      · refine ⟨[token] :: above, first, line, below, hfirst, hline, ?_⟩
        rw [List.cons_append, lines, if_pos hend, hlines]
        rfl
      · cases above with
        | nil =>
            refine ⟨[], token :: first, line, below, isLine_cons.mpr ⟨hend, hfirst⟩, hline, ?_⟩
            rw [List.cons_append, lines, if_neg hend, hlines]
            rfl
        | cons other above =>
            refine ⟨(token :: other) :: above, first, line, below, hfirst, hline, ?_⟩
            rw [List.cons_append, lines, if_neg hend, hlines]
            rfl

/-- Tokens that read well are read anew from a label or a position on. -/
theorem statements_of_mark {statements : List Statement} (hmark : IsMarkKind (store.kind mark))
    (hread : store.statements (front ++ mark :: tokens) = .ok statements) :
    ∃ before after, statements = before ++ after ∧
      store.statements (mark :: tokens) = .ok after := by
  have hkind : store.kind mark ≠ .lineEnd := by
    rcases hmark with hkind | hkind <;> rw [hkind] <;> decide
  obtain ⟨above, first, line, below, hfirst, hline, hlines⟩ := exists_lines hkind front tokens
  rw [TokenStore.statements, hlines, readLines_append] at hread
  obtain ⟨before, -, hread⟩ := bind_eq_ok.mp hread
  obtain ⟨rest, hrest, rfl⟩ := map_eq_ok.mp hread
  obtain ⟨read, hreadLine, hbelow⟩ := bind_eq_ok.mp hrest
  obtain ⟨others, hothers, hsame⟩ := bind_eq_ok.mp hbelow
  cases hsame
  obtain ⟨inner, after, rfl, hafter⟩ := readLine_of_mark hfirst hmark hreadLine
  refine ⟨before ++ inner, after ++ others, by simp, ?_⟩
  rw [TokenStore.statements, hline]
  exact bind_eq_ok.mpr ⟨after, hafter, bind_eq_ok.mpr ⟨others, hothers, rfl⟩⟩

/-- A token that is a statement of its own comes before the statements of the tokens behind it. -/
theorem statements_cons {statement : Statement} (hkind : store.kind token ≠ .lineEnd)
    (hread : ∀ rest, store.readLine (token :: rest) =
      (store.readLine rest).map (statement :: ·)) (tokens : List TokenId) :
    store.statements (token :: tokens) = (store.statements tokens).map (statement :: ·) := by
  rw [TokenStore.statements, TokenStore.statements, lines, if_neg hkind]
  cases store.lines tokens with
  | nil =>
      have hone : store.readLine [token] = .ok [statement] := hread []
      simp [readLines, hone, bind, Except.bind, Except.map]
  | cons line below =>
      simp only [readLines, hread]
      cases store.readLine line with
      | error fault => rfl
      | ok read => cases store.readLines below <;> rfl

theorem statements_label (hkind : store.kind token = .label) (tokens : List TokenId) :
    store.statements (token :: tokens) =
      (store.statements tokens).map (.label token :: ·) :=
  statements_cons (by rw [hkind]; decide) (fun _ => by rw [readLine, hkind]) tokens

theorem statements_position (hkind : store.kind token = .position) (tokens : List TokenId) :
    store.statements (token :: tokens) =
      (store.statements tokens).map (.position token :: ·) :=
  statements_cons (by rw [hkind]; decide) (fun _ => by rw [readLine, hkind]) tokens

end TokenStore

end VectorStack
