import VectorStack.Proofs.Statement.OnePass
import VectorStack.Proofs.Token.Kinds
/-!
Lines do not reach into one another. What a reader makes of a line is settled by the line and the
token that ends it. What it leaves begins on the same line, and a reader of whole lines leaves what
is behind the end of its line.
-/

namespace VectorStack

variable {α β : Type} {store : TokenStore} {line : List TokenId} {ending : Option TokenId}
  {token : TokenId}

/-- What a reader makes of a line and the token that ends it, if there is one, whatever stands
behind: the same fault, or the same value and the same piece of the line left. -/
inductive LineLocal (read : List TokenId → Except AssemblyError (WithRest α)) (line : List TokenId)
    (ending : Option TokenId) : Prop
  | fault (fault : AssemblyError)
      (hread : ∀ tail, tail.head? = ending → read (line ++ tail) = .error fault)
  | value (value : α) {left : List TokenId} (hleft : left <:+ line)
      (hread : ∀ tail, tail.head? = ending → read (line ++ tail) = .ok (value, left ++ tail))

namespace LineLocal

variable {read : List TokenId → Except AssemblyError (WithRest α)}
  {other : List TokenId → Except AssemblyError (WithRest β)}

/-- Reading on from where the token is read. -/
theorem cons (hlocal : LineLocal (fun rest => read (token :: rest)) line ending) :
    LineLocal read (token :: line) ending := by
  cases hlocal with
  | fault fault hread => exact .fault fault hread
  | value value hleft hread =>
      exact .value value (hleft.trans (List.suffix_cons token line)) hread

/-- The token is at fault. -/
theorem cons_error (hread : ∃ fault, ∀ rest, read (token :: rest) = .error fault) :
    LineLocal read (token :: line) ending := by
  obtain ⟨fault, hread⟩ := hread
  exact .fault fault fun _ _ => hread _

/-- The token is all that is read. -/
theorem cons_ok (hread : ∃ value, ∀ rest, read (token :: rest) = .ok (value, rest)) :
    LineLocal read (token :: line) ending := by
  obtain ⟨value, hread⟩ := hread
  exact .value value (List.suffix_cons token line) fun _ _ => hread _

/-- Nothing is read. -/
theorem pure (hread : ∃ value, ∀ tail, tail.head? = ending →
    read (line ++ tail) = .ok (value, line ++ tail)) : LineLocal read line ending := by
  obtain ⟨value, hread⟩ := hread
  exact .value value (List.suffix_refl line) hread

/-- Reading one thing after another. What is read first leaves a piece of the line. -/
theorem bind (hlocal : LineLocal read line ending)
    (next : WithRest α → Except AssemblyError (WithRest β))
    (hnext : ∀ value left, left <:+ line →
      (∀ tail, tail.head? = ending → read (line ++ tail) = .ok (value, left ++ tail)) →
        LineLocal (fun rest => next (value, rest)) left ending)
    (hother : ∀ tail, tail.head? = ending → other (line ++ tail) = read (line ++ tail) >>= next) :
    LineLocal other line ending := by
  cases hlocal with
  | fault fault hread =>
      exact .fault fault fun tail htail => by rw [hother tail htail, hread tail htail]; rfl
  | value value hleft hread =>
      cases hnext value _ hleft hread with
      | fault fault hnext =>
          refine .fault fault fun tail htail => ?_
          rw [hother tail htail, hread tail htail]
          exact hnext tail htail
      | value value hleft' hnext =>
          refine .value value (hleft'.trans hleft) fun tail htail => ?_
          rw [hother tail htail, hread tail htail]
          exact hnext tail htail

theorem map (hlocal : LineLocal read line ending) (f : α → β)
    (hother : ∀ tail, tail.head? = ending →
      other (line ++ tail) = (read (line ++ tail)).map (Prod.map f id)) :
    LineLocal other line ending :=
  hlocal.bind (fun found => .ok (found.map f id))
    (fun found _ _ _ => .pure ⟨f found, fun _ _ => rfl⟩)
    fun tail htail => by rw [hother tail htail]; cases read (line ++ tail) <;> rfl

end LineLocal

namespace TokenStore

/-- A line is ended by a line end, or because there are no more tokens. -/
def IsEnding (store : TokenStore) (ending : Option TokenId) : Prop :=
  ∀ token ∈ ending, store.kind token = .lineEnd

/-- A reader does not look behind the end of the line that it is on. -/
def OnLine (store : TokenStore) (read : List TokenId → Except AssemblyError (WithRest α)) : Prop :=
  ∀ line ending, store.IsLine line → store.IsEnding ending → LineLocal read line ending

theorem IsLine.of_suffix {left : List TokenId} (hline : store.IsLine line) (hleft : left <:+ line) :
    store.IsLine left :=
  fun token hmem => hline token (hleft.mem hmem)

theorem IsLine.eq_nil {tail : List TokenId} (hline : store.IsLine line)
    (hend : store.atLineEnd (line ++ tail) = true) : line = [] := by
  cases line with
  | nil => rfl
  | cons token line => exact absurd (atLineEnd_cons.mp hend) (isLine_cons.mp hline).1

theorem IsEnding.atLineEnd {tail : List TokenId} (hending : store.IsEnding ending)
    (htail : tail.head? = ending) : store.atLineEnd tail = true := by
  cases tail with
  | nil => rfl
  | cons token below => exact atLineEnd_cons.mpr (hending token htail.symm)

/-- A reader is at fault at the end of the line if it is at fault without a token and with one that
ends a line. -/
theorem IsEnding.fault {read : List TokenId → Except AssemblyError (WithRest α)}
    (hending : store.IsEnding ending) (hnil : ∃ fault, read [] = .error fault)
    (hend : ∀ token, store.kind token = .lineEnd →
      ∃ fault, ∀ below, read (token :: below) = .error fault) :
    LineLocal read [] ending := by
  cases ending with
  | none =>
      obtain ⟨fault, hread⟩ := hnil
      refine .fault fault fun tail htail => ?_
      rw [List.head?_eq_none_iff.mp htail]
      exact hread
  | some token =>
      obtain ⟨fault, hread⟩ := hend token (hending token rfl)
      refine .fault fault fun tail htail => ?_
      obtain ⟨below, rfl⟩ := List.head?_eq_some_iff.mp htail
      exact hread below

/-- A reader reads nothing at the end of the line if it reads nothing without a token and none that
ends a line. -/
theorem IsEnding.value {read : List TokenId → Except AssemblyError (WithRest α)}
    (hending : store.IsEnding ending) (value : α) (hnil : read [] = .ok (value, []))
    (hend : ∀ token, store.kind token = .lineEnd →
      ∀ below, read (token :: below) = .ok (value, token :: below)) :
    LineLocal read [] ending := by
  refine .pure ⟨value, fun tail htail => ?_⟩
  cases tail with
  | nil => exact hnil
  | cons token below => exact hend token (hending token htail.symm) below

end TokenStore

namespace Expression

open TokenStore

/-- A token behind the opening parenthesis is at fault, or brings the reader on, or is the matching
closing parenthesis. -/
theorem parseInside_cons (store : TokenStore) (opening : TokenId) (state : Partial)
    (token : TokenId) :
    (∃ fault, ∀ rest, parseInside store opening state (token :: rest) = .error fault) ∨
      (∃ next, ∀ rest, parseInside store opening state (token :: rest) =
        parseInside store opening next rest) ∨
      ∃ expression, ∀ rest,
        parseInside store opening state (token :: rest) = .ok (expression, rest) := by
  obtain ⟨nodes, waiting, outer, afterValue⟩ := state
  cases afterValue <;> cases outer <;> cases hkind : store.kind token <;>
    simp [parseInside, hkind, ExpressionNode.unary?, ExpressionNode.binary?]
  all_goals exact .inr (.inl ⟨_, fun _ => rfl⟩)

/-- An expression does not go on behind the end of its line. -/
theorem parseInside_lineEnd (opening : TokenId) (state : Partial)
    (hkind : store.kind token = .lineEnd) :
    ∃ fault, ∀ below, parseInside store opening state (token :: below) = .error fault := by
  cases hvalue : state.afterValue <;>
    simp [parseInside, hvalue, hkind, ExpressionNode.unary?, ExpressionNode.binary?]

theorem onLine_parseInside (opening : TokenId) (state : Partial) :
    store.OnLine (parseInside store opening state) := by
  intro line ending hline hending
  induction line generalizing state with
  | nil => exact hending.fault ⟨_, rfl⟩ fun _ => parseInside_lineEnd opening state
  | cons token line ih =>
      rcases parseInside_cons store opening state token with hfault | ⟨next, hread⟩ | hvalue
      · exact .cons_error hfault
      · exact .cons (by simpa only [hread] using ih next (isLine_cons.mp hline).2)
      · exact .cons_ok hvalue

theorem onLine_parse : store.OnLine (parse store) := by
  intro line ending hline hending
  cases line with
  | nil => exact hending.fault ⟨_, rfl⟩ fun token hkind => by simp [parse, hkind]
  | cons token line =>
      by_cases hopen : store.kind token = .openParen
      · refine .cons ?_
        simpa only [parse, if_pos hopen] using
          onLine_parseInside token .start line ending (isLine_cons.mp hline).2 hending
      · exact .cons_error ⟨_, fun _ => if_neg hopen⟩

end Expression

namespace TokenStore

theorem onLine_readCount (cause : TokenId) : store.OnLine (store.readCount cause) := by
  intro line ending hline hending
  cases line with
  | nil => exact hending.fault ⟨_, rfl⟩ fun token hkind => by simp [readCount, hkind]
  | cons token line =>
      by_cases hkind : store.kind token = .number
      · cases hcount : (Number.parse? (store.chars token)).bind Number.natural? with
        | none => exact .cons_error (by simp [readCount, hkind, hcount])
        | some count =>
            by_cases hlt : count < UInt32.size
            · exact .cons_ok (by simp [readCount, hkind, hcount, hlt])
            · exact .cons_error (by simp [readCount, hkind, hcount, hlt])
      · exact .cons_error ⟨_, fun _ => if_neg hkind⟩

theorem onLine_readWritten (cause : TokenId) : store.OnLine (store.readWritten cause) := by
  intro line ending hline hending
  cases line with
  | nil => exact hending.fault ⟨_, rfl⟩ fun token hkind => by simp [readWritten, hkind]
  | cons token line =>
      have hrest := (isLine_cons.mp hline).2
      cases hkind : store.kind token with
      | word | number | string => exact .cons_ok (by simp [readWritten, hkind])
      | minus =>
          refine .cons ?_
          cases line with
          | nil =>
              exact hending.fault ⟨_, by rw [readWritten, hkind]⟩ fun number hnumber => by
                simp [readWritten, hkind, hnumber]
          | cons number line =>
              by_cases hnumber : store.kind number = .number
              · exact .cons_ok (by simp [readWritten, hkind, hnumber])
              · exact .cons_error (by simp [readWritten, hkind, hnumber])
      | openParen =>
          refine (Expression.onLine_parse (token :: line) ending hline hending).map .expression ?_
          intro tail _
          simp only [List.cons_append, readWritten, hkind]
          cases Expression.parse store (token :: (line ++ tail)) <;> rfl
      | _ => exact .cons_error (by simp [readWritten, hkind])

/-- Read how many copies there are of an operand that has been read. -/
def readCopies (store : TokenStore) (written : Written) (token : TokenId) :
    List TokenId → Except AssemblyError (WithRest Term)
  | star :: rest =>
    if store.kind star = .star then
      (store.readCount token rest).map (Prod.map (⟨written, token, ·⟩) id)
    else .ok (⟨written, token, 1⟩, star :: rest)
  | [] => .ok (⟨written, token, 1⟩, [])

theorem readTerm_cons (cause : TokenId) (rest : List TokenId) :
    store.readTerm cause (token :: rest) =
      store.readWritten cause (token :: rest) >>= fun (written, rest) =>
        store.readCopies written token rest := by
  rw [readTerm]
  cases store.readWritten cause (token :: rest) with
  | error fault => rfl
  | ok found =>
      obtain ⟨written, rest⟩ := found
      cases rest with
      | nil => rfl
      | cons star rest =>
          simp only [readCopies, bind, Except.bind, List.headD_cons]
          split
          · cases store.readCount token rest <;> rfl
          · rfl

theorem onLine_readCopies (written : Written) (first : TokenId) :
    store.OnLine (store.readCopies written first) := by
  intro line ending hline hending
  cases line with
  | nil => exact hending.value _ rfl fun token hkind _ => if_neg (by simp [hkind])
  | cons token line =>
      by_cases hstar : store.kind token = .star
      · refine .cons ?_
        exact (onLine_readCount first line ending (isLine_cons.mp hline).2 hending).map
          (fun copies => ⟨written, first, copies⟩) fun _ _ => if_pos hstar
      · exact .pure ⟨_, fun _ _ => if_neg hstar⟩

theorem onLine_readTerm (cause : TokenId) : store.OnLine (store.readTerm cause) := by
  intro line ending hline hending
  have hwritten := onLine_readWritten cause line ending hline hending
  cases line with
  | nil => exact hending.fault ⟨_, rfl⟩ fun token hkind => by simp [readTerm, readWritten, hkind]
  | cons token line =>
      exact hwritten.bind _
        (fun written left hleft _ =>
          onLine_readCopies written token left ending (hline.of_suffix hleft) hending)
        fun tail _ => readTerm_cons cause (line ++ tail)

theorem onLine_readTypeSuffix : store.OnLine store.readTypeSuffix := by
  intro line ending hline hending
  cases line with
  | nil => exact hending.value none rfl fun token hkind _ => if_neg (by simp [hkind])
  | cons token line =>
      by_cases htype : store.kind token = .type
      · cases hread : store.readType token with
        | error fault => exact .cons_error (by simp [readTypeSuffix, htype, hread, Except.map])
        | ok type => exact .cons_ok (by simp [readTypeSuffix, htype, hread, Except.map])
      · exact .pure ⟨none, fun _ _ => if_neg htype⟩

theorem onLine_readWidthSuffix (mnemonic : TokenId) :
    store.OnLine (store.readWidthSuffix mnemonic) := by
  intro line ending hline hending
  cases line with
  | nil => exact hending.value 1 rfl fun token hkind _ => if_neg (by simp [hkind])
  | cons token line =>
      by_cases hstar : store.kind token = .star
      · refine .cons ?_
        refine (onLine_readCount mnemonic line ending (isLine_cons.mp hline).2 hending).bind
          (fun found =>
            if found.1 = 0 ∨ Instruction.maxWidth < found.1 then
              .error (store.grammarFault mnemonic "width must be 1 to 8")
            else .ok found) (fun count left _ _ => ?_) fun tail _ => ?_
        · by_cases hwidth : count = 0 ∨ Instruction.maxWidth < count
          · exact .fault _ fun _ _ => if_pos hwidth
          · exact .pure ⟨count, fun _ _ => if_neg hwidth⟩
        · simp only [readWidthSuffix, hstar]
          cases store.readCount mnemonic (line ++ tail) <;> rfl
      · exact .pure ⟨1, fun _ _ => if_neg hstar⟩

theorem onLine_skipComma :
    store.OnLine (fun tokens => .ok ((), store.skipComma tokens)) := by
  intro line ending hline hending
  cases line with
  | nil =>
      exact hending.value () rfl fun token hkind below => by simp [skipComma, nextKind, hkind]
  | cons token line =>
      by_cases hcomma : store.kind token = .comma
      · exact .cons_ok ⟨(), fun rest => by simp [skipComma, nextKind, hcomma]⟩
      · exact .pure ⟨(), fun tail _ => by simp [skipComma, nextKind, hcomma]⟩

theorem length_lt_of_readTerm {cause : TokenId} {term : Term} {left : List TokenId}
    (hread : ∀ tail, tail.head? = ending →
      store.readTerm cause (line ++ tail) = .ok (term, left ++ tail)) :
    left.length < line.length := by
  have hlt := length_readTerm_lt (hread ending.toList (Option.head?_toList))
  simpa using hlt

theorem onLine_takeItems (typeToken : TokenId) (type : DataType) :
    store.OnLine (store.takeItems typeToken type) := by
  intro line ending hline hending
  induction hlength : line.length using Nat.strong_induction_on generalizing line with
  | h n ih =>
  cases line with
  | nil =>
      exact hending.value [] (takeItems_end rfl) fun token hkind _ =>
        takeItems_end (atLineEnd_cons.mpr hkind)
  | cons token line =>
      refine (onLine_readTerm typeToken _ ending hline hending).bind _
        (fun item left hleft hread => ?_)
        fun _ _ => takeItems_more (mt atLineEnd_cons.mp (isLine_cons.mp hline).1)
      -- an item takes a token, so the induction is on the length of what is left of the line
      have hlt := hlength ▸ length_lt_of_readTerm hread
      by_cases hvalue : item.written = .placeholder
      · exact .fault _ fun _ _ => if_pos hvalue
      · have hleftLine := hline.of_suffix hleft
        refine (onLine_skipComma left ending hleftLine hending).bind
          (fun found => (store.takeItems typeToken type found.2).map
            (Prod.map (.data type item :: ·) id)) (fun _ left' hleft' _ => ?_)
          fun _ _ => if_neg hvalue
        have hlt' := Nat.lt_of_le_of_lt hleft'.length_le hlt
        exact (ih _ hlt' left' (hleftLine.of_suffix hleft') rfl).map (.data type item :: ·)
          fun _ _ => rfl

theorem onLine_takeTerms (mnemonic : TokenId) (afterArrow : Bool) :
    store.OnLine (store.takeTerms mnemonic afterArrow) := by
  intro line ending hline hending
  induction hlength : line.length using Nat.strong_induction_on generalizing line afterArrow with
  | h n ih =>
  cases line with
  | nil =>
      exact hending.value _ (takeTerms_end rfl) fun token hkind _ =>
        takeTerms_end (atLineEnd_cons.mpr hkind)
  | cons token line =>
      have hrest := (isLine_cons.mp hline).2
      by_cases harrow : store.kind token = .arrow
      · cases afterArrow with
        | true => exact .cons_error ⟨_, fun _ => takeTerms_arrow harrow⟩
        | false =>
            refine .cons ?_
            simp only [takeTerms_arrow harrow]
            exact ih _ (hlength ▸ Nat.lt_succ_self _) true line hrest rfl
      · refine (onLine_readTerm mnemonic _ ending hline hending).bind _
          (fun term left hleft hread => ?_)
          fun _ _ => takeTerms_more (isLine_cons.mp hline).1 harrow
        have hlt := hlength ▸ length_lt_of_readTerm hread
        have hleftLine := hline.of_suffix hleft
        -- behind an operand the line ends, or a comma or an arrow comes
        cases left with
        | nil =>
            refine hending.value (addTerm afterArrow term ([], [])) ?_ fun next hkind below => ?_
            · exact congrArg (Except.map _) (takeTerms_end rfl)
            · have hend : store.atLineEnd (next :: below) = true := atLineEnd_cons.mpr hkind
              simp [nextKind, hkind, hend, takeTerms_end, Except.map]
        | cons next left =>
            have hleft' := isLine_cons.mp hleftLine
            by_cases hcomma : store.kind next = .comma
            · refine .cons ?_
              exact (ih _ (Nat.lt_of_succ_lt hlt) afterArrow left hleft'.2 rfl).map
                (addTerm afterArrow term) fun _ _ => if_pos (nextKind_cons.mpr hcomma)
            · by_cases harrow' : store.kind next = .arrow
              · exact (ih _ hlt afterArrow (next :: left) hleftLine rfl).map
                  (addTerm afterArrow term) fun _ _ => by simp [nextKind, harrow']
              · exact .cons_error (by simp [nextKind, hcomma, harrow', atLineEnd_cons, hleft'.1])

end TokenStore

/-- A reader of whole lines makes the same of a line whatever stands behind the token that ends it,
and leaves that. -/
def WholeLine (read : List TokenId → Except AssemblyError (WithRest α)) (line : List TokenId)
    (ending : Option TokenId) : Prop :=
  ∃ outcome : Except AssemblyError α,
    ∀ tail, tail.head? = ending → read (line ++ tail) = outcome.map (·, tail.tail)

namespace WholeLine

variable {read : List TokenId → Except AssemblyError (WithRest α)}
  {other : List TokenId → Except AssemblyError (WithRest β)}

theorem cons (hwhole : WholeLine (fun rest => read (token :: rest)) line ending) :
    WholeLine read (token :: line) ending :=
  hwhole

theorem error (hread : ∃ fault, ∀ tail, read (line ++ tail) = .error fault) :
    WholeLine read line ending := by
  obtain ⟨fault, hread⟩ := hread
  exact ⟨.error fault, fun tail _ => hread tail⟩

theorem map (hwhole : WholeLine read line ending) (f : α → β)
    (hother : ∀ tail, other (line ++ tail) = (read (line ++ tail)).map (Prod.map f id)) :
    WholeLine other line ending := by
  obtain ⟨outcome, hread⟩ := hwhole
  refine ⟨outcome.map f, fun tail htail => ?_⟩
  rw [hother, hread tail htail]
  cases outcome <;> rfl

/-- Reading a piece of the line before the rest of it. -/
theorem bind (hlocal : LineLocal read line ending)
    (next : WithRest α → Except AssemblyError (WithRest β))
    (hnext : ∀ value left, left <:+ line →
      (∀ tail, tail.head? = ending → read (line ++ tail) = .ok (value, left ++ tail)) →
        WholeLine (fun rest => next (value, rest)) left ending)
    (hother : ∀ tail, other (line ++ tail) = read (line ++ tail) >>= next) :
    WholeLine other line ending := by
  cases hlocal with
  | fault fault hread =>
      exact ⟨.error fault, fun tail htail => by rw [hother, hread tail htail]; rfl⟩
  | value value hleft hread =>
      obtain ⟨outcome, hnext⟩ := hnext value _ hleft hread
      refine ⟨outcome, fun tail htail => ?_⟩
      rw [hother, hread tail htail]
      exact hnext tail htail

/-- What is read up to the end of the line leaves nothing of it. -/
theorem of_stops {read' : List TokenId → Except AssemblyError α}
    (hlocal : LineLocal read line ending) (hline : store.IsLine line)
    (hending : store.IsEnding ending)
    (hstops : ∀ tokens, store.StopsAtEnd (read tokens) (read' tokens))
    (next : WithRest α → Except AssemblyError (WithRest β))
    (hnext : ∀ value, ∃ outcome : Except AssemblyError β, ∀ rest,
      store.endLine rest = .ok rest.tail → next (value, rest) = outcome.map (·, rest.tail))
    (hother : ∀ tail, other (line ++ tail) = read (line ++ tail) >>= next) :
    WholeLine other line ending := by
  refine bind hlocal next (fun value left hleft hread => ?_) hother
  have hend := hread ending.toList Option.head?_toList ▸ hstops (line ++ ending.toList)
  obtain rfl : left = [] := (hline.of_suffix hleft).eq_nil hend.atLineEnd
  obtain ⟨outcome, hnext⟩ := hnext value
  exact ⟨outcome, fun tail htail =>
    hnext tail (TokenStore.endLine_of_atLineEnd (hending.atLineEnd htail))⟩

end WholeLine

namespace TokenStore

theorem whole_takeData (typeToken : TokenId) (hline : store.IsLine line)
    (hending : store.IsEnding ending) : WholeLine (store.takeData typeToken) line ending := by
  cases htype : store.readType typeToken with
  | error fault => exact .error ⟨fault, fun _ => by rw [takeData, htype]; rfl⟩
  | ok type =>
      cases line with
      | nil =>
          refine ⟨.error (store.grammarFault typeToken "declaration has no values"), ?_⟩
          intro tail htail
          rw [takeData, htype]
          exact if_pos (hending.atLineEnd htail)
      | cons token line =>
          refine .of_stops (onLine_takeItems typeToken type _ ending hline hending) hline hending
            (stopsAtEnd_takeItems typeToken type) _ (fun items => ?_) fun tail => by
              rw [takeData, htype]
              exact if_neg (mt atLineEnd_cons.mp (isLine_cons.mp hline).1)
          exact ⟨.ok items, fun rest hrest => congrArg (Except.map _) hrest⟩

theorem whole_takeInstruction (mnemonic : TokenId) (hline : store.IsLine line)
    (hending : store.IsEnding ending) : WholeLine (store.takeInstruction mnemonic) line ending := by
  cases hopcode : Opcode.parse? (store.text mnemonic) with
  | none => exact .error ⟨_, fun _ => by rw [takeInstruction, hopcode]⟩
  | some opcode =>
      refine .bind (onLine_readTypeSuffix line ending hline hending) _
        (fun type behindType hsuffix _ => ?_) fun tail => by rw [takeInstruction, hopcode]
      have hline := hline.of_suffix hsuffix
      refine .bind (onLine_readWidthSuffix mnemonic behindType ending hline hending) _
        (fun width behindWidth hsuffix _ => ?_) fun tail => rfl
      have hline := hline.of_suffix hsuffix
      refine .of_stops (onLine_takeTerms mnemonic false behindWidth ending hline hending) hline
        hending (stopsAtEnd_takeTerms mnemonic false) _ (fun terms => ?_) fun tail => rfl
      obtain ⟨inputs, outputs⟩ := terms
      by_cases hcounts : opcode.template.inputs.length < inputs.length ∨
          opcode.template.outputs.length < outputs.length
      · exact ⟨.error _, fun rest hrest => by simp only [hrest, if_pos hcounts]; rfl⟩
      · exact ⟨.ok _, fun rest hrest => by simp only [hrest, if_neg hcounts]; rfl⟩

theorem whole_takeLine (hline : store.IsLine line) (hending : store.IsEnding ending) :
    WholeLine store.takeLine line ending := by
  induction line with
  | nil =>
      refine ⟨.ok [], fun tail htail => ?_⟩
      cases tail with
      | nil => rfl
      | cons token below => simp [takeLine, hending token htail.symm, Except.map]
  | cons token line ih =>
      obtain ⟨hend, hline⟩ := isLine_cons.mp hline
      cases hkind : store.kind token with
      | lineEnd => contradiction
      | label => exact .cons ((ih hline).map (.label token :: ·) fun _ => by simp [takeLine, hkind])
      | position =>
          exact .cons ((ih hline).map (.position token :: ·) fun _ => by simp [takeLine, hkind])
      | type =>
          refine .cons ?_
          simpa only [takeLine, hkind] using whole_takeData token hline hending
      | word =>
          exact .cons ((whole_takeInstruction token hline hending).map ([·]) fun _ => by
            simp [takeLine, hkind])
      | _ => exact .error (by simp [takeLine, hkind])

end TokenStore

end VectorStack
