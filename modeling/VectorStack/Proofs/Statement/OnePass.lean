import VectorStack.Assembly.Statement
import VectorStack.Proofs.Layout.Traced
/-!
Reading a line where it stands. Lines are cut before they are read; a reader that is given all the
tokens that are left, and gives back those behind the line, reads the same statements and finds the
same faults. It does not look for the end of the line before it comes there.
-/

namespace VectorStack.TokenStore

/-- Go behind the end of a line on which nothing is left. -/
def endLine (store : TokenStore) : List TokenId → Except AssemblyError (List TokenId)
  | [] => .ok []
  | token :: rest =>
    if store.kind token = .lineEnd then .ok rest
    else .error (store.unexpectedFault token "the end of the line")

/-- Go behind a comma that comes next. -/
def skipComma (store : TokenStore) (tokens : List TokenId) : List TokenId :=
  if store.nextKind tokens = some .comma then tokens.drop 1 else tokens

theorem length_skipComma_le (store : TokenStore) (tokens : List TokenId) :
    (store.skipComma tokens).length ≤ tokens.length := by
  rw [skipComma]
  split
  · simp
  · exact Nat.le_refl _

/-- Read the items of a declaration, up to the end of its line. -/
def takeItems (store : TokenStore) (typeToken : TokenId) (type : DataType)
    (tokens : List TokenId) : Except AssemblyError (WithRest (List Statement)) :=
  if store.atLineEnd tokens then .ok ([], tokens)
  else
    match _read : store.readTerm typeToken tokens with
    | .error fault => .error fault
    | .ok (item, rest) =>
      if item.written = .placeholder then
        .error (store.grammarFault item.token "`_` is not a value")
      else
        (store.takeItems typeToken type (store.skipComma rest)).map
          (Prod.map (.data type item :: ·) id)
termination_by tokens.length
decreasing_by exact Nat.lt_of_le_of_lt (length_skipComma_le store rest) (length_readTerm_lt _read)

/-- Read a declaration and the end of its line. -/
def takeData (store : TokenStore) (typeToken : TokenId) (tokens : List TokenId) :
    Except AssemblyError (WithRest (List Statement)) := do
  let type ← store.readType typeToken
  if store.atLineEnd tokens then
    .error (store.grammarFault typeToken "declaration has no values")
  else
    let (items, rest) ← store.takeItems typeToken type tokens
    (store.endLine rest).map (items, ·)

/-- Put an operand before the others on its side of an arrow. -/
def addTerm (afterArrow : Bool) (term : Term) (terms : List Term × List Term) :
    List Term × List Term :=
  if afterArrow then (terms.1, term :: terms.2) else (term :: terms.1, terms.2)

/-- Read the operands of an instruction, up to the end of its line. -/
def takeTerms (store : TokenStore) (mnemonic : TokenId) (afterArrow : Bool)
    (tokens : List TokenId) : Except AssemblyError (WithRest (List Term × List Term)) :=
  if store.atLineEnd tokens then .ok (([], []), tokens)
  else if store.nextKind tokens = some .arrow then
    if afterArrow then .error (store.grammarFault (tokens.headD mnemonic) "second `->`")
    else store.takeTerms mnemonic true (tokens.drop 1)
  else
    match _read : store.readTerm mnemonic tokens with
    | .error fault => .error fault
    | .ok (term, rest) =>
      let add := Prod.map (addTerm afterArrow term) id
      if store.nextKind rest = some .comma then
        (store.takeTerms mnemonic afterArrow (rest.drop 1)).map add
      else if store.atLineEnd rest ∨ store.nextKind rest = some .arrow then
        (store.takeTerms mnemonic afterArrow rest).map add
      else
        .error (store.unexpectedFault (rest.headD mnemonic) "`,`, `->` or the end of the line")
termination_by tokens.length
decreasing_by
  · cases tokens with
    | nil => contradiction
    | cons first behind => simp
  · have := length_readTerm_lt _read
    simp only [List.length_drop]
    omega
  · exact length_readTerm_lt _read

/-- Read an instruction and the end of its line. -/
def takeInstruction (store : TokenStore) (mnemonic : TokenId) (tokens : List TokenId) :
    Except AssemblyError (WithRest Statement) := do
  let name := store.text mnemonic
  match Opcode.parse? name with
  | none => .error (store.grammarFault mnemonic ("unknown instruction `" ++ name ++ "`"))
  | some opcode =>
    let (type, rest) ← store.readTypeSuffix tokens
    let (width, rest) ← store.readWidthSuffix mnemonic rest
    let ((inputs, outputs), rest) ← store.takeTerms mnemonic false rest
    let below ← store.endLine rest
    let template := opcode.template
    if template.inputs.length < inputs.length ∨ template.outputs.length < outputs.length then
      .error (store.grammarFault mnemonic ("`" ++ name ++ "` takes " ++
        Nat.repr template.inputs.length ++ " inputs and " ++
        Nat.repr template.outputs.length ++ " outputs"))
    else .ok (.instruction ⟨opcode, mnemonic, type, width, inputs, outputs⟩, below)

/-- Read the statements of the first line and its end. -/
def takeLine (store : TokenStore) : List TokenId → Except AssemblyError (WithRest (List Statement))
  | [] => .ok ([], [])
  | token :: rest =>
    match store.kind token with
    | .lineEnd => .ok ([], rest)
    | .label => (store.takeLine rest).map (Prod.map (.label token :: ·) id)
    | .position => (store.takeLine rest).map (Prod.map (.position token :: ·) id)
    | .type => store.takeData token rest
    | .word => (store.takeInstruction token rest).map (Prod.map ([·]) id)
    | _ => .error (store.unexpectedFault token "a label, declaration or instruction")

/-- Reading line after line until no token is left or one of them is at fault; a reading that goes
on for ever has no outcome. -/
inductive TakesLines (store : TokenStore) :
    List TokenId → Except AssemblyError (List Statement) → Prop
  | done : TakesLines store [] (.ok [])
  | fault {token : TokenId} {rest : List TokenId} {fault : AssemblyError}
      (hline : store.takeLine (token :: rest) = .error fault) :
      TakesLines store (token :: rest) (.error fault)
  | line {token : TokenId} {rest below : List TokenId} {statements : List Statement}
      {outcome : Except AssemblyError (List Statement)}
      (hline : store.takeLine (token :: rest) = .ok (statements, below))
      (hbelow : TakesLines store below outcome) :
      TakesLines store (token :: rest) (outcome.map (statements ++ ·))

/-- A reader has one outcome for the tokens that it is given. -/
theorem TakesLines.unique {store : TokenStore} {tokens : List TokenId}
    {outcome other : Except AssemblyError (List Statement)}
    (houtcome : TakesLines store tokens outcome) (hother : TakesLines store tokens other) :
    outcome = other := by
  induction houtcome generalizing other with
  | done =>
      cases hother with
      | done => rfl
  | fault hline =>
      cases hother with
      | fault hline' => simpa [hline] using hline'
      | line hline' _ => simp [hline] at hline'
  | line hline _ ih =>
      cases hother with
      | fault hline' => simp [hline] at hline'
      | line hline' hbelow =>
          obtain ⟨rfl, rfl⟩ : _ ∧ _ := by simpa [hline] using hline'
          rw [ih hbelow]

section Agreement

variable {α β : Type} {store : TokenStore} {token mnemonic : TokenId} {type : DataType}
  {item term : Term} {afterArrow : Bool} {tokens rest : List TokenId} {fault : AssemblyError}

theorem atLineEnd_cons : store.atLineEnd (token :: rest) = true ↔ store.kind token = .lineEnd := by
  simp only [atLineEnd, nextKind, List.head?_cons, Option.map_some]
  split <;> simp_all

theorem nextKind_cons {kind : TokenKind} :
    store.nextKind (token :: rest) = some kind ↔ store.kind token = kind :=
  Option.some_inj

theorem takeItems_end (hend : store.atLineEnd tokens = true) :
    store.takeItems token type tokens = .ok ([], tokens) := by
  rw [takeItems, if_pos hend]

theorem takeItems_more (hmore : ¬store.atLineEnd tokens = true) :
    store.takeItems token type tokens = store.readTerm token tokens >>= fun (item, rest) =>
      if item.written = .placeholder then
        .error (store.grammarFault item.token "`_` is not a value")
      else
        (store.takeItems token type (store.skipComma rest)).map
          (Prod.map (.data type item :: ·) id) := by
  rw [takeItems, if_neg hmore]
  split
  · next hread => rw [hread]; rfl
  · next hread => rw [hread]; rfl

theorem takeTerms_end (hend : store.atLineEnd tokens = true) :
    store.takeTerms mnemonic afterArrow tokens = .ok (([], []), tokens) := by
  rw [takeTerms, if_pos hend]

theorem takeTerms_more (hend : store.kind token ≠ .lineEnd) (harrow : store.kind token ≠ .arrow) :
    store.takeTerms mnemonic afterArrow (token :: tokens) =
      store.readTerm mnemonic (token :: tokens) >>= fun (term, rest) =>
        if store.nextKind rest = some .comma then
          (store.takeTerms mnemonic afterArrow (rest.drop 1)).map
            (Prod.map (addTerm afterArrow term) id)
        else if store.atLineEnd rest ∨ store.nextKind rest = some .arrow then
          (store.takeTerms mnemonic afterArrow rest).map (Prod.map (addTerm afterArrow term) id)
        else
          .error (store.unexpectedFault (rest.headD mnemonic)
            "`,`, `->` or the end of the line") := by
  rw [takeTerms, if_neg (mt atLineEnd_cons.mp hend), if_neg (mt nextKind_cons.mp harrow)]
  split
  · next hread => rw [hread]; rfl
  · next hread => rw [hread]; rfl

theorem takeTerms_arrow (harrow : store.kind token = .arrow) :
    store.takeTerms mnemonic afterArrow (token :: tokens) =
      if afterArrow then .error (store.grammarFault token "second `->`")
      else store.takeTerms mnemonic true tokens := by
  rw [takeTerms, if_neg (by simp [atLineEnd_cons, harrow]), if_pos (nextKind_cons.mpr harrow)]
  rfl

/-- Of two readings: the same fault, or the same value, and the one that says what it leaves has
come to the end of the line. -/
inductive StopsAtEnd (store : TokenStore) :
    Except AssemblyError (WithRest α) → Except AssemblyError α → Prop
  | fault (fault : AssemblyError) : StopsAtEnd store (.error fault) (.error fault)
  | value (value : α) {rest : List TokenId} (hrest : store.atLineEnd rest = true) :
      StopsAtEnd store (.ok (value, rest)) (.ok value)

theorem StopsAtEnd.atLineEnd {value : α} {read : Except AssemblyError α}
    (hstops : StopsAtEnd store (.ok (value, rest)) read) : store.atLineEnd rest = true := by
  cases hstops with
  | value _ hrest => exact hrest

theorem StopsAtEnd.map {taken : Except AssemblyError (WithRest α)} {read : Except AssemblyError α}
    (hstops : StopsAtEnd store taken read) (f : α → β) :
    StopsAtEnd store (taken.map (Prod.map f id)) (read.map f) := by
  cases hstops with
  | fault fault => exact .fault fault
  | value value hrest => exact .value (f value) hrest

theorem stopsAtEnd_takeItems (typeToken : TokenId) (type : DataType) (tokens : List TokenId) :
    StopsAtEnd store (store.takeItems typeToken type tokens)
      (store.readItems typeToken type tokens) := by
  fun_induction readItems store typeToken type tokens with
  | case1 tokens hend =>
      rw [takeItems_end hend]
      exact .value [] hend
  | case2 tokens hmore fault hread =>
      rw [takeItems_more hmore, hread]
      exact .fault fault
  | case3 tokens hmore item rest hread hplaceholder =>
      rw [takeItems_more hmore, hread]
      change StopsAtEnd store (ite _ _ _) _
      rw [if_pos hplaceholder]
      exact .fault _
  | case4 tokens hmore item rest hread hvalue rest' ih =>
      rw [takeItems_more hmore, hread]
      change StopsAtEnd store (ite _ _ _) _
      rw [if_neg hvalue]
      exact ih.map _

theorem stopsAtEnd_takeTerms (mnemonic : TokenId) (afterArrow : Bool) (tokens : List TokenId) :
    StopsAtEnd store (store.takeTerms mnemonic afterArrow tokens)
      (store.readTerms mnemonic afterArrow tokens) := by
  fun_induction readTerms store mnemonic afterArrow tokens with
  | case1 =>
      rw [takeTerms_end rfl]
      exact .value _ rfl
  | case2 afterArrow first behind hend =>
      rw [takeTerms_end (atLineEnd_cons.mpr hend)]
      exact .value _ (atLineEnd_cons.mpr hend)
  | case3 first behind hend harrow =>
      rw [takeTerms_arrow harrow, if_pos rfl]
      exact .fault _
  | case4 afterArrow first behind hend harrow hfirst ih =>
      rw [takeTerms_arrow harrow, if_neg hfirst]
      exact ih
  | case5 afterArrow first behind hend harrow fault hread =>
      rw [takeTerms_more hend harrow, hread]
      exact .fault fault
  | case6 afterArrow first behind hend harrow term add hread =>
      rw [takeTerms_more hend harrow, hread]
      change StopsAtEnd store ((store.takeTerms mnemonic afterArrow []).map _) _
      rw [takeTerms_end rfl]
      exact .value _ rfl
  | case7 afterArrow first behind hend harrow term add next left hread hcomma _ ih =>
      rw [takeTerms_more hend harrow, hread]
      change StopsAtEnd store (ite _ _ _) _
      rw [if_pos (nextKind_cons.mpr hcomma)]
      exact ih.map _
  | case8 afterArrow first behind hend harrow term add next left hread hkind _ ih =>
      rw [takeTerms_more hend harrow, hread]
      change StopsAtEnd store (ite _ _ _) _
      rw [if_neg (by simp [nextKind_cons, hkind]), if_pos (.inl (atLineEnd_cons.mpr hkind))]
      exact ih.map _
  | case9 afterArrow first behind hend harrow term add next left hread hkind _ ih =>
      rw [takeTerms_more hend harrow, hread]
      change StopsAtEnd store (ite _ _ _) _
      rw [if_neg (by simp [nextKind_cons, hkind]), if_pos (.inr (nextKind_cons.mpr hkind))]
      exact ih.map _
  | case10 afterArrow first behind hend harrow term next left hread hcomma hline harrow' =>
      rw [takeTerms_more hend harrow, hread]
      change StopsAtEnd store (ite _ _ _) _
      rw [if_neg (mt nextKind_cons.mp hcomma),
        if_neg (not_or.mpr ⟨mt atLineEnd_cons.mp hline, mt nextKind_cons.mp harrow'⟩)]
      exact .fault _

theorem map_bind_eq {x : Except AssemblyError α} {γ : Type} {next : α → Except AssemblyError β}
    {f : β → γ} {other : α → Except AssemblyError γ} (hnext : ∀ a, (next a).map f = other a) :
    (x >>= next).map f = x >>= other := by
  cases x with
  | error fault => rfl
  | ok a => exact hnext a

theorem map_fst_map (x : Except AssemblyError (WithRest α)) (f : α → β) :
    (x.map (Prod.map f id)).map Prod.fst = (x.map Prod.fst).map f := by
  cases x <;> rfl

theorem endLine_of_atLineEnd (hend : store.atLineEnd tokens = true) :
    store.endLine tokens = .ok tokens.tail := by
  cases tokens with
  | nil => rfl
  | cons token rest => exact if_pos (atLineEnd_cons.mp hend)

/-- Going behind the end of the line does not change what is made of a value that is read up to
it. -/
theorem StopsAtEnd.map_fst_bind {taken : Except AssemblyError (WithRest α)}
    {read : Except AssemblyError α} (hstops : StopsAtEnd store taken read)
    {next : WithRest α → Except AssemblyError (WithRest β)} {make : α → Except AssemblyError β}
    (hnext : ∀ value rest, store.endLine rest = .ok rest.tail →
      (next (value, rest)).map Prod.fst = make value) :
    (taken >>= next).map Prod.fst = read >>= make := by
  cases hstops with
  | fault fault => rfl
  | value value hrest => exact hnext value _ (endLine_of_atLineEnd hrest)

theorem map_fst_takeData (typeToken : TokenId) (tokens : List TokenId) :
    (store.takeData typeToken tokens).map Prod.fst = store.readData typeToken tokens := by
  rw [takeData, readData]
  cases store.readType typeToken with
  | error fault => rfl
  | ok type =>
      change (ite _ _ _ : Except _ _).map _ = _
      split
      · rfl
      · calc (store.takeItems typeToken type tokens >>= fun (items, rest) =>
              (store.endLine rest).map (items, ·)).map Prod.fst
          _ = store.readItems typeToken type tokens >>= pure :=
            (stopsAtEnd_takeItems typeToken type tokens).map_fst_bind
              fun items rest hrest => by simp only [hrest]; rfl
          _ = store.readItems typeToken type tokens := bind_pure _

theorem map_fst_takeInstruction (mnemonic : TokenId) (tokens : List TokenId) :
    (store.takeInstruction mnemonic tokens).map Prod.fst =
      store.readInstruction mnemonic tokens := by
  rw [takeInstruction, readInstruction]
  cases Opcode.parse? (store.text mnemonic) with
  | none => rfl
  | some opcode =>
      refine map_bind_eq fun (type, behindType) => map_bind_eq fun (width, behindWidth) => ?_
      refine (stopsAtEnd_takeTerms mnemonic false behindWidth).map_fst_bind ?_
      rintro ⟨inputs, outputs⟩ rest hrest
      dsimp only
      rw [hrest]
      change (ite _ _ _ : Except _ _).map _ = _
      split <;> rfl

/-- Reading the first line where it stands is reading it as far as its values go. -/
theorem map_fst_takeLine (tokens : List TokenId) :
    (store.takeLine tokens).map Prod.fst = store.readLine tokens := by
  induction tokens with
  | nil => rfl
  | cons token rest ih =>
      rw [takeLine, readLine]
      cases store.kind token with
      | lineEnd => rfl
      | label | position => rw [map_fst_map, ih]
      | type => exact map_fst_takeData token rest
      | word => rw [map_fst_map, map_fst_takeInstruction]
      | _ => rfl

end Agreement

end VectorStack.TokenStore
