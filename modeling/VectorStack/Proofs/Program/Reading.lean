import VectorStack.Assembly
import VectorStack.Proofs.Checked
import VectorStack.Proofs.Expansion.Idempotence
import VectorStack.Proofs.Token.Numeral
import VectorStack.Proofs.Token.Pieces
/-!
Reading instructions on numbers. A name is read as what it names, a numeral as its number, and a
line of both as the instruction that it spells. A text with nothing to expand is read as it is cut.
-/

namespace VectorStack

open Lexer (IsWord)

/-- Names of operations are words. -/
theorem Opcode.isWord_mnemonic (op : Opcode) : IsWord op.mnemonic.toList := by
  unfold mnemonic
  split <;> decide

theorem Opcode.parse?_mnemonic {op : Opcode} (hop : op ≠ .invalid) :
    parse? op.mnemonic = some op := by
  have hall : ∀ op ∈ operations, parse? op.mnemonic = some op := by decide
  exact hall op (mem_operations hop)

/-- Names of types are words. -/
theorem DataType.isWord_name (type : DataType) : IsWord type.name.toList := by
  cases type <;> decide

theorem DataType.parse?_name {type : DataType} (htype : type.isSupported = true) :
    parse? type.name = some type := by
  cases type with
  | unsupported => cases htype
  | _ => decide

/-- An operand that is a number. -/
def Term.ofNumber (token : TokenId) : Term := ⟨.literal token false, token, 1⟩

/-- An operation on two numbers; its result goes to the stack. -/
def InstructionStatement.onNumbers (op : BinaryOp) (token : TokenId) (type : DataType) (width : Nat)
    (first second : TokenId) : InstructionStatement :=
  ⟨.binary op, token, some type, width, [.ofNumber first, .ofNumber second], []⟩

namespace TokenStore

variable {store : TokenStore} {token number next : TokenId} {rest : List TokenId}

theorem readType_name {type : DataType} (htype : type.isSupported = true)
    (hchars : store.chars token = ':' :: type.name.toList) : store.readType token = .ok type := by
  have hname : String.ofList ((store.chars token).drop 1) = type.name := by
    rw [hchars, List.drop_one, List.tail_cons, String.ofList_toList]
  rw [readType, hname, DataType.parse?_name htype]

theorem readCount_numeral (cause : TokenId) {n : Nat} (hkind : store.kind token = .number)
    (hnumeral : Numeral (store.chars token) n) (hlt : n < UInt32.size) :
    store.readCount cause (token :: rest) = .ok (n, rest) := by
  have hsmall : n < 2 ^ 32 := hlt
  rw [readCount, if_pos hkind, Number.natural?_numeral hnumeral (by omega)]
  exact if_pos hlt

theorem readTypeSuffix_name {type : DataType} (htype : type.isSupported = true)
    (hkind : store.kind token = .type) (hchars : store.chars token = ':' :: type.name.toList) :
    store.readTypeSuffix (token :: rest) = .ok (some type, rest) := by
  rw [readTypeSuffix, if_pos hkind, readType_name htype hchars]
  rfl

theorem readWidthSuffix_numeral (mnemonic : TokenId) {width : Nat}
    (hstar : store.kind token = .star) (hkind : store.kind number = .number)
    (hnumeral : Numeral (store.chars number) width) (hpos : 1 ≤ width)
    (hle : width ≤ Instruction.maxWidth) :
    store.readWidthSuffix mnemonic (token :: number :: rest) = .ok (width, rest) := by
  have hmax : Instruction.maxWidth = 8 := rfl
  have hsize : UInt32.size = 4294967296 := rfl
  rw [readWidthSuffix, if_pos hstar, readCount_numeral mnemonic hkind hnumeral (by omega)]
  exact if_neg (by omega)

/-- A number is an operand of its own unless a star follows it. -/
theorem readTerm_number (cause : TokenId) (rest : List TokenId)
    (hkind : store.kind number = .number) (hnext : store.kind next ≠ .star) :
    store.readTerm cause (number :: next :: rest) = .ok (.ofNumber number, next :: rest) := by
  have hwritten : store.readWritten cause (number :: next :: rest) =
      .ok (.literal number false, next :: rest) := by
    rw [readWritten, hkind]
  rw [readTerm, hwritten]
  exact if_neg hnext

theorem readTerms_end (mnemonic : TokenId) (hkind : store.kind token = .lineEnd) :
    store.readTerms mnemonic false (token :: rest) = .ok ([], []) := by
  rw [readTerms, if_pos hkind]

/-- The last operand of an instruction. -/
theorem readTerms_last (mnemonic : TokenId) (rest : List TokenId)
    (hkind : store.kind number = .number) (hend : store.kind next = .lineEnd) :
    store.readTerms mnemonic false (number :: next :: rest) = .ok ([.ofNumber number], []) := by
  have hterm := readTerm_number mnemonic rest hkind (by rw [hend]; decide)
  rw [readTerms, if_neg (by rw [hkind]; decide), if_neg (by rw [hkind]; decide)]
  split
  · next hread =>
      rw [hterm] at hread
      cases hread
  · next term tokens hread =>
      rw [hterm] at hread
      cases hread
      simp only [hend, readTerms_end mnemonic hend]
      rfl

/-- An operand before a comma comes before the others. -/
theorem readTerms_comma (mnemonic : TokenId) (hkind : store.kind number = .number)
    (hcomma : store.kind next = .comma) {terms : List Term}
    (hrest : store.readTerms mnemonic false rest = .ok (terms, [])) :
    store.readTerms mnemonic false (number :: next :: rest) =
      .ok (.ofNumber number :: terms, []) := by
  have hterm := readTerm_number mnemonic rest hkind (by rw [hcomma]; decide)
  rw [readTerms, if_neg (by rw [hkind]; decide), if_neg (by rw [hkind]; decide)]
  split
  · next hread =>
      rw [hterm] at hread
      cases hread
  · next term tokens hread =>
      rw [hterm] at hread
      cases hread
      simp only [hcomma, hrest]
      rfl

/-- An instruction is what its parts are read as. -/
theorem readInstruction_eq {mnemonic : TokenId} {tokens afterType afterWidth : List TokenId}
    {op : Opcode} {type : Option DataType} {width : Nat} {inputs outputs : List Term}
    (hop : op ≠ .invalid) (hname : store.chars mnemonic = op.mnemonic.toList)
    (htype : store.readTypeSuffix tokens = .ok (type, afterType))
    (hwidth : store.readWidthSuffix mnemonic afterType = .ok (width, afterWidth))
    (hterms : store.readTerms mnemonic false afterWidth = .ok (inputs, outputs))
    (hinputs : inputs.length ≤ op.template.inputs.length)
    (houtputs : outputs.length ≤ op.template.outputs.length) :
    store.readInstruction mnemonic tokens =
      .ok (.instruction ⟨op, mnemonic, type, width, inputs, outputs⟩) := by
  have hparse : Opcode.parse? (store.text mnemonic) = some op := by
    rw [text, hname, String.ofList_toList, Opcode.parse?_mnemonic hop]
  rw [readInstruction, hparse]
  refine bind_eq_ok.mpr ⟨_, htype, bind_eq_ok.mpr ⟨_, hwidth, bind_eq_ok.mpr ⟨_, hterms, ?_⟩⟩⟩
  exact if_neg (by omega)

theorem readLine_word (hkind : store.kind token = .word) {statement : Statement}
    (hread : store.readInstruction token rest = .ok statement) :
    store.readLine (token :: rest) = .ok [statement] := by
  rw [readLine, hkind]
  simp only [hread]
  rfl

/-- A line goes up to its end. -/
theorem lines_append {line : List TokenId} (rest : List TokenId)
    (hline : ∀ token ∈ line, store.kind token ≠ .lineEnd)
    (hend : store.kind next = .lineEnd) :
    store.lines (line ++ next :: rest) = (line ++ [next]) :: store.lines rest := by
  induction line with
  | nil =>
      rw [List.nil_append, lines, if_pos hend]
      rfl
  | cons token others ih =>
      rw [List.cons_append, lines, if_neg (hline token List.mem_cons_self),
        ih fun other hmem => hline other (List.mem_cons_of_mem _ hmem)]
      rfl

end TokenStore

/-- An instruction on two numbers, and a halt behind it. -/
def arithmeticText (op : BinaryOp) (type : DataType) (width : Nat) (first second : String) :
    String :=
  (Opcode.binary op).mnemonic ++ ":" ++ type.name ++ "*" ++ Nat.repr width ++ " " ++ first ++
    ", " ++ second ++ "\nhalt\n"

variable {type : DataType} {width a b : Nat} {first second : String}

/-- The pieces of the text of an instruction on two numbers. -/
def arithmeticPieces (op : BinaryOp) (type : DataType) (width : Nat) (first second : String) :
    List (TokenKind × List Char) :=
  [(.word, (Opcode.binary op).mnemonic.toList), (.type, ':' :: type.name.toList), (.star, ['*']),
    (.number, (Nat.repr width).toList), (.number, first.toList), (.comma, [',']),
    (.number, second.toList), (.lineEnd, ['\n']), (.word, Opcode.halt.mnemonic.toList),
    (.lineEnd, ['\n'])]

theorem cuts_arithmeticText (op : BinaryOp) (type : DataType) (width : Nat)
    (hfirst : Numeral first.toList a) (hsecond : Numeral second.toList b) :
    Lexer.Cuts (arithmeticText op type width first second).toList
      (arithmeticPieces op type width first second) := by
  have htext : (arithmeticText op type width first second).toList =
      (Opcode.binary op).mnemonic.toList ++ (':' :: (type.name.toList ++ ('*' ::
        ((Nat.repr width).toList ++ (' ' :: (first.toList ++ (',' :: ' ' :: (second.toList ++
          ('\n' :: (Opcode.halt.mnemonic.toList ++ ['\n'])))))))))) := by
    simp [arithmeticText, Opcode.mnemonic]
  have hlabel : Lexer.isLabelEnd (':' :: (type.name.toList ++ ('*' ::
      ((Nat.repr width).toList ++ (' ' :: (first.toList ++ (',' :: ' ' :: (second.toList ++
        ('\n' :: (Opcode.halt.mnemonic.toList ++ ['\n'])))))))))) = false := by
    cases type <;> rfl
  rw [htext]
  refine .word (Opcode.isWord_mnemonic _) (Lexer.ends_cons rfl _) hlabel ?_
  refine .type type.isWord_name (Lexer.ends_cons rfl _) ?_
  refine .mark rfl (by decide) ?_
  refine .number (numeral_repr width) (Lexer.ends_cons rfl _) (.space ?_)
  refine .number hfirst (Lexer.ends_cons rfl _) ?_
  refine .mark rfl (by decide) (.space ?_)
  refine .number hsecond (Lexer.ends_cons rfl _) ?_
  refine .mark rfl (by decide) ?_
  refine .word (Opcode.isWord_mnemonic _) (Lexer.ends_cons rfl _) rfl ?_
  exact .mark rfl (by decide) .nil

/-- The two instructions of such a text; the numbers are operands of the first. -/
def arithmeticStatements (op : BinaryOp) (type : DataType) (width : Nat) : List Statement :=
  [.instruction (.onNumbers op 0 type width 4 6), .instruction ⟨.halt, 8, none, 1, [], []⟩]

namespace TokenStore

variable {store : TokenStore} {op : BinaryOp}

theorem lines_arithmetic (hspells : store.Spells (arithmeticPieces op type width first second)) :
    store.lines (List.range 10) = [[0, 1, 2, 3, 4, 5, 6, 7], [8, 9]] := by
  have hfirst : ∀ token ∈ [0, 1, 2, 3, 4, 5, 6], store.kind token ≠ .lineEnd := by
    simp [(hspells 0 _ rfl).1, (hspells 1 _ rfl).1, (hspells 2 _ rfl).1, (hspells 3 _ rfl).1,
      (hspells 4 _ rfl).1, (hspells 5 _ rfl).1, (hspells 6 _ rfl).1]
  have hsecond : ∀ token ∈ [8], store.kind token ≠ .lineEnd := by
    simp [(hspells 8 _ rfl).1]
  have hbelow : store.lines [8, 9] = [[8, 9]] := lines_append [] hsecond (hspells 9 _ rfl).1
  have hall := lines_append [8, 9] hfirst (hspells 7 _ rfl).1
  rw [hbelow] at hall
  exact hall

theorem statements_arithmetic
    (hspells : store.Spells (arithmeticPieces op type width first second))
    (htype : type.isSupported = true) (hpos : 1 ≤ width) (hle : width ≤ Instruction.maxWidth) :
    store.statements (List.range 10) = .ok (arithmeticStatements op type width) := by
  obtain ⟨hmnemonic, hname⟩ := hspells 0 _ rfl
  obtain ⟨htypeKind, htypeName⟩ := hspells 1 _ rfl
  obtain ⟨hcount, hwidth⟩ := hspells 3 _ rfl
  obtain ⟨hhalt, hhaltName⟩ := hspells 8 _ rfl
  have hend := (hspells 9 _ rfl).1
  have hterms := readTerms_comma 0 (hspells 4 _ rfl).1 (hspells 5 _ rfl).1
    (readTerms_last 0 [] (hspells 6 _ rfl).1 (hspells 7 _ rfl).1)
  have hfirst : store.readLine [0, 1, 2, 3, 4, 5, 6, 7] =
      .ok [.instruction (.onNumbers op 0 type width 4 6)] :=
    readLine_word hmnemonic (readInstruction_eq nofun hname
      (readTypeSuffix_name htype htypeKind htypeName)
      (readWidthSuffix_numeral 0 (hspells 2 _ rfl).1 hcount (hwidth ▸ numeral_repr width) hpos hle)
      hterms (Nat.le_refl 2) (Nat.zero_le 1))
  have htypeSuffix : store.readTypeSuffix [9] = .ok (none, [9]) := by
    rw [readTypeSuffix, hend]
    rfl
  have hwidthSuffix : store.readWidthSuffix 8 [9] = .ok (1, [9]) := by
    rw [readWidthSuffix, hend]
    rfl
  have hsecond : store.readLine [8, 9] = .ok [.instruction ⟨.halt, 8, none, 1, [], []⟩] :=
    readLine_word hhalt (readInstruction_eq nofun hhaltName htypeSuffix hwidthSuffix
      (readTerms_end 8 hend) (Nat.le_refl 0) (Nat.le_refl 0))
  rw [statements, lines_arithmetic hspells]
  refine bind_eq_ok.mpr ⟨_, hfirst, bind_eq_ok.mpr ⟨_, bind_eq_ok.mpr ⟨_, hsecond, ?_⟩, rfl⟩⟩
  rfl

end TokenStore

/-- A text whose tokens are all for the parser is read as it is cut. -/
theorem Assembly.parse_eq_statements (config : AssemblyConfig) (importer : Importer) {name : String}
    {text : List Char}
    (hkinds : ∀ token ∈ (TokenStore.empty.load name text).1,
      Expansion.IsParserKind ((TokenStore.empty.load name text).2.kind token)) :
    parse config importer name text =
      ((TokenStore.empty.load name text).2.statements (TokenStore.empty.load name text).1).map
        (·, (TokenStore.empty.load name text).2) := by
  have hexpand := Expansion.expand_eq_self config importer hkinds
  change (Expansion.expand config importer (TokenStore.empty.load name text).2
    (TokenStore.empty.load name text).1 >>= fun expanded =>
      expanded.2.statements expanded.1 >>= fun statements => .ok (statements, expanded.2)) = _
  rw [hexpand]
  rfl

/-- A text that is cut into pieces with nothing to expand is read as its pieces are. -/
theorem Assembly.parse_of_cuts (config : AssemblyConfig) (importer : Importer) (name : String)
    {text : List Char} {pieces : List (TokenKind × List Char)} {statements : List Statement}
    (hcuts : Lexer.Cuts text pieces) (hkinds : ∀ piece ∈ pieces, Expansion.IsParserKind piece.1)
    (hread : ∀ store : TokenStore, store.Spells pieces →
      store.statements (List.range pieces.length) = .ok statements) :
    ∃ store, parse config importer name text = .ok (statements, store) ∧ store.Spells pieces := by
  obtain ⟨store, hload, hspells⟩ := TokenStore.load_of_cuts name hcuts
  have hquiet : ∀ token ∈ List.range pieces.length, Expansion.IsParserKind (store.kind token) := by
    intro token hmem
    have htoken : token < pieces.length := List.mem_range.mp hmem
    rw [(hspells token _ (List.getElem?_eq_getElem htoken)).1]
    exact hkinds _ (List.getElem_mem htoken)
  refine ⟨store, ?_, hspells⟩
  rw [parse_eq_statements config importer (by rwa [hload]), hload, hread store hspells]
  rfl

/-- The text is read as its instructions. -/
theorem Assembly.parse_arithmeticText (config : AssemblyConfig) (importer : Importer)
    (name : String) (op : BinaryOp) (htype : type.isSupported = true) (hpos : 1 ≤ width)
    (hle : width ≤ Instruction.maxWidth) (hfirst : Numeral first.toList a)
    (hsecond : Numeral second.toList b) :
    ∃ store, parse config importer name (arithmeticText op type width first second).toList =
        .ok (arithmeticStatements op type width, store) ∧
      store.chars 4 = first.toList ∧ store.chars 6 = second.toList := by
  have hkinds : ∀ piece ∈ arithmeticPieces op type width first second,
      Expansion.IsParserKind piece.1 := by
    simp [arithmeticPieces, Expansion.IsParserKind]
  obtain ⟨store, hparse, hspells⟩ := parse_of_cuts config importer name
    (cuts_arithmeticText op type width hfirst hsecond) hkinds
    fun _ hspells => TokenStore.statements_arithmetic hspells htype hpos hle
  exact ⟨store, hparse, (hspells 4 _ rfl).2, (hspells 6 _ rfl).2⟩

end VectorStack
