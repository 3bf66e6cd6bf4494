import VectorStack.Proofs.Machine.CallReturn
import VectorStack.Proofs.Machine.Delivery
import VectorStack.Proofs.Program.Held
import VectorStack.Proofs.Program.Reading
import VectorStack.Proofs.Token.Literal
/-!
Printing from its text to the printed line. An instruction that prints a string literal finds the
bytes of the text behind one byte with their number. That byte holds the number only up to 255, so
that a text with more bytes is cut off.
-/

namespace VectorStack

open Address (space wrap wrap_eq_self)
open Lexer (Quoted Cuts)

/-- An operand that is a string literal. -/
def Term.ofText (token : TokenId) : Term := ⟨.string token, token, 1⟩

/-- An instruction that prints a string literal. -/
def InstructionStatement.printing (token text : TokenId) : InstructionStatement :=
  ⟨.debugText, token, none, 1, [.ofText text], []⟩

variable {store : TokenStore} {config : AssemblyConfig} {layout : Layout} {pool : ConstantPool}
  {statements : List Statement} {text : Bytes}

theorem InstructionStatement.wellFormed_printing (token string : TokenId) :
    (printing token string).WellFormed where
  opcode_ne := nofun
  type_isSupported := nofun
  width_pos := Nat.le_refl 1
  width_le := (by decide : 1 ≤ Instruction.maxWidth)
  inputs_le := Nat.le_refl 1
  outputs_le := Nat.le_refl 0

/-- A byte as a lane of its own. -/
theorem DataType.encodeLane_u8 (n : Nat) :
    u8.encodeLane ((Number.ofNat n).toCell u8.mode) = [UInt8.ofNat n] := by
  change [(UInt64.ofNat n).toUInt8] = _
  rw [List.cons.injEq, ← UInt8.toNat_inj, UInt64.toNat_toUInt8, UInt64.toNat_ofNat',
    UInt8.toNat_ofNat']
  refine ⟨?_, rfl⟩
  omega

/-- Bytes as lanes of one byte each are themselves. -/
theorem DataType.encodeLanes_u8 (bytes : Bytes) :
    (bytes.map fun byte => Number.ofNat byte.toNat).flatMap (fun number =>
      u8.encodeLane (number.toCell u8.mode)) = bytes := by
  induction bytes with
  | nil => rfl
  | cons byte rest ih =>
      rw [List.map_cons, List.flatMap_cons, encodeLane_u8, ih, UInt8.ofNat_toNat]
      rfl

namespace Machine

variable {m : Machine} {address : Nat}

/-- A text behind its length is printed as far as the byte with its length says. -/
theorem textAt_of_read (hplain : m.memory.Plain)
    (hread : m.memory.read address (1 + text.length) = UInt8.ofNat text.length :: text) :
    m.textAt address =
      (String.ofList (Text.decodeLossy (text.take (text.length % 256))), m) := by
  have hempty := hplain.mappings_eq
  rw [Memory.read_add_of_unmapped hempty, ← List.singleton_append] at hread
  obtain ⟨hfirst, hrest⟩ := List.append_inj hread (Memory.length_read _ _ _)
  have hlength : m.memory.readNat address 1 = text.length % 256 := by
    rw [Memory.readNat, hfirst]
    exact UInt8.toNat_ofNat'
  have hsplit : text.length = text.length % 256 + (text.length - text.length % 256) := by
    have hle := Nat.mod_le text.length 256
    omega
  have htaken : m.memory.read (Address.move address (1 : Nat)) (text.length % 256) =
      text.take (text.length % 256) := by
    rw [hsplit, Memory.read_add_of_unmapped hempty] at hrest
    rw [Address.move_ofNat, Memory.read_wrap hplain.size_eq,
      ← List.take_left' (Memory.length_read _ _ _), hrest]
  have hsame : m.afterRead address 1 = m := afterRead_eq_self hempty address 1
  simp only [textAt, hlength, hsame, afterRead_eq_self hempty]
  exact congrArg (fun bytes => (String.ofList (Text.decodeLossy bytes), m)) htaken

/-- An instruction that prints a text in memory adds one line. -/
theorem performed_debugText (hempty : m.memory.mappings = [])
    (hopcode : m.fetch.opcode = .debugText) {shape : Shape}
    (hinputs : m.inputOperands = [⟨shape, .memory address⟩]) :
    m.performed =
      ((m.popped.textAt address).2.print (m.popped.textAt address).1, []) := by
  rw [performed_eq hempty, inputAddresses, hinputs, hopcode]
  rfl

/-- Where a string literal was written as an operand, the bytes of its text stand behind their
number. -/
theorem read_of_delivers {string : TokenId} {output : Bool} {place : Place}
    (htext : store.stringBytes string = .ok text)
    {value : Option Input}
    (hdelivers : Delivers store layout m (some (.ofText string)) output ⟨.u8, 1⟩ value place) :
    ∃ address, place = .memory address ∧
      m.memory.read address (1 + text.length) = UInt8.ofNat text.length :: text := by
  cases hdelivers with
  | omitted hgiven => cases hgiven
  | placeholder hgiven hwritten | direct hgiven hwritten | offset hgiven hwritten =>
      cases hgiven
      cases hwritten
  | inlined hgiven hinline hnumber =>
      cases hgiven
      cases hnumber
  | constant hgiven hconstant hnotText =>
      cases hgiven
      exact absurd ⟨_, rfl⟩ hnotText
  | text hgiven hwritten houtput hfound hencoded hread =>
      cases hgiven
      cases hwritten
      rw [htext] at hfound
      cases hfound
      rw [List.flatMap_cons, DataType.encodeLane_u8, DataType.encodeLanes_u8] at hencoded
      rw [hencoded, List.length_append] at hread
      exact ⟨_, rfl, hread⟩

/-- A machine that comes to an instruction that prints a string literal prints it, up to the number
of bytes that one byte can hold. -/
theorem step_printing {token string : TokenId} {labels : List Label} {entries : List Entry}
    {stop : Nat} (hdefault : config.SupportsDefault)
    (hlayout : Layout.ofStatements store config statements = .ok layout)
    (hpool : ConstantPool.ofLayout layout store config = .ok pool)
    (hemits : Emits store config layout pool m.pc (.instruction (.printing token string)) labels
      entries stop)
    (htext : store.stringBytes string = .ok text) (hplain : m.memory.Plain) (hsleep : m.sleep = 0)
    (hholds : ∀ entry ∈ entries, m.memory.Holds entry.address entry.bytes)
    (hcells : ∀ placed ∈ pool.cells, m.memory.Holds placed.1 placed.2.content.bytes) :
    ∃ after, m.step = (.executed .debugText, after) ∧
      after.output = m.output.push
        (String.ofList (Text.decodeLossy (text.take (text.length % 256)))) := by
  have hstatement := InstructionStatement.wellFormed_printing token string
  have hempty := hplain.mappings_eq
  have hstep := step_of_emits hdefault hstatement hlayout hpool hemits hplain hsleep hholds hcells
  obtain ⟨hopcode, -, hoperands⟩ :=
    fetch_of_emits hstatement hlayout hpool hemits hplain hholds hcells
  obtain ⟨_, _, place, htype, rfl, -, hoperand, hdelivers⟩ := hoperands 0 (.scalar .u8) rfl
  cases htype
  obtain ⟨address, rfl, hread⟩ := read_of_delivers htext hdelivers
  obtain ⟨operand, hinputs⟩ := List.length_eq_one_iff.mp
    (m.length_inputOperands.trans (congrArg (fun op => op.template.inputs.length) hopcode))
  have houtputs : m.outputOperands = [] := List.length_eq_zero_iff.mp
    (m.length_outputOperands.trans (congrArg (fun op => op.template.outputs.length) hopcode))
  rw [hinputs, houtputs] at hoperand
  cases hoperand
  have hplain' : m.popped.memory.Plain := by rwa [memory_popped hempty]
  have hline := textAt_of_read hplain' (by rwa [memory_popped hempty])
  have hprinted : m.popped.output = m.output := by
    rw [popped_eq hempty, passed_eq hempty]
    rfl
  rw [performed_debugText hempty hopcode hinputs, houtputs, hline] at hstep
  exact ⟨_, hstep, congrArg (Array.push · _) hprinted⟩

end Machine

/-- The instruction takes eleven bytes at the bottom of memory, and asks for its text once. -/
theorem Layout.exists_printing (store : TokenStore) (config : AssemblyConfig)
    (token string : TokenId) :
    ∃ layout word, ofStatements store config [.instruction (.printing token string)] =
        .ok layout ∧
      layout.cursor = 11 ∧ layout.labels = #[] ∧ layout.extents = #[⟨0, 11⟩] ∧
      layout.requests = #[⟨.u8, 1, .ofText string⟩] ∧
      layout.lowered = #[.instruction token word [.pooled 0]] :=
  ⟨_, _, rfl, rfl, rfl, rfl, rfl, rfl⟩

/-- The instruction assembles when there is room for its text behind it. -/
theorem Image.exists_printing {string : TokenId} (htext : store.stringBytes string = .ok text)
    (hrequire : config.requirePoolLabel = false) (hroom : 12 + text.length ≤ space)
    (token : TokenId) :
    ∃ image, ofStatements store config [.instruction (.printing token string)] = .ok image := by
  obtain ⟨layout, word, hlayout, hcursor, hlabels, hextents, hrequests, hlowered⟩ :=
    Layout.exists_printing store config token string
  have hencode : layout.encodeTerm store .u8 (.ofText string) true =
      .ok (UInt8.ofNat text.length :: text) := by
    rw [Layout.encodeTerm, Term.ofText]
    dsimp only
    rw [htext]
    refine congrArg Except.ok ?_
    change (Number.ofNat text.length :: _).flatMap _ = _
    rw [List.flatMap_cons, DataType.encodeLane_u8, DataType.encodeLanes_u8]
    rfl
  have hcollect : ConstantPool.collect layout store [] layout.requests.toList =
      .ok ([0], [⟨.u8, ⟨UInt8.ofNat text.length :: text, 1⟩⟩]) := by
    rw [hrequests]
    exact bind_eq_ok.mpr ⟨_, hencode, rfl⟩
  have hsize : ConstantPool.totalSize [⟨.u8, ⟨UInt8.ofNat text.length :: text, 1⟩⟩] =
      text.length + 1 := by
    simp [ConstantPool.totalSize, ByteRun.length]
  have hfree : (Extent.free? layout.extents.toList (text.length + 1)).isSome = true := by
    refine ConstantPool.isSome_free_of_cursor hlayout ?_ (Nat.succ_pos _) (by omega)
    simp [hextents, hcursor]
  have hpool := ConstantPool.ofLayout_eq_of_free hcollect (by simp [hrequests])
    (by rw [hlabels]; rfl) hrequire
  obtain ⟨start, hstart⟩ := Option.isSome_iff_exists.mp hfree
  rw [hsize, hstart] at hpool
  obtain ⟨addresses, hpool⟩ := hpool
  have hrows : ∀ lowered ∈ layout.lowered.toList, lowered.ForIntegers store := by
    rw [hlowered]
    exact List.forall_mem_singleton.mpr (List.forall_mem_singleton.mpr trivial)
  obtain ⟨entries, hwrite⟩ := exists_write layout ⟨_, addresses⟩ 0 hrows
  exact ⟨_, bind_eq_ok.mpr ⟨_, hlayout, bind_eq_ok.mpr ⟨_, hpool, bind_eq_ok.mpr ⟨_, hwrite, rfl⟩⟩⟩⟩

/-- What is written for one statement is all that is written. -/
theorem LaidOut.emits {cursor stop : Nat} {statement : Statement} {labels : List Label}
    {entries : List Entry}
    (hlaidOut : LaidOut store config layout pool cursor [statement] labels entries stop) :
    Emits store config layout pool cursor statement labels entries stop := by
  cases hlaidOut with
  | cons hhead htail =>
      cases htail
      rw [List.append_nil, List.append_nil]
      exact hhead

theorem Emits.exists_entry {cursor stop : Nat} {statement : InstructionStatement}
    {labels : List Label} {entries : List Entry}
    (hemits : Emits store config layout pool cursor (.instruction statement) labels entries stop) :
    ∃ entry, entries = [entry] ∧ entry.length ≤ Instruction.maxSize := by
  cases hemits with
  | instruction hplan hrequests haddresses hsize =>
      refine ⟨_, rfl, ?_⟩
      rw [Entry.length, hsize]
      exact Layout.size_le_of_plan hplan

/-- The instruction is in the memory that it was loaded into, with its text. -/
theorem Image.heldBy_load_printing {memory : Memory} {image : Image} {token string : TokenId}
    (hplain : memory.Plain)
    (himage : ofStatements store config [.instruction (.printing token string)] = .ok image) :
    ∃ layout pool, image.HeldBy store config [.instruction (.printing token string)] layout pool
      (image.program.load memory) := by
  obtain ⟨layout, pool, -, -, -, hlaidOut⟩ := exists_laidOut himage
  obtain ⟨entry, hentries, hlength⟩ := hlaidOut.emits.exists_entry
  refine heldBy_load_of_apart hplain himage ?_ ?_
  · rw [hentries]
    exact List.pairwise_singleton _ _
  · rw [hentries]
    exact List.forall_mem_singleton.mpr (Nat.le_trans hlength (by decide))

/-- An instruction that prints a literal, with spaces before the literal. -/
def printText (spaces : Nat) (literal : List Char) : List Char :=
  Opcode.debugText.mnemonic.toList ++ (List.replicate spaces ' ' ++ literal)

/-- The pieces of the text of an instruction that prints a literal. -/
def printPieces (literal : List Char) : List (TokenKind × List Char) :=
  [(.word, Opcode.debugText.mnemonic.toList), (.string, literal)]

theorem Lexer.Cuts.spaces {rest : List Char} {pieces : List (TokenKind × List Char)}
    (hrest : Cuts rest pieces) (spaces : Nat) :
    Cuts (List.replicate spaces ' ' ++ rest) pieces := by
  induction spaces with
  | zero => exact hrest
  | succ spaces ih => exact .space ih

theorem cuts_printText {literal : List Char} (hquoted : Quoted literal) (spaces : Nat) :
    Cuts (printText spaces ('"' :: literal)) (printPieces ('"' :: literal)) := by
  have hstring : Cuts ('"' :: literal) [(.string, '"' :: literal)] := by
    have hcuts := Cuts.string hquoted .nil
    rw [List.append_nil] at hcuts
    exact hcuts
  have hrest := hstring.spaces spaces
  refine .word (Opcode.isWord_mnemonic _) ?_ ?_ hrest
  · cases spaces with
    | zero => exact Lexer.ends_cons rfl _
    | succ spaces => exact Lexer.ends_cons rfl _
  · cases spaces <;> rfl

namespace TokenStore

theorem readTerms_text (mnemonic : TokenId) {string : TokenId}
    (hkind : store.kind string = .string) :
    store.readTerms mnemonic false [string] = .ok ([.ofText string], []) := by
  have hterm : store.readTerm mnemonic [string] = .ok (.ofText string, []) := by
    rw [readTerm, readWritten, hkind]
    rfl
  rw [readTerms, if_neg (by rw [hkind]; decide), if_neg (by rw [hkind]; decide)]
  split
  · next hread =>
      rw [hterm] at hread
      cases hread
  · next term tokens hread =>
      rw [hterm] at hread
      cases hread
      rfl

theorem statements_print {literal : List Char} (hspells : store.Spells (printPieces literal)) :
    store.statements (List.range 2) = .ok [.instruction (.printing 0 1)] := by
  obtain ⟨hmnemonic, hname⟩ := hspells 0 _ rfl
  have hstring : store.kind 1 = .string := (hspells 1 _ rfl).1
  have hlines : store.lines [0, 1] = [[0, 1]] := by
    rw [lines, hmnemonic, lines, hstring]
    rfl
  have htype : store.readTypeSuffix [1] = .ok (none, [1]) := by
    rw [readTypeSuffix, hstring]
    rfl
  have hwidth : store.readWidthSuffix 0 [1] = .ok (1, [1]) := by
    rw [readWidthSuffix, hstring]
    rfl
  have hread : store.readLine [0, 1] = .ok [.instruction (.printing 0 1)] :=
    readLine_word hmnemonic (readInstruction_eq (by decide) hname htype hwidth
      (readTerms_text 0 hstring) (Nat.le_refl 1) (Nat.le_refl 0))
  change store.readLines (store.lines [0, 1]) = _
  rw [hlines]
  exact bind_eq_ok.mpr ⟨_, hread, rfl⟩

end TokenStore

/-- The text is read as its instruction. -/
theorem Assembly.parse_printText (config : AssemblyConfig) (importer : Importer) (name : String)
    (spaces : Nat) {literal : List Char} (hquoted : Quoted literal) :
    ∃ store, parse config importer name (printText spaces ('"' :: literal)) =
        .ok ([.instruction (.printing 0 1)], store) ∧
      store.chars 1 = '"' :: literal := by
  have hkinds : ∀ piece ∈ printPieces ('"' :: literal), Expansion.IsParserKind piece.1 := by
    simp [printPieces, Expansion.IsParserKind]
  obtain ⟨store, hparse, hspells⟩ := parse_of_cuts config importer name
    (cuts_printText hquoted spaces) hkinds fun _ hspells => TokenStore.statements_print hspells
  exact ⟨store, hparse, (hspells 1 _ rfl).2⟩

namespace Machine

/-- Printing a quoted text, from the text of the instruction to the line. -/
theorem step_printText (importer : Importer) (name : String) (generator : Generator)
    (spaces : Nat) {literal text : List Char} (hquoted : Quoted literal)
    (htext : StringLiteral.unescape? ('"' :: literal) = some text)
    (hroom : 12 + (Text.encode text).length ≤ space) :
    ∃ symbols memory after,
      Assembly.assemble .standard importer name (printText spaces ('"' :: literal))
          (new ⟨0, 0, 0⟩ generator).memory = .ok (symbols, memory) ∧
      step { new ⟨0, 0, 0⟩ generator with memory } = (.executed .debugText, after) ∧
      after.output = #[String.ofList (Text.decodeLossy
        ((Text.encode text).take ((Text.encode text).length % 256)))] := by
  obtain ⟨store, hparse, hchars⟩ := Assembly.parse_printText .standard importer name spaces hquoted
  have hbytes : store.stringBytes 1 = .ok (Text.encode text) := by
    rw [TokenStore.stringBytes, hchars, htext]
  obtain ⟨image, himage⟩ := Image.exists_printing hbytes
    (rfl : AssemblyConfig.standard.requirePoolLabel = false) hroom 0
  have hplain : (new ⟨0, 0, 0⟩ generator).memory.Plain := ⟨rfl, rfl⟩
  obtain ⟨layout, pool, hheld⟩ := Image.heldBy_load_printing hplain himage
  have hassemble : Assembly.assemble .standard importer name (printText spaces ('"' :: literal))
      (new ⟨0, 0, 0⟩ generator).memory =
        .ok (.new store image.labels image.entries,
          image.program.load (new ⟨0, 0, 0⟩ generator).memory) :=
    bind_eq_ok.mpr ⟨_, bind_eq_ok.mpr ⟨_, hparse, bind_eq_ok.mpr ⟨_, himage, rfl⟩⟩, rfl⟩
  obtain ⟨after, hstep, houtput⟩ := step_printing (m := { new ⟨0, 0, 0⟩ generator with
      memory := image.program.load (new ⟨0, 0, 0⟩ generator).memory })
    AssemblyConfig.supportsDefault_standard hheld.layout_eq hheld.pool_eq hheld.laidOut.emits hbytes
    hheld.plain rfl hheld.entries hheld.cells
  exact ⟨_, _, after, hassemble, hstep, houtput⟩

/-- Printing a string literal, whatever text it was found in. A fresh machine that steps once over
the instruction adds one line, in which the text of the literal is cut off behind as many bytes as a
single byte says that it has; up to 255 bytes that is the whole text. -/
theorem step_print_lexeme (importer : Importer) (name : String) (generator : Generator)
    (spaces : Nat) {source : List Char} {lexeme : Lexeme} (hmem : lexeme ∈ Lexer.lex source)
    (hkind : lexeme.kind = .string) :
    ∃ text, StringLiteral.unescape? (lexeme.chars source) = some text ∧
      (12 + (Text.encode text).length ≤ space →
        ∃ symbols memory after line,
          Assembly.assemble .standard importer name (printText spaces (lexeme.chars source))
              (new ⟨0, 0, 0⟩ generator).memory = .ok (symbols, memory) ∧
          step { new ⟨0, 0, 0⟩ generator with memory } = (.executed .debugText, after) ∧
          after.output = #[String.ofList line] ∧
          line = Text.decodeLossy
            ((Text.encode text).take ((Text.encode text).length % 256)) ∧
          ((Text.encode text).length < 256 → line = text)) := by
  obtain ⟨literal, hchars, hquoted⟩ := Lexer.quoted_of_mem_lex hmem hkind
  obtain ⟨text, htext⟩ := StringLiteral.exists_unescape? hquoted
  rw [hchars]
  refine ⟨text, htext, fun hroom => ?_⟩
  obtain ⟨symbols, memory, after, hassemble, hstep, houtput⟩ :=
    step_printText importer name generator spaces hquoted htext hroom
  refine ⟨symbols, memory, after, _, hassemble, hstep, houtput, rfl, fun hshort => ?_⟩
  rw [Nat.mod_eq_of_lt hshort, List.take_length, Text.decodeLossy_encode]

/-- A text with a quote in it and a line end behind it. -/
theorem step_print_lexeme_short :
    ∃ symbols memory after,
      Assembly.assemble .standard (fun _ _ => none) "input"
          (printText 1 ['"', '\\', '"', 'é', '\\', 'n', '"'])
          (new ⟨0, 0, 0⟩ default).memory = .ok (symbols, memory) ∧
      step { new ⟨0, 0, 0⟩ default with memory } = (.executed .debugText, after) ∧
      after.output = #["\"é\n"] := by
  have hquoted : Quoted ['\\', '"', 'é', '\\', 'n', '"'] :=
    .escaped rfl (.plain (by decide) (by decide) (by decide) (.escaped rfl .close))
  have hmem : ⟨.string, 0, 7⟩ ∈ Lexer.lex ['"', '\\', '"', 'é', '\\', 'n', '"'] := by
    rw [Lexer.lex_quoted hquoted]
    exact List.mem_singleton_self _
  obtain ⟨text, htext, hprints⟩ :=
    step_print_lexeme (fun _ _ => none) "input" default 1 hmem rfl
  have hsame : some ['"', 'é', '\n'] = some text := htext
  cases hsame
  obtain ⟨symbols, memory, after, line, hassemble, hstep, houtput, -, hline⟩ :=
    hprints (by decide)
  rw [hline (by decide)] at houtput
  exact ⟨symbols, memory, after, hassemble, hstep, houtput⟩

/-- Of a text of 256 bytes nothing is printed. -/
theorem step_print_long :
    let literal := '"' :: (List.replicate 256 'a' ++ ['"'])
    ⟨.string, 0, 258⟩ ∈ Lexer.lex literal ∧
      StringLiteral.unescape? literal = some (List.replicate 256 'a') ∧
      ∃ symbols memory after,
        Assembly.assemble .standard (fun _ _ => none) "input" (printText 1 literal)
            (new ⟨0, 0, 0⟩ default).memory = .ok (symbols, memory) ∧
        step { new ⟨0, 0, 0⟩ default with memory } = (.executed .debugText, after) ∧
        after.output = #[""] ∧ after.output ≠ #[String.ofList (List.replicate 256 'a')] := by
  have hquoted : Quoted (List.replicate 256 'a' ++ ['"']) :=
    Lexer.quoted_replicate (by decide) (by decide) (by decide) 256
  have htext : StringLiteral.unescape? ('"' :: (List.replicate 256 'a' ++ ['"'])) =
      some (List.replicate 256 'a') := by decide +kernel
  have hlength : (Text.encode (List.replicate 256 'a')).length = 256 := by decide +kernel
  obtain ⟨symbols, memory, after, hassemble, hstep, houtput⟩ :=
    step_printText (fun _ _ => none) "input" default 1 hquoted htext (by rw [hlength]; decide)
  rw [hlength, Nat.mod_self, List.take_zero, Text.decodeLossy] at houtput
  refine ⟨?_, htext, symbols, memory, after, hassemble, hstep, houtput, ?_⟩
  · rw [Lexer.lex_quoted hquoted]
    decide +kernel
  · rw [houtput]
    decide +kernel

end Machine

end VectorStack
