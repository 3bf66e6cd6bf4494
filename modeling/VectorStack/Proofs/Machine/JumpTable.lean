import VectorStack.Proofs.Arithmetic.Branches
import VectorStack.Proofs.Layout.Labels
import VectorStack.Proofs.Machine.Delivery
import VectorStack.Proofs.Machine.Pushed
import VectorStack.Proofs.Program.Assembled
/-!
Jump tables. Addresses of labels are written one after another behind a label, three bytes each, and
a switch on that label reads one of them by its index. So the machine goes on at the label that has
this index in the table, wherever the table lies.
-/

namespace VectorStack

open Address (space wrap wrap_wrap_add)

variable {store : TokenStore} {config : AssemblyConfig} {statement : InstructionStatement}
  {statements : List Statement} {layout : Layout} {pool : ConstantPool}

/-- Declarations of addresses, each of them given as the name of a label. -/
def jumpTable (names : List TokenId) : List Statement :=
  names.map fun name => .data .p24 ⟨.word name, name, 1⟩

theorem DataType.encodeLane_address {address : Nat} (haddress : address < space) :
    DataType.p24.encodeLane ((Number.ofNat address).toCell DataType.p24.mode) =
      Bytes.ofNat Address.byteCount address := by
  have hlt : address < 2 ^ 64 := Nat.lt_trans haddress (by decide)
  change Bytes.ofWord Address.byteCount (UInt64.ofNat address) = _
  rw [Bytes.ofWord_eq, UInt64.toNat_ofNat_of_lt' hlt]

/-- The name of a label is written as the address of the label. -/
theorem Emits.exists_address {cursor next : Nat} {name : TokenId} {labels : List Label}
    {entries : List Entry} (hplaced : Layout.ofStatements store config statements = .ok layout)
    (hemits : Emits store config layout pool cursor (.data .p24 ⟨.word name, name, 1⟩) labels
      entries next) :
    ∃ address entry, addressOf? layout.labels (store.text name) = some address ∧
      entries = [entry] ∧ entry.address = cursor ∧
      entry.bytes = Bytes.ofNat Address.byteCount address ∧
      next = wrap (cursor + Address.byteCount) := by
  have honce : ∀ once, layout.encodeTerm store .p24 ⟨.word name, name, 1⟩ false = .ok once →
      ∃ address, addressOf? layout.labels (store.text name) = some address ∧
        once = Bytes.ofNat Address.byteCount address := by
    intro once hencode
    obtain ⟨numbers, hnumbers, rfl⟩ := Layout.lanes_of_encodeTerm hencode
    cases hnumbers with
    | text hwritten => cases hwritten
    | single _ hnumber =>
        rw [Layout.termNumber] at hnumber
        dsimp only at hnumber
        split at hnumber
        · next address hfound =>
            cases hnumber
            have haddress := Layout.addressOf?_lt hplaced hfound
            rw [List.flatMap_singleton]
            exact ⟨address, hfound, DataType.encodeLane_address haddress⟩
        · cases hnumber
  cases hemits with
  | data hencode =>
      obtain ⟨address, hfound, rfl⟩ := honce _ hencode
      refine ⟨address, _, hfound, rfl, rfl, ByteRun.bytes_single _, ?_⟩
      rw [Bytes.length_ofNat, Nat.mul_one]
  | nothing hencode _ hlength =>
      obtain ⟨address, -, rfl⟩ := honce _ hencode
      rw [Bytes.length_ofNat] at hlength
      cases hlength

/-- The addresses of a table follow each other from its start on. -/
theorem LaidOut.entry_of_jumpTable {cursor stop : Nat} {names : List TokenId}
    {after : List Statement} {labels : List Label} {entries : List Entry}
    (hplaced : Layout.ofStatements store config statements = .ok layout)
    (hlaidOut : LaidOut store config layout pool cursor (jumpTable names ++ after) labels entries
      stop) {index : Nat} {name : TokenId} (hname : names[index]? = some name) :
    ∃ address entry, addressOf? layout.labels (store.text name) = some address ∧
      entry ∈ entries ∧ wrap entry.address = wrap (cursor + index * Address.byteCount) ∧
      entry.bytes = Bytes.ofNat Address.byteCount address := by
  induction names generalizing cursor labels entries index with
  | nil => cases hname
  | cons first rest ih =>
      cases hlaidOut with
      | cons hhead htail =>
          obtain ⟨address, entry, hfound, rfl, rfl, hbytes, rfl⟩ := hhead.exists_address hplaced
          cases index with
          | zero =>
              cases hname
              exact ⟨address, entry, hfound, List.mem_append_left _ List.mem_cons_self,
                by rw [Nat.zero_mul, Nat.add_zero], hbytes⟩
          | succ index =>
              obtain ⟨other, later, hother, hmem, hplace, hlater⟩ := ih htail hname
              refine ⟨other, later, hother, List.mem_append_right _ hmem, ?_, hlater⟩
              rw [hplace, wrap_wrap_add, Nat.succ_mul, Nat.add_assoc,
                Nat.add_comm Address.byteCount]

namespace Machine

variable {m : Machine}

/-- The number that a switch finds as its index. -/
def switchIndex (m : Machine) : Nat :=
  m.memory.readNat (m.inputAddresses.headD 0) DataType.u32.size

theorem toNat_readNat_u32 (m : Machine) (address : Nat) :
    (LaneVector.ofBytes .u32 1 (m.memory.read address DataType.u32.size)).number =
      m.memory.readNat address DataType.u32.size := by
  have hlength : (m.memory.read address DataType.u32.size).length = DataType.u32.size :=
    m.memory.length_read _ _
  have hlt := DataType.toNat_take_lt .u32 (m.memory.read address DataType.u32.size)
  have hlane := @DataType.integer_decodeLane .u32 trivial
    (m.memory.read address DataType.u32.size)
  rw [List.take_of_length_le (Nat.le_of_eq hlength)] at hlt hlane
  rw [LaneVector.number, LaneVector.lane_zero_ofBytes (Nat.le_refl 1)]
  have hmod := hlane.trans (Int.emod_eq_of_lt (Int.natCast_nonneg _) (Int.ofNat_lt.mpr hlt))
  exact Int.ofNat.inj hmod

/-- Types and widths of the operands of a switch are its own. -/
theorem inputOperands_switch (hempty : m.memory.mappings = [])
    (hop : m.fetch.opcode = .switch) :
    m.inputOperands = [⟨⟨.u32, 1⟩, m.passed.place m.fetch m.pc 0⟩,
      ⟨⟨.p24, 1⟩, m.passed.place m.fetch m.pc 1⟩] := by
  have hpassed : m.passed.memory.mappings = [] := by
    rw [passed_eq hempty]
    exact hempty
  have hsame : m.passed.afterPlace m.fetch m.pc 0 = m.passed :=
    afterPlaces_eq_self m.fetch m.pc hpassed 0 1
  have hinputs : m.inputOperands = [⟨⟨.u32, 1⟩, m.passed.place m.fetch m.pc 0⟩,
      ⟨⟨.p24, 1⟩, (m.passed.afterPlace m.fetch m.pc 0).place m.fetch m.pc 1⟩] := by
    rw [inputOperands, inputs, hop]
    rfl
  rw [hinputs, hsame]

theorem not_isMalformed_switch {i : Instruction} (hop : i.opcode = .switch) :
    ¬ i.IsMalformed := by
  simp [Instruction.IsMalformed, hop, Opcode.template, Template.slots, Slot.resolveType,
    Slot.address, Slot.scalar]

/-- A switch goes on at the address that it finds in the table at its index. -/
theorem step_switch (hempty : m.memory.mappings = []) (hsleep : m.sleep = 0)
    (hop : m.fetch.opcode = .switch) :
    m.step.1 = .executed .switch ∧
      m.step.2.pc = m.readAddress (Address.move
        (wrap (m.memory.readNat (m.inputAddresses.getLastD 0) Address.byteCount))
        (m.switchIndex * Address.byteCount : Nat)) := by
  have hnone : m.outputOperands = [] := by
    rw [← List.length_eq_zero_iff, m.length_outputOperands, hop]
    rfl
  have hinputs := inputOperands_switch hempty hop
  obtain ⟨index, table, haddresses⟩ := List.length_eq_two.mp
    (m.length_inputAddresses.trans (congrArg List.length hinputs))
  have htable := m.address_read table
  have hindex := m.toNat_readNat_u32 index
  rw [step_eq_ite_isMalformed hsleep, if_neg (not_isMalformed_switch hop), hop, hnone]
  refine ⟨rfl, ?_⟩
  rw [performed_eq hempty, popped_eq hempty, passed_eq hempty, hop, hinputs, switchIndex,
    haddresses]
  change m.readAddress (Address.move
    (LaneVector.ofBytes .p24 1 (m.memory.read table Address.byteCount)).address
    ((LaneVector.ofBytes .u32 1 (m.memory.read index DataType.u32.size)).number *
      Address.byteCount : Nat)) = _
  rw [htable, hindex]
  rfl

/-- The address of a label that is written behind the word is found there. -/
theorem exists_field_of_delivers {term : Term} {token : TokenId} {place : Place}
    (hplaced : Layout.ofStatements store config statements = .ok layout)
    (hwritten : term.written = .word token) (hcopies : term.copies = 1)
    (hdelivers : Delivers store layout m (some term) false ⟨.p24, 1⟩ (m.valueAt ⟨.p24, 1⟩ place)
      place) :
    ∃ address field, addressOf? layout.labels (store.text token) = some address ∧
      place = .memory field ∧ wrap (m.memory.readNat field Address.byteCount) = address := by
  have hinline : term.isInline .p24 1 false = true := by
    rw [Term.isInline, hcopies]
    rfl
  cases hdelivers with
  | omitted hgiven => cases hgiven
  | @inlined _ cell field hgiven _ hnumber hvalue =>
      cases hgiven
      rw [Layout.termNumber, hwritten] at hnumber
      dsimp only at hnumber
      split at hnumber
      · next address hfound =>
          cases hnumber
          have haddress := Layout.addressOf?_lt hplaced hfound
          have hcell : (UInt64.ofNat address).toNat = address :=
            UInt64.toNat_ofNat_of_lt' (Nat.lt_trans haddress (by decide))
          have hread := congrArg (fun input => input.lanes.address) (Option.some.inj hvalue)
          refine ⟨address, field, hfound, rfl, ?_⟩
          rw [hcell, Address.wrap_eq_self haddress] at hread
          rw [← m.address_read field]
          refine hread.trans ?_
          change wrap (UInt64.ofNat address).toNat = address
          rw [hcell, Address.wrap_eq_self haddress]
      · cases hnumber
  | placeholder hgiven hother | text hgiven hother =>
      cases hgiven
      rw [hwritten] at hother
      cases hother
  | direct hgiven _ hnot | offset hgiven _ hnot | constant hgiven _ _ hnot =>
      cases hgiven
      rw [hinline] at hnot
      cases hnot

/-- An index that is written as a number is found with its value. -/
theorem readNat_of_delivers {term : Term} {number : Number} {place : Place}
    (hconstant : term.IsConstant store) (htext : ¬ term.IsText)
    (hnumber : layout.termNumber store term = .ok number)
    (hdelivers : Delivers store layout m (some term) false ⟨.u32, 1⟩ (m.valueAt ⟨.u32, 1⟩ place)
      place) :
    ∃ address, place = .memory address ∧ m.memory.readNat address DataType.u32.size =
      (number.toCell .unsigned).toNat % 2 ^ 32 := by
  have hinline : term.isInline .u32 1 false = false := by simp [Term.isInline]
  obtain ⟨address, rfl, hvalue⟩ := hdelivers.of_constant hconstant htext hinline hnumber
  have hread := congrArg (fun input => input.lanes.number) (Option.some.inj hvalue)
  have hlt : (number.toCell .unsigned).toNat % 2 ^ 32 < 2 ^ 64 :=
    Nat.lt_trans (Nat.mod_lt _ (by decide)) (by decide)
  refine ⟨address, rfl, ?_⟩
  rw [← m.toNat_readNat_u32 address]
  exact hread.trans (UInt64.toNat_ofNat_of_lt' hlt)

/-- What lies in memory is found there whatever is popped. -/
theorem popInputs_last (sp : Nat) (first : Operand) (shape : Shape) (address : Nat) :
    (popInputs sp [first, ⟨shape, .memory address⟩]).2.getLastD 0 = address := by
  cases hplace : first.place <;> simp [popInputs, hplace]

theorem popInputs_first (sp : Nat) (shape : Shape) (address : Nat) (rest : List Operand) :
    (popInputs sp (⟨shape, .memory address⟩ :: rest)).2.headD 0 = address := rfl

theorem getLastD_inputAddresses_switch (hempty : m.memory.mappings = [])
    (hop : m.fetch.opcode = .switch) {field : Nat}
    (hplace : m.passed.place m.fetch m.pc 1 = .memory field) :
    m.inputAddresses.getLastD 0 = field := by
  rw [inputAddresses, inputOperands_switch hempty hop, hplace]
  exact popInputs_last _ _ _ _

theorem switchIndex_eq (hempty : m.memory.mappings = []) (hop : m.fetch.opcode = .switch)
    {first : Nat} (hplace : m.passed.place m.fetch m.pc 0 = .memory first) :
    m.switchIndex = m.memory.readNat first DataType.u32.size := by
  rw [switchIndex, inputAddresses, inputOperands_switch hempty hop, hplace, popInputs_first]

/-- A switch that was written into the program finds the address of its table, and an index that is
written as a number. -/
theorem fetch_of_emits_switch {labels : List Label} {entries : List Entry} {stop : Nat}
    (hstatement : statement.WellFormed)
    (hplaced : Layout.ofStatements store config statements = .ok layout)
    (hpool : ConstantPool.ofLayout layout store config = .ok pool)
    (hemits : Emits store config layout pool m.pc (.instruction statement) labels entries stop)
    (hplain : m.memory.Plain)
    (hholds : ∀ entry ∈ entries, m.memory.Holds entry.address entry.bytes)
    (hcells : ∀ placed ∈ pool.cells, m.memory.Holds placed.1 placed.2.content.bytes)
    {index target : Term} {reference : TokenId} (hopcode : statement.opcode = .switch)
    (hinputs : statement.inputs = [index, target]) (hwritten : target.written = .word reference)
    (hcopies : target.copies = 1) :
    m.fetch.opcode = .switch ∧
      addressOf? layout.labels (store.text reference) =
        some (wrap (m.memory.readNat (m.inputAddresses.getLastD 0) Address.byteCount)) ∧
      ∀ number, index.IsConstant store → ¬ index.IsText →
        layout.termNumber store index = .ok number →
        m.switchIndex = (number.toCell .unsigned).toNat % 2 ^ 32 := by
  obtain ⟨hop, -, hoperands⟩ := fetch_of_emits hstatement hplaced hpool hemits hplain hholds hcells
  rw [hopcode] at hop hoperands
  have hfirst : statement.term? 0 = some index := by
    rw [InstructionStatement.term?, hopcode, hinputs]
    rfl
  have hsecond : statement.term? 1 = some target := by
    rw [InstructionStatement.term?, hopcode, hinputs]
    rfl
  have hempty := hplain.mappings_eq
  obtain ⟨_, _, _, htype, rfl, rfl, -, hindex⟩ := hoperands 0 (.scalar .u32) rfl
  cases htype
  obtain ⟨_, _, _, htype, rfl, rfl, -, htarget⟩ := hoperands 1 .address rfl
  cases htype
  rw [hfirst] at hindex
  rw [hsecond] at htarget
  refine ⟨hop, ?_, ?_⟩
  · obtain ⟨address, field, haddress, hfield, rfl⟩ :=
      exists_field_of_delivers hplaced hwritten hcopies htarget
    rw [getLastD_inputAddresses_switch hempty hop hfield]
    exact haddress
  · intro number hconstant htext hnumber
    obtain ⟨first, hplace, hvalue⟩ := readNat_of_delivers hconstant htext hnumber hindex
    rw [switchIndex_eq hempty hop hplace]
    exact hvalue

/-- In a table that memory holds the address of each label is found by its index. -/
theorem readAddress_of_jumpTable {cursor stop : Nat} {names : List TokenId}
    {after : List Statement} {labels : List Label} {entries : List Entry}
    (hplaced : Layout.ofStatements store config statements = .ok layout)
    (hlaidOut : LaidOut store config layout pool cursor (jumpTable names ++ after) labels entries
      stop) (hplain : m.memory.Plain)
    (hheld : ∀ entry ∈ entries, m.memory.Holds entry.address entry.bytes) {index : Nat}
    {name : TokenId} (hname : names[index]? = some name) :
    addressOf? layout.labels (store.text name) =
      some (m.readAddress (Address.move cursor (index * Address.byteCount : Nat))) := by
  obtain ⟨address, entry, hfound, hmem, hplace, hbytes⟩ :=
    hlaidOut.entry_of_jumpTable hplaced hname
  have hread := (hheld entry hmem).read_eq hplain
  rw [hbytes, Bytes.length_ofNat] at hread
  rw [Address.move_ofNat, ← hplace, readAddress_wrap hplain.size_eq, readAddress_of_read hread,
    Address.wrap_eq_self (Layout.addressOf?_lt hplaced hfound), hfound]

/-- A switch on a table of labels goes on at the label of its index. In a program that is accepted,
`table` is a label with declarations of addresses behind it, each of them the name of a label, and
`statement` is a switch whose second operand is the name of the table. A machine without devices
that comes to the switch with the bytes of the program in memory executes it, and goes on at the
label that the number in its first operand counts off in the table. That number is the operand if
it is written as one. -/
theorem step_switch_of_build {importer : Importer} {name : String} {text : List Char}
    {program : Program} {symbols : Symbols}
    (hparse : Assembly.parse config importer name text = .ok (statements, store))
    (hbuild : Assembly.build config importer name text = .ok (program, symbols))
    {before after : List Statement} {table : TokenId} {names : List TokenId}
    (htable : statements = before ++ .label table :: (jumpTable names ++ after))
    {front back : List Statement} {index target : Term} {reference : TokenId}
    (hswitch : statements = front ++ .instruction statement :: back)
    (hopcode : statement.opcode = .switch) (hinputs : statement.inputs = [index, target])
    (hwritten : target.written = .word reference) (hcopies : target.copies = 1)
    (hreference : store.text reference = store.text table) :
    ∃ layout pool labels earlier entry,
      Layout.ofStatements store config statements = .ok layout ∧
      ConstantPool.ofLayout layout store config = .ok pool ∧
      LaidOut store config layout pool 0 front labels earlier entry.address ∧
      entry ∈ symbols.entries ∧ entry.token = statement.token ∧
      ∀ m : Machine, m.memory.Plain → m.sleep = 0 → m.pc = entry.address →
        (∀ segment ∈ program.segments, m.memory.Holds segment.address segment.bytes) →
        m.step.1 = .executed .switch ∧
        (∀ label, names[m.switchIndex]? = some label →
          symbols.addressOf? (store.text label) = some m.step.2.pc) ∧
        ∀ number, index.IsConstant store → ¬ index.IsText →
          layout.termNumber store index = .ok number →
          m.switchIndex = (number.toCell .unsigned).toNat % 2 ^ 32 := by
  obtain ⟨found, same, image, hfound, himage, rfl, rfl⟩ := Assembly.build_eq_ok hbuild
  rw [hparse] at hfound
  cases hfound
  obtain ⟨layout, pool, hlayout, hpool, hprogram, hlaidOut⟩ := Image.exists_laidOut himage
  obtain ⟨expanded, -, hread⟩ := Assembly.exists_tokens_of_parse hparse
  have hstatement := TokenStore.wellFormed_of_statements hread (.instruction statement)
    (by rw [hswitch]; exact List.mem_append_right _ List.mem_cons_self)
  have hlabels := Image.labels_eq hlayout himage
  have hsymbols : ∀ other, (Symbols.new store image.labels image.entries).addressOf? other =
      addressOf? layout.labels other := by
    rw [hlabels]
    exact Symbols.addressOf?_new hlayout image.entries
  have hlisted : image.entries.Perm (Symbols.new store image.labels image.entries).entries :=
    (List.mergeSort_perm _ _).symm
  -- the table lies where its label stands
  have hlaidTable := hlaidOut
  rw [htable] at hlaidTable
  obtain ⟨_, _, others, rows, place, hrows, -, hlaidRows, hlabel⟩ := hlaidTable.exists_label
  rw [hlabels] at hlabel
  have hplace : addressOf? layout.labels (store.text table) = some place :=
    (Layout.addressOf?_eq_some_iff hlayout).mpr ⟨_, hlabel, rfl, rfl⟩
  have hlaidSwitch := hlaidOut
  rw [hswitch] at hlaidSwitch
  obtain ⟨labels, earlier, entry, later, next, hentries, hfront, htoken, hemits⟩ :=
    hlaidSwitch.exists_instruction
  have hentry : entry ∈ image.entries := by
    rw [hentries]
    exact List.mem_append_right _ List.mem_cons_self
  refine ⟨layout, pool, labels, earlier, entry, hlayout, hpool, hfront, hlisted.mem_iff.mp hentry,
    htoken, ?_⟩
  intro m hplain hsleep hpc hheld
  rw [hprogram] at hheld
  obtain ⟨hholds, hcells⟩ := Image.holds_of_segments hheld
  rw [← hpc] at hemits
  obtain ⟨hop, hfield, hindex⟩ := fetch_of_emits_switch hstatement hlayout hpool hemits hplain
    (List.forall_mem_singleton.mpr (hholds entry hentry)) hcells hopcode hinputs hwritten hcopies
  rw [hreference, hplace] at hfield
  obtain ⟨hexecuted, hgoes⟩ := step_switch hplain.mappings_eq hsleep hop
  rw [← Option.some.inj hfield] at hgoes
  have hrowsHeld : ∀ row ∈ rows, m.memory.Holds row.address row.bytes :=
    fun row hrow => hholds row (hrows ▸ List.mem_append_right _ hrow)
  refine ⟨hexecuted, fun label hname => ?_, hindex⟩
  rw [hsymbols, hgoes]
  exact readAddress_of_jumpTable hlayout hlaidRows hplain hrowsHeld hname

/-- A table with its first three bytes around the end of memory, and a switch behind it that takes
the second address of the table. -/
def aroundText : List Char := "@0xfffffe t: :p24 t, b\nb: switch 1, t".toList

/-- What the text is cut into. -/
def aroundStore : TokenStore := (TokenStore.empty.load "jump" aroundText).2

/-- What the text says. -/
def aroundStatements : List Statement :=
  [.position 0, .label 1] ++ (jumpTable [3, 5] ++ [.label 7, .instruction
    ⟨.switch, 8, none, 1, [⟨.literal 9 false, 9, 1⟩, ⟨.word 11, 11, 1⟩], []⟩])

theorem parse_aroundText :
    Assembly.parse .standard (fun _ _ => none) "jump" aroundText =
      .ok (aroundStatements, aroundStore) := by
  have hread : aroundStore.statements (TokenStore.empty.load "jump" aroundText).1 =
      .ok aroundStatements := by decide +kernel
  rw [Assembly.parse_eq_statements _ _ (by decide +kernel)]
  exact congrArg (Except.map (·, aroundStore)) hread

/-- The table is written around the end of memory, and the switch behind it. -/
theorem exists_program_aroundText :
    ∃ program symbols,
      Assembly.build .standard (fun _ _ => none) "jump" aroundText = .ok (program, symbols) ∧
      symbols.addressOf? "t" = some 0xfffffe ∧ symbols.addressOf? "b" = some 4 ∧
      (∀ entry ∈ symbols.entries, entry.token = 8 → entry.address = 4) ∧
      ∀ segment ∈ program.segments, segment ∈ [⟨0xfffffe, [0xfe, 0xff, 0xff]⟩,
        ⟨1, [4, 0, 0, 68, 40, 10, 19, 0, 0, 0, 0, 18, 0, 0, 0xfe, 0xff, 0xff, 1, 0, 0, 0]⟩] := by
  have hparts : (Layout.ofStatements aroundStore .standard aroundStatements >>= fun layout =>
      ConstantPool.ofLayout layout aroundStore .standard >>= fun pool =>
        (Image.write layout aroundStore pool 0 layout.lowered.toList).map fun entries =>
          (addressOf? layout.labels "t", addressOf? layout.labels "b",
            entries.map (fun entry => (entry.token, entry.address)),
            (Program.ofWrites (Image.writes entries pool)).segments)) =
      .ok (some 0xfffffe, some 4, [(3, 0xfffffe), (5, 1), (8, 4)],
        [⟨0xfffffe, [0xfe, 0xff, 0xff]⟩,
          ⟨1, [4, 0, 0, 68, 40, 10, 19, 0, 0, 0, 0, 18, 0, 0, 0xfe, 0xff, 0xff, 1, 0, 0, 0]⟩]) := by
    simp only [ConstantPool.ofLayout, ConstantPool.base, Extent.free?_eq_insertionSort]
    decide +kernel
  obtain ⟨layout, hlayout, hparts⟩ := bind_eq_ok.mp hparts
  obtain ⟨pool, hpool, hparts⟩ := bind_eq_ok.mp hparts
  obtain ⟨entries, hwrite, hparts⟩ := map_eq_ok.mp hparts
  simp only [Prod.mk.injEq] at hparts
  obtain ⟨htable, hlabel, hentries, hsegments⟩ := hparts
  have himage : Image.ofStatements aroundStore .standard aroundStatements =
      .ok ⟨Image.assemble entries pool, layout.labels.toList, entries⟩ :=
    bind_eq_ok.mpr ⟨_, hlayout, bind_eq_ok.mpr ⟨_, hpool, bind_eq_ok.mpr ⟨_, hwrite, rfl⟩⟩⟩
  have hbuild : Assembly.build .standard (fun _ _ => none) "jump" aroundText =
      .ok (Image.assemble entries pool, .new aroundStore layout.labels.toList entries) :=
    bind_eq_ok.mpr ⟨_, parse_aroundText, bind_eq_ok.mpr ⟨_, himage, rfl⟩⟩
  rw [← Symbols.addressOf?_new hlayout entries] at htable hlabel
  refine ⟨_, _, hbuild, htable, hlabel, ?_, ?_⟩
  · intro entry hmem htoken
    have hwritten : entry ∈ entries := (List.mergeSort_perm _ _).mem_iff.mp hmem
    have hpair := List.mem_map_of_mem (f := fun entry => (entry.token, entry.address)) hwritten
    rw [hentries, htoken] at hpair
    simpa using hpair
  · intro segment hmem
    rw [← hsegments]
    exact (List.mergeSort_perm _ _).mem_iff.mp hmem

/-- The switch goes on behind the end of the table, which is at the switch itself. -/
theorem step_switch_of_build_around :
    let m : Machine := { Machine.new ⟨4, 0, 0x100⟩ default with
      memory := ((Memory.ofRam .full).write 1 [4, 0, 0, 68, 40, 10, 19, 0, 0, 0, 0, 18, 0, 0,
        0xfe, 0xff, 0xff, 1, 0, 0, 0]).write 0xfffffe [0xfe, 0xff, 0xff] }
    ∃ program symbols,
      Assembly.build .standard (fun _ _ => none) "jump" aroundText = .ok (program, symbols) ∧
      symbols.addressOf? "t" = some 0xfffffe ∧ symbols.addressOf? "b" = some 4 ∧
      (∀ segment ∈ program.segments, m.memory.Holds segment.address segment.bytes) ∧
      m.step.1 = .executed .switch ∧ m.switchIndex = 1 ∧ m.step.2.pc = 4 := by
  intro m
  let operands : List Term := [⟨.literal 9 false, 9, 1⟩, ⟨.word 11, 11, 1⟩]
  let switch : InstructionStatement := ⟨.switch, 8, none, 1, operands, []⟩
  let behind : List Statement := [.label 7, .instruction switch]
  let front : List Statement := [.position 0, .label 1, .data .p24 ⟨.word 3, 3, 1⟩,
    .data .p24 ⟨.word 5, 5, 1⟩, .label 7]
  have hlisted : aroundStatements =
      [Statement.position 0] ++ .label 1 :: (jumpTable [3, 5] ++ behind) := rfl
  have hswitch : aroundStatements = front ++ [Statement.instruction switch] := rfl
  have hinputs : switch.inputs = [⟨.literal 9 false, 9, 1⟩, ⟨.word 11, 11, 1⟩] := rfl
  obtain ⟨program, symbols, hbuild, htable, hlabel, hplaces, hsegments⟩ :=
    exists_program_aroundText
  obtain ⟨_, _, _, _, entry, -, -, -, hentry, htoken, hstep⟩ :=
    step_switch_of_build parse_aroundText hbuild hlisted hswitch rfl hinputs rfl rfl
      (by decide +kernel)
  have hplain : m.memory.Plain := (Memory.plain_full.write _ _).write _ _
  have hheld : ∀ segment ∈ program.segments,
      m.memory.Holds segment.address segment.bytes := by
    intro segment hmem
    rcases List.mem_cons.mp (hsegments segment hmem) with rfl | hlast
    · exact Memory.holds_write (Memory.plain_full.write _ _) (by decide)
    · obtain rfl := List.mem_singleton.mp hlast
      have hfirst := Memory.plain_full.write 1 [4, 0, 0, 68, 40, 10, 19, 0, 0, 0, 0, 18, 0, 0,
        0xfe, 0xff, 0xff, 1, 0, 0, 0]
      refine (Memory.holds_write Memory.plain_full (by decide)).kept hfirst hplain
        (hfirst.keptOutside_write _ _) (List.forall_mem_singleton.mpr ?_)
      apply Span.apart_of_distance <;> decide
  obtain ⟨hexecuted, hgoes, hindex⟩ :=
    hstep m hplain rfl (hplaces entry hentry htoken).symm hheld
  have hread : Number.parse? (aroundStore.chars 9) = some (.integer 1) := by decide +kernel
  have hone : m.switchIndex = 1 :=
    hindex (.integer 1) trivial (by rintro ⟨token, hwritten⟩; cases hwritten)
      (by simp [Layout.termNumber, hread])
  have htext : aroundStore.text 5 = "b" := by decide +kernel
  have hgoal := hgoes 5 (by rw [hone]; rfl)
  rw [htext, hlabel] at hgoal
  exact ⟨program, symbols, hbuild, htable, hlabel, hheld, hexecuted, hone,
    (Option.some.inj hgoal).symm⟩

end Machine

end VectorStack
