import VectorStack.Proofs.Arithmetic.Lanes
import VectorStack.Proofs.Machine.CallReturn
import VectorStack.Proofs.Machine.Delivery
import VectorStack.Proofs.Program.Held
import VectorStack.Proofs.Program.Reading
/-!
Arithmetic from its text to the bytes of its result. The text of an instruction on two numbers is
assembled and loaded, and one step of the machine pushes lanes that all hold the result of the
operation on the numbers, each brought into the range of the type.
-/

namespace VectorStack

open Address (space wrap wrap_eq_self)

variable {store : TokenStore} {config : AssemblyConfig} {layout : Layout} {pool : ConstantPool}
  {statements : List Statement}

namespace InstructionStatement

theorem wellFormed_onNumbers (op : BinaryOp) (token : TokenId) {type : DataType} {width : Nat}
    (htype : type.isSupported = true) (hpos : 1 ≤ width) (hle : width ≤ Instruction.maxWidth)
    (first second : TokenId) : (onNumbers op token type width first second).WellFormed where
  opcode_ne := nofun
  type_isSupported found hfound := by
    cases hfound
    exact htype
  width_pos := hpos
  width_le := hle
  inputs_le := Nat.le_refl 2
  outputs_le := Nat.zero_le 1

theorem takesIntegers_onNumbers (op : BinaryOp) (token : TokenId) (type : DataType) (width : Nat)
    {first second : TokenId} {a b : Cell}
    (hfirst : Number.parse? (store.chars first) = some (.integer a))
    (hsecond : Number.parse? (store.chars second) = some (.integer b)) :
    (onNumbers op token type width first second).TakesIntegers store where
  inputs := by
    intro term hmem
    rcases List.mem_cons.mp hmem with rfl | hmem
    · exact ⟨rfl, first, false, a, rfl, hfirst⟩
    · rw [List.mem_singleton.mp hmem]
      exact ⟨rfl, second, false, b, rfl, hsecond⟩
  outputs_eq := rfl

end InstructionStatement

/-- A type holds of a cell the number in its range that is congruent to the cell. -/
theorem DataType.integer_narrow {type : DataType} (hinteger : type.IsInteger) (cell : Cell) :
    type.mode.integer (type.narrow cell) = type.residue cell.toNat := by
  have htake : (type.encodeLane cell).take type.size = type.encodeLane cell :=
    List.take_of_length_le (Nat.le_of_eq (type.length_encodeLane cell))
  rw [← type.decodeLane_encodeLane, integer_decodeLane hinteger, htake, residue_encodeLane hinteger]

/-- An address stands for the number in its range that is congruent to the one written. -/
theorem DataType.integer_wrap (n : Nat) :
    p24.mode.integer (UInt64.ofNat (wrap n)) = p24.residue n := by
  have hlt : wrap n < 2 ^ 64 := Nat.lt_trans (Address.wrap_lt n) (by decide)
  have hnat : (UInt64.ofNat (wrap n)).toNat = n % 2 ^ 24 := UInt64.toNat_ofNat_of_lt' hlt
  exact congrArg Int.ofNat hnat

/-- The vector has lanes of a type, all of which stand for one number. -/
structure LaneVector.FilledWith (type : DataType) (n : Int) (v : LaneVector) : Prop where
  type_eq : v.type = type
  integer_lane : ∀ index, type.mode.integer (v.lane index) = n

namespace LaneVector

variable {type : DataType} {a b n : Int} {first second : LaneVector}

theorem filledWith_replicate (type : DataType) {width : Nat} (hwidth : 1 ≤ width) (cell : Cell) :
    FilledWith type (type.mode.integer cell) ⟨type, width, List.replicate width cell⟩ where
  type_eq := rfl
  integer_lane index := by
    have hlt : index % max width 1 < width := by
      rw [Nat.max_eq_left hwidth]
      exact Nat.mod_lt _ hwidth
    simp [lane, List.getD_eq_getElem?_getD, hlt]

/-- Lanes that all hold one number give lanes that all hold one number. -/
theorem FilledWith.integerLanes_zipInto (hinteger : type.IsInteger) (op : BinaryOp) (width : Nat)
    (hfirst : FilledWith type a first) (hsecond : FilledWith type b second) :
    type.integerLanes width (first.zipInto ⟨type, width⟩ op.apply second).encode =
      List.replicate width (type.residue (op.onIntegers type.bits a b)) := by
  have hmode : first.mode = type.mode := congrArg DataType.mode hfirst.type_eq
  have hcell : ∀ index,
      type.residue (op.apply type.mode (first.lane index) (second.lane index)).toNat =
        type.residue (op.onIntegers type.bits a b) := by
    intro index
    rw [← hfirst.integer_lane index, ← hsecond.integer_lane index]
    exact DataType.residue_eq_of_carries (op.carries_apply hinteger.mode_ne type.bits_le _ _)
  have hfill := integerLanes_fill hinteger width
    fun index => op.apply type.mode (first.lane index) (second.lane index)
  simp only [hcell] at hfill
  rw [zipInto, hmode, hfill]
  simp

end LaneVector

namespace Machine

variable {type : DataType} {width : Nat} {m : Machine} {place : Place}

/-- Where a number was written as an operand, the machine reads it in every lane. -/
theorem filledWith_of_delivers (hinteger : type.IsInteger) (hwidth : 1 ≤ width) {token : TokenId}
    {cell : Cell} (hnumber : Number.parse? (store.chars token) = some (.integer cell))
    (hdelivers : Delivers store layout m (some (.ofNumber token)) false ⟨type, width⟩
      (m.valueAt ⟨type, width⟩ place) place) :
    ∃ address, place = .memory address ∧
      (m.readInput ⟨⟨type, width⟩, .memory address⟩ address).lanes.FilledWith type
        (type.residue cell.toNat) := by
  have hterm : layout.termNumber store (.ofNumber token) = .ok (.integer cell) := by
    rw [Layout.termNumber, Term.ofNumber]
    dsimp only
    rw [hnumber]
    rfl
  cases hdelivers with
  | omitted hgiven => cases hgiven
  | placeholder hgiven hwritten | direct hgiven hwritten | offset hgiven hwritten
  | text hgiven hwritten =>
      cases hgiven
      cases hwritten
  | inlined hgiven hinline hfound hvalue =>
      cases hgiven
      rw [hterm] at hfound
      cases hfound
      -- only a single address is written in place of its address
      have hshape : type = .p24 ∧ width = 1 := by
        simp only [Term.isInline, Bool.and_eq_true, beq_iff_eq] at hinline
        exact ⟨hinline.1.1.2, hinline.1.2⟩
      obtain ⟨rfl, rfl⟩ := hshape
      refine ⟨_, rfl, ?_⟩
      rw [Option.some.inj hvalue, ← DataType.integer_wrap]
      exact LaneVector.filledWith_replicate .p24 (Nat.le_refl 1) _
  | constant hgiven _ _ _ _ hfound hvalue =>
      cases hgiven
      rw [hterm] at hfound
      cases hfound
      have hcell : (Number.integer cell).toCell type.mode = cell := by
        cases hmode : type.mode with
        | float => exact absurd hmode hinteger.mode_ne
        | signed | unsigned => rfl
      refine ⟨_, rfl, ?_⟩
      rw [Option.some.inj hvalue, constantInput, ← DataType.integer_narrow hinteger, hcell]
      exact LaneVector.filledWith_replicate type hwidth _

/-- What is not given is on the stack. -/
theorem eq_stack_of_delivers {output : Bool} {shape : Shape} {value : Option Input}
    (hdelivers : Delivers store layout m none output shape value place) : place = .stack := by
  cases hdelivers with
  | omitted | placeholder => rfl
  | inlined hgiven | direct hgiven | offset hgiven | constant hgiven | text hgiven => cases hgiven

/-- The operands of an operation on two vectors: both of them, and then the result. -/
theorem operands_binary {op : BinaryOp} (hopcode : m.fetch.opcode = .binary op)
    {first second result : Operand}
    (hfirst : (m.inputOperands ++ m.outputOperands)[0]? = some first)
    (hsecond : (m.inputOperands ++ m.outputOperands)[1]? = some second)
    (hresult : (m.inputOperands ++ m.outputOperands)[2]? = some result) :
    m.inputOperands = [first, second] ∧ m.outputOperands = [result] := by
  obtain ⟨x, y, hinputs⟩ := List.length_eq_two.mp
    (m.length_inputOperands.trans (congrArg (fun op => op.template.inputs.length) hopcode))
  obtain ⟨z, houtputs⟩ := List.length_eq_one_iff.mp
    (m.length_outputOperands.trans (congrArg (fun op => op.template.outputs.length) hopcode))
  rw [hinputs, houtputs] at hfirst hsecond hresult
  cases hfirst
  cases hsecond
  cases hresult
  exact ⟨hinputs, houtputs⟩

/-- An operation on two vectors in memory works lane for lane, and pops nothing. -/
theorem performed_binary (hempty : m.memory.mappings = []) {op : BinaryOp}
    (hopcode : m.fetch.opcode = .binary op) {shape : Shape} {x y : Nat}
    (hinputs : m.inputOperands = [⟨shape, .memory x⟩, ⟨shape, .memory y⟩])
    (houtputs : m.outputOperands = [⟨shape, .stack⟩]) :
    m.popped.sp = m.sp ∧
      m.performed = (m.popped, [(m.readInput ⟨shape, .memory x⟩ x).lanes.zipInto shape op.apply
        (m.readInput ⟨shape, .memory y⟩ y).lanes]) := by
  constructor
  · rw [sp_popped, hinputs]
    rfl
  · rw [performed_eq hempty, inputAddresses, hinputs, houtputs, hopcode]
    rfl

/-- A machine that comes to an operation on two numbers pushes lanes that all hold its result. -/
theorem step_onNumbers {op : BinaryOp} {token first second : TokenId} {a b : Cell}
    {labels : List Label} {entries : List Entry} {stop : Nat} (hdefault : config.SupportsDefault)
    (hinteger : type.IsInteger) (hpos : 1 ≤ width) (hle : width ≤ Instruction.maxWidth)
    (hlayout : Layout.ofStatements store config statements = .ok layout)
    (hpool : ConstantPool.ofLayout layout store config = .ok pool)
    (hemits : Emits store config layout pool m.pc
      (.instruction (.onNumbers op token type width first second)) labels entries stop)
    (hfirst : Number.parse? (store.chars first) = some (.integer a))
    (hsecond : Number.parse? (store.chars second) = some (.integer b))
    (hplain : m.memory.Plain) (hsleep : m.sleep = 0)
    (hholds : ∀ entry ∈ entries, m.memory.Holds entry.address entry.bytes)
    (hcells : ∀ placed ∈ pool.cells, m.memory.Holds placed.1 placed.2.content.bytes) :
    ∃ (next : Machine) (result : LaneVector), next.sp = m.sp ∧ next.memory = m.memory ∧
      m.step = (.executed (.binary op), next.writeOutput ⟨⟨type, width⟩, .stack⟩ result) ∧
      result.encode.length = type.size * width ∧
      type.integerLanes width result.encode = List.replicate width
        (type.residue (op.onIntegers type.bits (type.residue a.toNat) (type.residue b.toNat))) := by
  have hstatement := InstructionStatement.wellFormed_onNumbers op token hinteger.isSupported hpos
    hle first second
  have hempty := hplain.mappings_eq
  have hstep := step_of_emits hdefault hstatement hlayout hpool hemits hplain hsleep hholds hcells
  obtain ⟨hopcode, -, hoperands⟩ :=
    fetch_of_emits hstatement hlayout hpool hemits hplain hholds hcells
  have hfound : ∀ index < 3, ∃ place,
      (m.inputOperands ++ m.outputOperands)[index]? = some ⟨⟨type, width⟩, place⟩ ∧
      Delivers store layout m
        ((InstructionStatement.onNumbers op token type width first second).term? index)
        (decide (2 ≤ index)) ⟨type, width⟩ (m.valueAt ⟨type, width⟩ place) place := by
    intro index hindex
    have hslot : (Opcode.binary op).template.slots[index]? = some .free := by
      change (List.replicate 3 Slot.free)[index]? = some .free
      rw [List.getElem?_replicate, if_pos hindex]
    obtain ⟨_, _, place, htype, rfl, -, hoperand, hdelivers⟩ := hoperands index .free hslot
    cases htype
    exact ⟨place, hoperand, hdelivers⟩
  obtain ⟨_, hfirstOperand, hdeliversFirst⟩ := hfound 0 (by decide)
  obtain ⟨_, hsecondOperand, hdeliversSecond⟩ := hfound 1 (by decide)
  obtain ⟨_, hresultOperand, hdeliversResult⟩ := hfound 2 (by decide)
  obtain ⟨x, rfl, hfilledFirst⟩ := filledWith_of_delivers hinteger hpos hfirst hdeliversFirst
  obtain ⟨y, rfl, hfilledSecond⟩ := filledWith_of_delivers hinteger hpos hsecond hdeliversSecond
  cases eq_stack_of_delivers hdeliversResult
  obtain ⟨hinputs, houtputs⟩ := operands_binary hopcode hfirstOperand hsecondOperand hresultOperand
  obtain ⟨hsp, hperformed⟩ := performed_binary hempty hopcode hinputs houtputs
  rw [hperformed, houtputs] at hstep
  exact ⟨m.popped, _, hsp, memory_popped hempty, hstep, LaneVector.length_encode_tabulate _ _ _,
    hfilledFirst.integerLanes_zipInto hinteger op width hfilledSecond⟩

/-- Lanes that are read one by one are those that are read together. -/
theorem integer_readLane (hinteger : type.IsInteger) {m : Machine}
    (hempty : m.memory.mappings = []) (address : Nat) {lane : Nat}
    (hlane : lane < width) :
    (type.integerLanes width (m.memory.read address (type.size * width)))[lane]? =
      some (type.mode.integer (m.readLane (address + lane * type.size) type)) := by
  obtain ⟨rest, rfl⟩ := Nat.exists_eq_add_of_lt hlane
  have hsize : type.size * (lane + rest + 1) =
      lane * type.size + (type.size + type.size * rest) := by
    rw [Nat.mul_succ, Nat.mul_add, Nat.mul_comm lane]
    omega
  have hdrop : (m.memory.read address (type.size * (lane + rest + 1))).drop (lane * type.size) =
      m.memory.read (address + lane * type.size) type.size ++
        m.memory.read (address + lane * type.size + type.size) (type.size * rest) := by
    rw [hsize, Memory.read_add_of_unmapped hempty, Memory.read_add_of_unmapped hempty]
    exact List.drop_left' (Memory.length_read _ _ _)
  have hlength := Memory.length_read m.memory (address + lane * type.size) type.size
  rw [← DataType.map_integer_decodeLanes hinteger, type.decodeLanes_eq, List.getElem?_map,
    List.getElem?_map, List.getElem?_range hlane, Option.map_some, Option.map_some, hdrop,
    type.decodeLane_append hlength]
  rfl

/-- What an instruction pushes is read back lane by lane. -/
theorem integer_readLane_pushed (hinteger : type.IsInteger) (hplain : m.memory.Plain)
    {result : LaneVector} (hlength : result.encode.length = type.size * width)
    (hle : width ≤ Instruction.maxWidth) {lane : Nat} (hlane : lane < width) :
    (type.integerLanes width result.encode)[lane]? =
      some (type.mode.integer ((m.writeOutput ⟨⟨type, width⟩, .stack⟩ result).readLane
        ((m.writeOutput ⟨⟨type, width⟩, .stack⟩ result).sp + lane * type.size) type)) := by
  have hsize : type.size * width ≤ 8 * 8 := Nat.mul_le_mul type.size_le hle
  have hheld : (m.writeOutput ⟨⟨type, width⟩, .stack⟩ result).memory.Holds
      (m.writeOutput ⟨⟨type, width⟩, .stack⟩ result).sp result.encode :=
    Memory.holds_write hplain (by rw [hlength]; exact Nat.le_trans hsize (by decide))
  have hread := hheld.read_eq (hplain.write _ _)
  rw [hlength] at hread
  rw [← hread]
  exact integer_readLane (m := m.writeOutput ⟨⟨type, width⟩, .stack⟩ result) hinteger
    (hplain.write _ _).mappings_eq _ hlane

end Machine

/-- The instructions of the text of an operation on two numbers are on integers. -/
theorem onIntegers_arithmeticStatements {type : DataType} {width : Nat} {a b : Cell}
    (op : BinaryOp) (htype : type.isSupported = true) (hpos : 1 ≤ width)
    (hle : width ≤ Instruction.maxWidth)
    (hfirst : Number.parse? (store.chars 4) = some (.integer a))
    (hsecond : Number.parse? (store.chars 6) = some (.integer b)) :
    ∀ statement ∈ arithmeticStatements op type width, statement.OnIntegers store := by
  refine List.forall_mem_cons.mpr ⟨⟨?_, ?_⟩, List.forall_mem_singleton.mpr ⟨?_, ?_⟩⟩
  · exact InstructionStatement.wellFormed_onNumbers op 0 htype hpos hle 4 6
  · exact InstructionStatement.takesIntegers_onNumbers op 0 type width hfirst hsecond
  · exact ⟨nofun, nofun, by decide, by decide, by decide, by decide⟩
  · exact ⟨nofun, rfl⟩

/-- The text of an operation on two numbers assembles, and then memory holds all of it. -/
theorem Assembly.assemble_arithmeticText (importer : Importer) (name : String) (op : BinaryOp)
    {type : DataType} {width a b : Nat} {first second : String} {memory : Memory}
    (hplain : memory.Plain) (htype : type.isSupported = true) (hpos : 1 ≤ width)
    (hle : width ≤ Instruction.maxWidth) (hfirst : Numeral first.toList a)
    (hsecond : Numeral second.toList b) (ha : a < 2 ^ 64) (hb : b < 2 ^ 64) :
    ∃ (store : TokenStore) (image : Image) (layout : Layout) (pool : ConstantPool)
      (after : Memory),
      assemble .standard importer name (arithmeticText op type width first second).toList memory =
        .ok (.new store image.labels image.entries, after) ∧
      image.HeldBy store .standard (arithmeticStatements op type width) layout pool after ∧
      Number.parse? (store.chars 4) = some (.integer (UInt64.ofNat a)) ∧
      Number.parse? (store.chars 6) = some (.integer (UInt64.ofNat b)) := by
  obtain ⟨store, hparse, hfirstChars, hsecondChars⟩ :=
    parse_arithmeticText .standard importer name op htype hpos hle hfirst hsecond
  have hfirstNumber := Number.parse?_numeral hfirst ha
  have hsecondNumber := Number.parse?_numeral hsecond hb
  rw [← hfirstChars] at hfirstNumber
  rw [← hsecondChars] at hsecondNumber
  have hstatements :=
    onIntegers_arithmeticStatements op htype hpos hle hfirstNumber hsecondNumber
  obtain ⟨image, himage⟩ := Image.exists_ofStatements AssemblyConfig.supportsDefault_standard
    rfl rfl hstatements (by decide : 2 * InstructionStatement.maxRoom ≤ space)
  obtain ⟨layout, pool, hheld⟩ := Image.heldBy_load hplain hstatements
    (by decide : 2 * Instruction.maxSize < space) himage
  have hassemble : assemble .standard importer name
      (arithmeticText op type width first second).toList memory =
        .ok (.new store image.labels image.entries, image.program.load memory) :=
    bind_eq_ok.mpr ⟨_, bind_eq_ok.mpr ⟨_, hparse, bind_eq_ok.mpr ⟨_, himage, rfl⟩⟩, rfl⟩
  exact ⟨store, image, layout, pool, _, hassemble, hheld, hfirstNumber, hsecondNumber⟩

namespace Machine

variable {type : DataType} {width : Nat}

/-- Arithmetic from its text to the bytes of its result. Whatever the numbers, the text of an
operation on them assembles into the memory of a new machine, whose first step executes the
operation and pushes one lane or more. Each of them holds the result of the operation on the
numbers that the type has for those written, brought into the range of the type. -/
theorem step_arithmeticText (importer : Importer) (name : String) (generator : Generator)
    (op : BinaryOp) (hinteger : type.IsInteger) (hpos : 1 ≤ width)
    (hle : width ≤ Instruction.maxWidth) {first second : String} {a b : Nat}
    (hfirst : Numeral first.toList a) (hsecond : Numeral second.toList b) (ha : a < 2 ^ 64)
    (hb : b < 2 ^ 64) :
    ∃ symbols memory after,
      Assembly.assemble .standard importer name (arithmeticText op type width first second).toList
          (new ⟨0, 0, 0⟩ generator).memory = .ok (symbols, memory) ∧
      step { new ⟨0, 0, 0⟩ generator with memory } = (.executed (.binary op), after) ∧
      after.sp = space - width * type.size ∧
      ∀ lane < width, type.mode.integer (after.readLane (after.sp + lane * type.size) type) =
        type.residue (op.onIntegers type.bits (type.residue a) (type.residue b)) := by
  obtain ⟨store, image, layout, pool, memory, hassemble, hheld, hfirstNumber, hsecondNumber⟩ :=
    Assembly.assemble_arithmeticText importer name op
      (⟨rfl, rfl⟩ : (new ⟨0, 0, 0⟩ generator).memory.Plain) hinteger.isSupported hpos hle hfirst
      hsecond ha hb
  -- the operation is the first thing at address zero; the halt behind it is not run
  obtain ⟨labels, entries, stop, hemits, hentries⟩ :
      ∃ labels entries stop, Emits store .standard layout pool 0
        (.instruction (.onNumbers op 0 type width 4 6)) labels entries stop ∧
          ∀ entry ∈ entries, memory.Holds entry.address entry.bytes := by
    have hlaidOut := hheld.laidOut
    have hall := hheld.entries
    generalize image.labels = labels, image.entries = entries at hlaidOut hall
    cases hlaidOut with
    | cons hhead _ =>
        exact ⟨_, _, _, hhead, fun entry hmem => hall entry (List.mem_append_left _ hmem)⟩
  obtain ⟨next, result, hsp, hmemory, hstep, hlength, hlanes⟩ :=
    @step_onNumbers store .standard layout pool _ type width
      { new ⟨0, 0, 0⟩ generator with memory } op 0 4 6 _ _ labels entries stop
      AssemblyConfig.supportsDefault_standard hinteger hpos hle hheld.layout_eq hheld.pool_eq hemits
      hfirstNumber hsecondNumber hheld.plain rfl hentries hheld.cells
  have hsize : type.size * width ≤ 8 * 8 := Nat.mul_le_mul type.size_le hle
  have hsome : 0 < type.size * width :=
    Nat.mul_pos (DataType.size_pos hinteger.isSupported) hpos
  have hpushed : Address.move next.sp (-((type.size * width : Nat) : Int)) =
      space - width * type.size := by
    rw [hsp, Nat.mul_comm width]
    unfold Address.move space
    change ((0 + _) % _ : Int).toNat = _
    omega
  refine ⟨_, memory, next.writeOutput ⟨⟨type, width⟩, .stack⟩ result, hassemble, hstep, hpushed, ?_⟩
  intro lane hlane
  have hplain : next.memory.Plain := by
    rw [hmemory]
    exact hheld.plain
  have hresult := integer_readLane_pushed hinteger hplain hlength hle hlane
  rw [hlanes, List.getElem?_replicate, if_pos hlane, Option.some.injEq] at hresult
  rw [← hresult, UInt64.toNat_ofNat_of_lt' ha, UInt64.toNat_ofNat_of_lt' hb]

/-- Signed bytes: 200 is read as -56, and what is left after taking 100 away wraps to 100. -/
theorem step_arithmeticText_sub :
    ∃ symbols memory after,
      Assembly.assemble .standard (fun _ _ => none) "input" "sub:i8*3 200, 0100\nhalt\n".toList
          (new ⟨0, 0, 0⟩ default).memory = .ok (symbols, memory) ∧
      step { new ⟨0, 0, 0⟩ default with memory } = (.executed (.binary .sub), after) ∧
      after.sp = 0xfffffd ∧
      ∀ lane < 3, Mode.signed.integer (after.readLane (after.sp + lane) .i8) = 100 := by
  have hinteger : DataType.i8.IsInteger := trivial
  have hfirst : Numeral "200".toList 200 := ⟨by decide, List.all_eq_true.mp (by decide), rfl⟩
  have hsecond : Numeral "0100".toList 100 := ⟨by decide, List.all_eq_true.mp (by decide), rfl⟩
  have htext : arithmeticText .sub .i8 3 "200" "0100" = "sub:i8*3 200, 0100\nhalt\n" := by
    decide +kernel
  have hresult : DataType.i8.residue (BinaryOp.sub.onIntegers DataType.i8.bits
      (DataType.i8.residue (200 : Nat)) (DataType.i8.residue (100 : Nat))) = 100 := by decide
  obtain ⟨symbols, memory, after, hassemble, hstep, hsp, hlanes⟩ :=
    step_arithmeticText (fun _ _ => none) "input" default .sub hinteger
      (by decide : 1 ≤ 3) (by decide) hfirst hsecond (by decide) (by decide)
  rw [htext] at hassemble
  refine ⟨symbols, memory, after, hassemble, hstep, hsp, ?_⟩
  intro lane hlane
  have hlast := hlanes lane hlane
  rw [hresult, show DataType.i8.size = 1 from rfl, Nat.mul_one] at hlast
  exact hlast

end Machine

end VectorStack
