import VectorStack.Proofs.Arithmetic.Lanes
import VectorStack.Proofs.Machine.Malformed
import VectorStack.Proofs.Machine.Stack
/-!
Branches on integer lanes. A branch compares cells of 64 bits in the mode of its first operand; on
lanes of an integer type that is the comparison of the numbers in the lanes, and the branch is taken
when every lane passes. So of less, equal and greater exactly one holds of a single lane, and the
other relations follow from these.
-/

namespace VectorStack

open Address (space wrap)

namespace ZeroTest

/-- The condition on a number. -/
def Holds : ZeroTest → Int → Prop
  | .zero, x => x = 0
  | .nonzero, x => x ≠ 0
  | .negative, x => x < 0
  | .positive, x => 0 < x

instance (test : ZeroTest) (x : Int) : Decidable (test.Holds x) :=
  match test with
  | .zero => inferInstanceAs (Decidable (x = 0))
  | .nonzero => inferInstanceAs (Decidable (x ≠ 0))
  | .negative => inferInstanceAs (Decidable (x < 0))
  | .positive => inferInstanceAs (Decidable (0 < x))

theorem accepts_compare_iff (test : ZeroTest) (x : Int) :
    test.accepts (some (compare x 0)) = true ↔ test.Holds x := by
  cases test with
  | zero => simp [accepts, Holds]
  | nonzero => simp [accepts, Holds]
  | negative => simp [accepts, Holds, Int.compare_eq_lt]
  | positive => simp [accepts, Holds, Int.compare_eq_gt]

end ZeroTest

namespace Relation

/-- The condition on two numbers. -/
def Holds : Relation → Int → Int → Prop
  | .eq, x, y => x = y
  | .ne, x, y => x ≠ y
  | .lt, x, y => x < y
  | .le, x, y => x ≤ y
  | .gt, x, y => x > y
  | .ge, x, y => x ≥ y

instance (relation : Relation) (x y : Int) : Decidable (relation.Holds x y) :=
  match relation with
  | .eq => inferInstanceAs (Decidable (x = y))
  | .ne => inferInstanceAs (Decidable (x ≠ y))
  | .lt => inferInstanceAs (Decidable (x < y))
  | .le => inferInstanceAs (Decidable (x ≤ y))
  | .gt => inferInstanceAs (Decidable (x > y))
  | .ge => inferInstanceAs (Decidable (x ≥ y))

theorem accepts_compare_iff (relation : Relation) (x y : Int) :
    relation.accepts (some (compare x y)) = true ↔ relation.Holds x y := by
  cases relation with
  | eq => simp [accepts, Holds]
  | ne => simp [accepts, Holds]
  | lt => simp [accepts, Holds, Int.compare_eq_lt]
  | gt => simp [accepts, Holds, Int.compare_eq_gt]
  | le =>
      simp only [accepts, Holds, Bool.or_eq_true, beq_iff_eq, Option.some_inj, Int.compare_eq_lt,
        Int.compare_eq_eq]
      omega
  | ge =>
      simp only [accepts, Holds, Bool.or_eq_true, beq_iff_eq, Option.some_inj, Int.compare_eq_gt,
        Int.compare_eq_eq]
      omega

end Relation

namespace Opcode

/-- Branches that compare the lanes of their operands. -/
def Compares : Opcode → Prop
  | branchZero _ | branchCompare _ => True
  | _ => False

theorem Compares.exists_eq {op : Opcode} (hop : op.Compares) :
    (∃ test, op = branchZero test) ∨ ∃ relation, op = branchCompare relation := by
  cases op with
  | branchZero test => exact .inl ⟨test, rfl⟩
  | branchCompare relation => exact .inr ⟨relation, rfl⟩
  | _ => exact hop.elim

/-- Whether a branch is taken on the numbers in the operands that it compares: every lane passes the
test, or every two lanes of one index are in the relation. -/
def IsTakenOn : Opcode → List (List Int) → Prop
  | branchZero test, [a] => ∀ x ∈ a, test.Holds x
  | branchCompare relation, [a, b] => ∀ pair ∈ a.zip b, relation.Holds pair.1 pair.2
  | _, _ => False

instance (op : Opcode) (operands : List (List Int)) : Decidable (op.IsTakenOn operands) := by
  unfold IsTakenOn
  split <;> infer_instance

end Opcode

namespace LaneVector

variable {type : DataType}

/-- Every lane passes a test if every number in the lanes does. -/
theorem all_ofBytes_iff (hinteger : type.IsInteger) (test : ZeroTest) (width : Nat)
    (bytes : Bytes) :
    (ofBytes type width bytes).all test = true ↔
      ∀ x ∈ type.integerLanes width bytes, test.Holds x := by
  have hzero : type.mode.integer 0 = 0 := (type.mode.integer_eq_zero_iff 0).mpr rfl
  have hcell (cell : Cell) : test.accepts (type.mode.compare cell 0) = true ↔
      test.Holds (type.mode.integer cell) := by
    rw [Mode.compare_eq hinteger.mode_ne, hzero]
    exact test.accepts_compare_iff _
  rw [← DataType.map_integer_decodeLanes hinteger, List.forall_mem_map, all, lanes_ofBytes,
    List.all_eq_true]
  exact forall₂_congr fun cell _ => hcell cell

/-- Every pair of lanes is in a relation if the numbers in them are. -/
theorem allPairs_ofBytes_iff (hinteger : type.IsInteger) (relation : Relation) (width : Nat)
    (first second : Bytes) :
    (ofBytes type width first).allPairs relation (ofBytes type width second) = true ↔
      ∀ pair ∈ (type.integerLanes width first).zip (type.integerLanes width second),
        relation.Holds pair.1 pair.2 := by
  have hcells (a b : Cell) : relation.accepts (type.mode.compare a b) = true ↔
      relation.Holds (type.mode.integer a) (type.mode.integer b) := by
    rw [Mode.compare_eq hinteger.mode_ne]
    exact relation.accepts_compare_iff _ _
  have hwidth : max (ofBytes type width first).width (ofBytes type width second).width = width :=
    Nat.max_self width
  rw [integerLanes_eq_map hinteger, integerLanes_eq_map hinteger, List.zip_map',
    List.forall_mem_map, allPairs, hwidth, List.all_eq_true]
  exact forall₂_congr fun index _ => hcells _ _

/-- An operand that is an address is the number in its bytes. -/
theorem address_ofBytes (bytes : Bytes) :
    (ofBytes .p24 1 bytes).address = wrap (Bytes.toNat (bytes.take Address.byteCount)) := by
  have hresidue := DataType.residue_modEq .p24 (Bytes.toNat (bytes.take Address.byteCount))
  have hmod : ((DataType.p24.decodeLane bytes).toNat : Int) ≡
      Bytes.toNat (bytes.take Address.byteCount) [ZMOD (2 ^ 24 : Nat)] := by
    change DataType.p24.mode.integer _ ≡ _ [ZMOD _]
    rw [@DataType.integer_decodeLane .p24 trivial bytes]
    exact hresidue
  rw [address, lane_zero_ofBytes (Nat.le_refl 1)]
  exact Int.natCast_modEq_iff.mp hmod

end LaneVector

namespace Machine

/-- The numbers in the operands that a branch compares, which are all but the last. -/
def compared (m : Machine) (type : DataType) : List (List Int) :=
  m.inputBytes.dropLast.map (type.integerLanes m.fetch.width)

/-- Where a branch goes, which is its last operand. -/
def target (m : Machine) : Nat := wrap (Bytes.toNat (m.inputBytes.getLastD []))

variable {m : Machine} {type : DataType}

/-- The operands that a branch compares have the types that the word names. -/
def ComparesIn (m : Machine) (type : DataType) : Prop :=
  m.fetch.opcode.Compares ∧
    ∀ index, index + 1 < m.fetch.opcode.template.inputs.length → m.fetch.typeAt index = type

theorem ComparesIn.not_isMalformed (hcompares : m.ComparesIn type) (hinteger : type.IsInteger) :
    ¬ m.fetch.IsMalformed := by
  obtain ⟨hop, htypes⟩ := hcompares
  have hsupported : type ≠ .unsupported := bne_iff_ne.mp hinteger.isSupported
  unfold Instruction.IsMalformed
  obtain ⟨test, hopcode⟩ | ⟨relation, hopcode⟩ := hop.exists_eq <;> rw [hopcode] at htypes ⊢
  · have hfirst := htypes 0 (by decide : 0 + 1 < 2)
    simp [Opcode.template, Template.slots, Slot.resolveType, Slot.free, Slot.address, Slot.scalar,
      hfirst, hsupported]
  · have hfirst := htypes 0 (by decide : 0 + 1 < 3)
    have hsecond := htypes 1 (by decide : 1 + 1 < 3)
    simp [Opcode.template, Template.slots, Slot.resolveType, Slot.free, Slot.address, Slot.scalar,
      hfirst, hsecond, hsupported]

theorem address_read (m : Machine) (address : Nat) :
    (LaneVector.ofBytes .p24 1 (m.memory.read address Address.byteCount)).address =
      wrap (m.memory.readNat address Address.byteCount) := by
  have hlength : (m.memory.read address Address.byteCount).length = Address.byteCount :=
    m.memory.length_read _ _
  rw [LaneVector.address_ofBytes, List.take_of_length_le (Nat.le_of_eq hlength)]
  rfl

/-- The first operands of a branch have the type that it compares in, and its last one is an
address. -/
theorem ComparesIn.shapes_eq (hcompares : m.ComparesIn type) :
    (∃ test, m.fetch.opcode = .branchZero test ∧ ∃ first last,
      m.inputOperands = [⟨⟨type, m.fetch.width⟩, first⟩, ⟨⟨.p24, 1⟩, last⟩]) ∨
    ∃ relation, m.fetch.opcode = .branchCompare relation ∧ ∃ first second last,
      m.inputOperands = [⟨⟨type, m.fetch.width⟩, first⟩, ⟨⟨type, m.fetch.width⟩, second⟩,
        ⟨⟨.p24, 1⟩, last⟩] := by
  obtain ⟨hop, htypes⟩ := hcompares
  obtain ⟨test, hopcode⟩ | ⟨relation, hopcode⟩ := hop.exists_eq <;> rw [hopcode] at htypes
  · have hfirst : m.fetch.types.1 = type := htypes 0 (by decide : 0 + 1 < 2)
    refine .inl ⟨test, hopcode, ?_⟩
    rw [inputOperands, inputs, hopcode]
    simp only [Opcode.template, operandsFrom, Instruction.shape, Instruction.typeAt, hfirst]
    exact ⟨_, _, rfl⟩
  · have hfirst : m.fetch.types.1 = type := htypes 0 (by decide : 0 + 1 < 3)
    have hsecond : m.fetch.types.2.1 = type := htypes 1 (by decide : 1 + 1 < 3)
    refine .inr ⟨relation, hopcode, ?_⟩
    rw [inputOperands, inputs, hopcode]
    simp only [Opcode.template, operandsFrom, Instruction.shape, Instruction.typeAt, hfirst,
      hsecond]
    exact ⟨_, _, _, rfl⟩

/-- A branch on numbers goes on at its target if the numbers that it compares pass. -/
theorem performed_of_comparesIn (hinteger : type.IsInteger) (hcompares : m.ComparesIn type) :
    m.performed.1 =
      m.supplied.branch (decide (m.fetch.opcode.IsTakenOn (m.compared type))) m.target := by
  obtain ⟨test, hopcode, first, last, hoperands⟩ |
    ⟨relation, hopcode, first, second, last, hoperands⟩ := hcompares.shapes_eq
  · obtain ⟨a, b, haddresses⟩ := List.length_eq_two.mp
      (m.length_inputAddresses.trans (congrArg List.length hoperands))
    have hpasses := LaneVector.all_ofBytes_iff hinteger test m.fetch.width
    rw [performed, hopcode, inputValues, compared, target, inputBytes, hoperands, haddresses]
    exact congrArg₂ m.supplied.branch
      (Bool.eq_iff_iff.mpr ((hpasses _).trans decide_eq_true_iff.symm)) (address_read _ b)
  · obtain ⟨a, b, c, haddresses⟩ := List.length_eq_three.mp
      (m.length_inputAddresses.trans (congrArg List.length hoperands))
    have hpasses := LaneVector.allPairs_ofBytes_iff hinteger relation m.fetch.width
    rw [performed, hopcode, inputValues, compared, target, inputBytes, hoperands, haddresses]
    exact congrArg₂ m.supplied.branch
      (Bool.eq_iff_iff.mpr ((hpasses _ _).trans decide_eq_true_iff.symm)) (address_read _ c)

/-- Without mapped ranges, the numbers that are compared and the target are where the operands
lie. -/
theorem compared_eq_of_unmapped (hcompares : m.ComparesIn type) (hempty : m.memory.mappings = []) :
    (m.compared type = m.inputAddresses.dropLast.map fun address =>
      type.integerLanes m.fetch.width (m.memory.read address (type.size * m.fetch.width))) ∧
    m.target = wrap (m.memory.readNat (m.inputAddresses.getLastD 0) Address.byteCount) := by
  obtain ⟨test, -, first, last, hoperands⟩ | ⟨relation, -, first, second, last, hoperands⟩ :=
    hcompares.shapes_eq
  · obtain ⟨a, b, haddresses⟩ := List.length_eq_two.mp
      (m.length_inputAddresses.trans (congrArg List.length hoperands))
    rw [compared, target, inputBytes_eq hempty, hoperands, haddresses]
    exact ⟨rfl, rfl⟩
  · obtain ⟨a, b, c, haddresses⟩ := List.length_eq_three.mp
      (m.length_inputAddresses.trans (congrArg List.length hoperands))
    rw [compared, target, inputBytes_eq hempty, hoperands, haddresses]
    exact ⟨rfl, rfl⟩

theorem step_of_comparesIn (hsleep : m.sleep = 0) (hinteger : type.IsInteger)
    (hcompares : m.ComparesIn type) :
    m.step = (.executed m.fetch.opcode,
      m.supplied.branch (decide (m.fetch.opcode.IsTakenOn (m.compared type))) m.target) := by
  have hnone : m.fetch.opcode.template.outputs = [] := by
    obtain ⟨test, hopcode⟩ | ⟨relation, hopcode⟩ := hcompares.1.exists_eq <;> rw [hopcode] <;> rfl
  have houtputs : m.outputOperands = [] := by
    rw [← List.length_eq_zero_iff, m.length_outputOperands, hnone]
    rfl
  rw [step_eq_ite_isMalformed hsleep, if_neg (hcompares.not_isMalformed hinteger), houtputs,
    ← performed_of_comparesIn hinteger hcompares]
  rfl

/-- Two numbers in one lane each are all that a branch on operands of one lane compares. -/
theorem isTakenOn_compared_iff {relation : Relation} {x y : Int} :
    (Opcode.branchCompare relation).IsTakenOn [[x], [y]] ↔ relation.Holds x y :=
  List.forall_mem_singleton

theorem exists_compared {relation : Relation} (type : DataType)
    (hop : m.fetch.opcode = .branchCompare relation) (hwidth : m.fetch.width = 1) :
    ∃ x y, m.compared type = [[x], [y]] := by
  have hlength : m.inputBytes.length = 3 := by
    rw [inputBytes, length_readBytes _ m.length_inputAddresses, length_inputOperands, hop]
    rfl
  obtain ⟨a, b, last, hbytes⟩ := List.length_eq_three.mp hlength
  rw [compared, hbytes, hwidth]
  exact ⟨_, _, rfl⟩

/-- A branch on lanes of an integer type goes on at its target if the numbers in all lanes pass its
test or are in its relation, and behind itself if not. It pops its operands and changes nothing
else, less what devices make of being read. So of the branches on the same two numbers exactly one
of less, equal and greater is taken, and less or equal and greater or equal are taken with either of
theirs. -/
theorem step_branch (hinteger : type.IsInteger) :
    (∀ m : Machine, m.sleep = 0 → m.ComparesIn type →
      (∃ memory, m.memory.Observed memory ∧ m.step = (.executed m.fetch.opcode, { m with
        memory,
        registers := ⟨if m.fetch.opcode.IsTakenOn (m.compared type) then m.target
          else wrap (m.pc + m.fetch.size), m.fp, m.popped.sp⟩ })) ∧
      wrap m.popped.sp = wrap (m.sp + stackBytes m.inputOperands) ∧
      (m.memory.mappings = [] →
        (m.step = (.executed m.fetch.opcode, { m with registers :=
          ⟨if m.fetch.opcode.IsTakenOn (m.compared type) then m.target
            else wrap (m.pc + m.fetch.size), m.fp, m.popped.sp⟩ })) ∧
        (m.compared type = m.inputAddresses.dropLast.map fun address =>
          type.integerLanes m.fetch.width (m.memory.read address (type.size * m.fetch.width))) ∧
        m.target = wrap (m.memory.readNat (m.inputAddresses.getLastD 0) Address.byteCount))) ∧
    ∀ m : Relation → Machine,
      (∀ relation, (m relation).sleep = 0 ∧ (m relation).ComparesIn type ∧
        (m relation).fetch.opcode = .branchCompare relation ∧ (m relation).fetch.width = 1 ∧
        (m relation).compared type = (m .eq).compared type) →
      ∃ taken : Relation → Bool,
        (∀ relation, (m relation).step.2.pc = if taken relation then (m relation).target
          else wrap ((m relation).pc + (m relation).fetch.size)) ∧
        (∀ relation, taken relation = true ↔
          (m relation).fetch.opcode.IsTakenOn ((m relation).compared type)) ∧
        (taken .lt).toNat + (taken .eq).toNat + (taken .gt).toNat = 1 ∧
        taken .le = (taken .lt || taken .eq) ∧ taken .ge = (taken .gt || taken .eq) := by
  have hstep : ∀ m : Machine, m.sleep = 0 → m.ComparesIn type →
      ∃ memory, m.memory.Observed memory ∧ m.step = (.executed m.fetch.opcode, { m with
        memory,
        registers := ⟨if m.fetch.opcode.IsTakenOn (m.compared type) then m.target
          else wrap (m.pc + m.fetch.size), m.fp, m.popped.sp⟩ }) := by
    intro m hsleep hcompares
    obtain ⟨memory, hmemory, hsupplied⟩ := m.exists_supplied
    refine ⟨memory, hmemory, ?_⟩
    rw [step_of_comparesIn hsleep hinteger hcompares, branch, hsupplied, ← Address.move_ofNat,
      sp_popped]
    by_cases htaken : m.fetch.opcode.IsTakenOn (m.compared type)
    · rw [if_pos htaken, decide_eq_true htaken]
      rfl
    · rw [if_neg htaken, decide_eq_false htaken]
      rfl
  refine ⟨fun m hsleep hcompares => ?_, ?_⟩
  · obtain ⟨memory, hmemory, hbranch⟩ := hstep m hsleep hcompares
    refine ⟨⟨memory, hmemory, hbranch⟩, m.wrap_sp_popped, fun hempty => ?_⟩
    rw [hmemory.eq_of_unmapped hempty] at hbranch
    exact ⟨hbranch, compared_eq_of_unmapped hcompares hempty⟩
  intro m hm
  obtain ⟨x, y, hnumbers⟩ := exists_compared type (hm .eq).2.2.1 (hm .eq).2.2.2.1
  have hiff (relation : Relation) : (m relation).fetch.opcode.IsTakenOn
      ((m relation).compared type) ↔ relation.Holds x y := by
    obtain ⟨-, -, hop, -, hsame⟩ := hm relation
    rw [hsame, hnumbers, hop]
    exact isTakenOn_compared_iff
  refine ⟨fun relation => decide (relation.Holds x y), ?_, ?_, ?_⟩
  · intro relation
    obtain ⟨hsleep, hcompares, -⟩ := hm relation
    obtain ⟨memory, -, hbranch⟩ := hstep _ hsleep hcompares
    simp only [hbranch, hiff, decide_eq_true_eq]
    rfl
  · intro relation
    rw [decide_eq_true_iff, hiff]
  · rcases lt_trichotomy x y with hlt | heq | hgt
    · simp [Relation.Holds, hlt, hlt.le, hlt.ne, hlt.not_gt, hlt.not_ge]
    · simp [Relation.Holds, heq]
    · simp [Relation.Holds, hgt, hgt.le, hgt.ne', hgt.not_gt, hgt.not_ge]

/-- Minus one and one on the stack, which compare the other way where bytes have no sign. -/
theorem step_branch_signed :
    let m (relation : Relation) : Machine := { Machine.new ⟨0x40, 0x40, 0x80⟩ default with
      memory := ((Memory.ofRam .full).write 0x40 (Bytes.ofWord 8 (Instruction.encode
        ⟨.branchCompare relation, 1, 1, (.i8, .i8, .u8), 4, 4⟩) ++ [0, 7, 0])).write 0x80
          [1, 0xff] }
    DataType.i8.IsInteger ∧
      (∀ relation, (m relation).sleep = 0 ∧ (m relation).ComparesIn .i8 ∧
        (m relation).fetch.opcode = .branchCompare relation ∧ (m relation).fetch.width = 1 ∧
        (m relation).compared .i8 = [[-1], [1]]) ∧
      ((m .le).step.2.registers = ⟨0x700, 0x40, 0x82⟩ ∧
        (m .ge).step.2.registers = ⟨0x4b, 0x40, 0x82⟩) ∧
      ∃ taken : Relation → Bool, (∀ relation, (m relation).step.2.pc =
          if taken relation then 0x700 else 0x4b) ∧
        (taken .lt).toNat + (taken .eq).toNat + (taken .gt).toNat = 1 := by
  intro m
  have hsleep (relation : Relation) : (m relation).sleep = 0 := rfl
  have hread (relation : Relation) :
      (m relation).fetch = ⟨.branchCompare relation, 1, 1, (.i8, .i8, .u8), 4, 4⟩ ∧
        (m relation).compared .i8 = [[-1], [1]] ∧ (m relation).target = 0x700 ∧
        (m relation).popped.sp = 0x82 ∧ (m relation).fp = 0x40 ∧ (m relation).pc = 0x40 := by
    cases relation <;> decide +kernel
  clear_value m
  have hbehind (relation : Relation) :
      wrap ((m relation).pc + (m relation).fetch.size) = 0x4b := by
    obtain ⟨hfetch, -, -, -, -, hpc⟩ := hread relation
    rw [hpc, hfetch]
    rfl
  have hcompares (relation : Relation) : (m relation).ComparesIn .i8 := by
    rw [ComparesIn, (hread relation).1]
    exact ⟨trivial, fun | 0, _ => rfl | 1, _ => rfl⟩
  have hfamily (relation : Relation) : (m relation).sleep = 0 ∧ (m relation).ComparesIn .i8 ∧
      (m relation).fetch.opcode = .branchCompare relation ∧ (m relation).fetch.width = 1 ∧
      (m relation).compared .i8 = [[-1], [1]] := by
    obtain ⟨hfetch, hnumbers, -⟩ := hread relation
    refine ⟨hsleep relation, hcompares relation, ?_, ?_, hnumbers⟩ <;> rw [hfetch]
  obtain ⟨hstep, hbranches⟩ := @step_branch .i8 trivial
  obtain ⟨taken, hpc, -, hone, -⟩ := hbranches m fun relation => by
    obtain ⟨hawake, hcompares, hop, hwidth, hnumbers⟩ := hfamily relation
    exact ⟨hawake, hcompares, hop, hwidth, hnumbers.trans (hread .eq).2.1.symm⟩
  have hregisters (relation : Relation) : (m relation).step.2.registers =
      ⟨if relation.Holds (-1) 1 then 0x700 else 0x4b, 0x40, 0x82⟩ := by
    obtain ⟨-, hnumbers, htarget, hsp, hfp, -⟩ := hread relation
    obtain ⟨memory, -, hbranch⟩ := (hstep _ (hsleep relation) (hcompares relation)).1
    rw [hbranch, hbehind, htarget, hsp, hfp, hnumbers, (hfamily relation).2.2.1]
    simp only [isTakenOn_compared_iff]
  refine ⟨trivial, hfamily, ⟨hregisters .le, hregisters .ge⟩, taken, fun relation => ?_, hone⟩
  rw [hpc, hbehind, (hread relation).2.2.1]

end Machine

end VectorStack
