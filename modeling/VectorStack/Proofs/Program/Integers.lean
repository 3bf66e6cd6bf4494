import VectorStack.Proofs.ConstantPool.Placement
/-!
Programs of instructions on integers. Every operand that is given is an integer literal, so nothing
about it can be wrong: such a program always assembles when there is room for its words, addresses
and constants.
-/

namespace VectorStack

open Address (space)

/-- The operand is an integer literal, written once. -/
structure Term.IsInteger (store : TokenStore) (term : Term) : Prop where
  copies_eq : term.copies = 1
  literal : ∃ token negative cell, term.written = .literal token negative ∧
    Number.parse? (store.chars token) = some (.integer cell)

/-- Every operand that is given is an integer, and results go to the stack. -/
structure InstructionStatement.TakesIntegers (store : TokenStore)
    (statement : InstructionStatement) : Prop where
  inputs : ∀ term ∈ statement.inputs, term.IsInteger store
  outputs_eq : statement.outputs = []

/-- A way to reach an operand that is an integer or on the stack. -/
def Addressing.ForInteger (store : TokenStore) : Addressing → Prop
  | .stack | .pooled _ => True
  | .inlined term => term.IsInteger store
  | .direct _ | .offset _ => False

/-- A request for an integer, for no more lanes than an operand can have. -/
structure PoolRequest.ForInteger (store : TokenStore) (request : PoolRequest) : Prop where
  term : request.term.IsInteger store
  lanes_le : request.lanes ≤ Instruction.maxWidth

/-- An instruction whose operands are integers or on the stack. -/
def Lowered.ForIntegers (store : TokenStore) : Lowered → Prop
  | .instruction _ _ operands => ∀ addressing ∈ operands, addressing.ForInteger store
  | _ => False

/-- An instruction that takes integers only. -/
def Statement.OnIntegers (store : TokenStore) : Statement → Prop
  | .instruction statement => statement.WellFormed ∧ statement.TakesIntegers store
  | _ => False

/-- The most bytes that an instruction needs for its word and addresses. -/
def Instruction.maxSize : Nat := wordBytes + Template.maxOperands * Address.byteCount

/-- The most bytes that a constant needs. -/
def PoolCell.maxSize : Nat := 8 * Instruction.maxWidth

/-- The most bytes that an instruction needs with its constants. -/
def InstructionStatement.maxRoom : Nat :=
  Instruction.maxSize + Template.maxOperands * PoolCell.maxSize

variable {store : TokenStore} {config : AssemblyConfig} {layout : Layout} {term : Term}
  {statement : InstructionStatement} {pool : ConstantPool}

namespace Term.IsInteger

/-- An integer has its number wherever things are placed. -/
theorem termNumber (hinteger : term.IsInteger store) (layout : Layout) :
    ∃ cell, layout.termNumber store term = .ok (.integer cell) := by
  obtain ⟨token, negative, cell, hwritten, hnumber⟩ := hinteger.literal
  rw [Layout.termNumber, hwritten]
  dsimp only
  rw [hnumber]
  cases negative with
  | false => exact ⟨cell, rfl⟩
  | true => exact ⟨0 - cell, rfl⟩

/-- An integer is one lane. -/
theorem encodeTerm (hinteger : term.IsInteger store) (layout : Layout) (type : DataType) :
    ∃ once, layout.encodeTerm store type term true = .ok once ∧ once.length = type.size := by
  obtain ⟨cell, hcell⟩ := hinteger.termNumber layout
  obtain ⟨token, negative, -, hwritten, -⟩ := hinteger.literal
  have hencode : layout.encodeTerm store type term true =
      .ok ([Number.integer cell].flatMap fun number =>
        type.encodeLane (number.toCell type.mode)) := by
    rw [Layout.encodeTerm, hwritten, hcell]
    rfl
  refine ⟨_, hencode, ?_⟩
  rw [DataType.length_flatMap_encodeLane, List.length_singleton, Nat.one_mul]

end Term.IsInteger

theorem Extent.stop_le_of_mem_ofRange {start size : Nat} (hroom : start + size ≤ space)
    {extent : Extent} (hmem : extent ∈ ofRange start size) : extent.stop ≤ start + size := by
  rw [ofRange, if_neg (by omega)] at hmem
  split at hmem
  · cases hmem
  · rw [List.mem_singleton.mp hmem]

/-- What planning operands that are integers gives: at most one request for each of them. -/
structure PlansIntegers (store : TokenStore) (count : Nat) (requests : Array PoolRequest)
    (operands : List Addressing) (after : Array PoolRequest) : Prop where
  operands : ∀ addressing ∈ operands, addressing.ForInteger store
  size_le : after.size ≤ requests.size + count
  requests : (∀ request ∈ requests, request.ForInteger store) →
    ∀ request ∈ after, request.ForInteger store

theorem PlansIntegers.append {first second : Nat} {requests between after : Array PoolRequest}
    {operands more : List Addressing} (hfirst : PlansIntegers store first requests operands between)
    (hsecond : PlansIntegers store second between more after) :
    PlansIntegers store (first + second) requests (operands ++ more) after where
  operands := List.forall_mem_append.mpr ⟨hfirst.operands, hsecond.operands⟩
  size_le := by
    have hbetween := hfirst.size_le
    have hafter := hsecond.size_le
    omega
  requests hrequests := hsecond.requests (hfirst.requests hrequests)

/-- What is on the stack needs no request. -/
theorem PlansIntegers.stack {requests : Array PoolRequest} :
    PlansIntegers store 1 requests [.stack] requests where
  operands := List.forall_mem_singleton.mpr trivial
  size_le := Nat.le_succ _
  requests := id

theorem PlansIntegers.cons {count : Nat} {requests between after : Array PoolRequest}
    {addressing : Addressing} {operands : List Addressing}
    (hfirst : PlansIntegers store 1 requests [addressing] between)
    (hrest : PlansIntegers store count between operands after) :
    PlansIntegers store (count + 1) requests (addressing :: operands) after := by
  have hplans := hfirst.append hrest
  rw [Nat.add_comm] at hplans
  exact hplans

namespace Layout

theorem exists_operandType (store : TokenStore) (hdefault : config.defaultType.isSome = true)
    (statement : InstructionStatement) (index : Nat) (slot : Slot) :
    ∃ type, operandType store config statement index slot = .ok type := by
  obtain ⟨default, hsome⟩ := Option.isSome_iff_exists.mp hdefault
  rw [operandType, hsome]
  split
  · exact ⟨_, rfl⟩
  · exact ⟨_, rfl⟩
  · exact ⟨_, rfl⟩
  · next hnone => cases hnone

/-- An integer is reached inline or as a constant. -/
theorem exists_reach (hinteger : term.IsInteger store) (requests : Array PoolRequest)
    (type : DataType) {width : Nat} (hpos : 1 ≤ width) (hle : width ≤ Instruction.maxWidth) :
    ∃ addressing after, reach store requests term type width false = .ok (addressing, after) ∧
      PlansIntegers store 1 requests [addressing] after := by
  obtain ⟨token, negative, -, hwritten, -⟩ := hinteger.literal
  rw [reach, hwritten]
  dsimp only
  split
  · exact ⟨_, _, rfl, List.forall_mem_singleton.mpr hinteger, Nat.le_succ _, id⟩
  · refine ⟨_, _, rfl, List.forall_mem_singleton.mpr trivial, Nat.le_of_eq (Array.size_push _), ?_⟩
    intro hrequests request hmem
    rcases Array.mem_push.mp hmem with hold | rfl
    · exact hrequests request hold
    · refine ⟨hinteger, ?_⟩
      dsimp only
      rw [hinteger.copies_eq, Nat.max_eq_left hpos]
      exact hle

theorem exists_planSlots (hdefault : config.defaultType.isSome = true)
    (statement : InstructionStatement) (output : Bool) (index : Nat)
    (requests : Array PoolRequest) {slots : List Slot} {terms : List Term}
    (hslots : ∀ slot ∈ slots, 1 ≤ slot.resolveWidth statement.width ∧
      slot.resolveWidth statement.width ≤ Instruction.maxWidth)
    (hterms : ∀ term ∈ terms, output = false ∧ term.IsInteger store) :
    ∃ planned after,
      planSlots store config statement output index requests slots terms = .ok (planned, after) ∧
      PlansIntegers store slots.length requests (planned.map Prod.snd) after := by
  induction slots generalizing index requests terms with
  | nil => exact ⟨[], requests, rfl, nofun, Nat.le_refl _, id⟩
  | cons slot slots ih =>
      obtain ⟨⟨hpos, hle⟩, hrest⟩ := List.forall_mem_cons.mp hslots
      obtain ⟨type, htype⟩ := exists_operandType store hdefault statement index slot
      cases terms with
      | nil =>
          obtain ⟨planned, after, hplan, hplans⟩ := ih (index + 1) requests hrest hterms
          refine ⟨(type, .stack) :: planned, after, ?_, .cons .stack hplans⟩
          rw [planSlots]
          exact bind_eq_ok.mpr ⟨type, htype, bind_eq_ok.mpr ⟨_, rfl,
            bind_eq_ok.mpr ⟨_, hplan, rfl⟩⟩⟩
      | cons term others =>
          obtain ⟨⟨rfl, hinteger⟩, hothers⟩ := List.forall_mem_cons.mp hterms
          obtain ⟨addressing, between, hreach, hfirst⟩ :=
            exists_reach hinteger requests type hpos hle
          obtain ⟨planned, after, hplan, hplans⟩ := ih (index + 1) between hrest hothers
          refine ⟨(type, addressing) :: planned, after, ?_, hfirst.cons hplans⟩
          rw [planSlots]
          exact bind_eq_ok.mpr ⟨type, htype, bind_eq_ok.mpr ⟨_, hreach,
            bind_eq_ok.mpr ⟨_, hplan, rfl⟩⟩⟩

theorem size_le_of_plan {requests after : Array PoolRequest} {word : Instruction}
    {operands : List Addressing}
    (hplan : plan store config requests statement = .ok (word, operands, after)) :
    word.size ≤ Instruction.maxSize := by
  obtain ⟨planned, -, hplanned⟩ := planned_of_plan hplan
  have hcount : (planned.map Prod.snd).countP takesAddress ≤ Template.maxOperands := by
    refine Nat.le_trans List.countP_le_length ?_
    rw [List.length_map]
    exact hplanned.length_le
  rw [hplanned.size_eq]
  exact Nat.add_le_add_left (Nat.mul_le_mul_right _ hcount) _

/-- An instruction on integers can be planned. -/
theorem exists_plan (hdefault : config.defaultType.isSome = true)
    (hstatement : statement.WellFormed) (hintegers : statement.TakesIntegers store)
    (requests : Array PoolRequest) :
    ∃ word operands after, plan store config requests statement = .ok (word, operands, after) ∧
      PlansIntegers store Template.maxOperands requests operands after := by
  have hslots : ∀ slot ∈ statement.opcode.template.slots,
      1 ≤ slot.resolveWidth statement.width ∧
        slot.resolveWidth statement.width ≤ Instruction.maxWidth :=
    fun slot hslot => Slot.resolveWidth_bounds hslot hstatement.width_pos hstatement.width_le
  obtain ⟨hin, hout⟩ := List.forall_mem_append.mp hslots
  obtain ⟨inputs, between, hinputs, hplansInputs⟩ := exists_planSlots hdefault statement false 0
    requests hin fun term hmem => ⟨rfl, hintegers.inputs term hmem⟩
  have hnone : ∀ term ∈ statement.outputs, true = false ∧ term.IsInteger store := by
    rw [hintegers.outputs_eq]
    nofun
  obtain ⟨outputs, after, houtputs, hplansOutputs⟩ := exists_planSlots hdefault statement true
    statement.opcode.template.inputs.length between hout hnone
  have hplan : plan store config requests statement =
      .ok (wordFor statement (inputs ++ outputs), (inputs ++ outputs).map Prod.snd, after) :=
    bind_eq_ok.mpr ⟨_, hinputs, bind_eq_ok.mpr ⟨_, houtputs, rfl⟩⟩
  have hplans := hplansInputs.append hplansOutputs
  rw [← List.map_append] at hplans
  exact ⟨_, _, _, hplan, hplans.operands,
    Nat.le_trans hplans.size_le (Nat.add_le_add_left statement.opcode.template_size_le _),
    hplans.requests⟩

/-- What is known after placing some instructions on integers, one behind the other. -/
structure OfIntegers (store : TokenStore) (count : Nat) (layout : Layout) : Prop where
  cursor_le : layout.cursor ≤ count * Instruction.maxSize
  size_le : layout.requests.size ≤ count * Template.maxOperands
  labels_eq : layout.labels = #[]
  extents : ∀ extent ∈ layout.extents, extent.stop ≤ layout.cursor
  requests : ∀ request ∈ layout.requests, request.ForInteger store
  lowered : ∀ lowered ∈ layout.lowered, lowered.ForIntegers store

theorem ofIntegers_start : start.OfIntegers store 0 where
  cursor_le := Nat.le_refl 0
  size_le := Nat.le_refl 0
  labels_eq := rfl
  extents _ hmem := absurd hmem (Array.not_mem_empty _)
  requests _ hmem := absurd hmem (Array.not_mem_empty _)
  lowered _ hmem := absurd hmem (Array.not_mem_empty _)

/-- An instruction that can be planned is placed with its requests. -/
theorem exists_places {word : Instruction} {operands : List Addressing}
    {after : Array PoolRequest}
    (hplan : plan store config layout.requests statement = .ok (word, operands, after)) :
    ∃ next, place store config layout (.instruction statement) = .ok next ∧
      Places store config layout (.instruction statement)
        (.instruction statement.token word operands) next ∧
      next.requests = after ∧ next.labels = layout.labels :=
  ⟨_, bind_eq_ok.mpr ⟨_, hplan, rfl⟩, .instruction hplan, rfl, rfl⟩

/-- Placing one more instruction on integers. -/
theorem OfIntegers.next {count : Nat} {next : Layout} {word : Instruction}
    {operands : List Addressing} (hlayout : layout.OfIntegers store count)
    (hplaces : Places store config layout (.instruction statement)
      (.instruction statement.token word operands) next)
    (hplans : PlansIntegers store Template.maxOperands layout.requests operands next.requests)
    (hlabels : next.labels = layout.labels) (hsize : word.size ≤ Instruction.maxSize)
    (hroom : layout.cursor + word.size < space) : next.OfIntegers store (count + 1) := by
  have hcursor : next.cursor = layout.cursor + word.size := by
    rw [hplaces.cursor_eq (by omega)]
    exact Address.wrap_eq_self hroom
  refine ⟨?cursor, ?size, ?labels, ?extents, hplans.requests hlayout.requests, ?lowered⟩
  case cursor =>
    rw [hcursor, Nat.succ_mul]
    exact Nat.add_le_add hlayout.cursor_le hsize
  case size =>
    rw [Nat.succ_mul]
    exact Nat.le_trans hplans.size_le (Nat.add_le_add_right hlayout.size_le _)
  case labels => rw [hlabels, hlayout.labels_eq]
  case extents =>
    intro extent hmem
    rw [← Array.mem_toList_iff, hplaces.extents_eq (by omega)] at hmem
    rw [hcursor]
    rcases List.mem_append.mp hmem with hold | hnew
    · exact Nat.le_trans (hlayout.extents extent (Array.mem_toList_iff.mp hold))
        (Nat.le_add_right _ _)
    · exact Extent.stop_le_of_mem_ofRange (Nat.le_of_lt hroom) hnew
  case lowered =>
    intro lowered hmem
    rw [← Array.mem_toList_iff, hplaces.lowered_eq] at hmem
    rcases List.mem_append.mp hmem with hold | hnew
    · exact hlayout.lowered lowered (Array.mem_toList_iff.mp hold)
    · rw [List.mem_singleton.mp hnew]
      exact hplans.operands

theorem OfIntegers.exists_place {count : Nat} {statement : Statement}
    (hlayout : layout.OfIntegers store count) (hdefault : config.defaultType.isSome = true)
    (hstatement : statement.OnIntegers store) (hroom : (count + 1) * Instruction.maxSize < space) :
    ∃ next, place store config layout statement = .ok next ∧ next.OfIntegers store (count + 1) := by
  cases statement with
  | label | position | data => exact hstatement.elim
  | instruction statement =>
      obtain ⟨word, operands, after, hplan, hplans⟩ :=
        exists_plan hdefault hstatement.1 hstatement.2 layout.requests
      obtain ⟨next, hplace, hplaces, rfl, hlabels⟩ := exists_places hplan
      have hsize := size_le_of_plan hplan
      have hcursor := hlayout.cursor_le
      rw [Nat.succ_mul] at hroom
      exact ⟨next, hplace, hlayout.next hplaces hplans hlabels hsize (by omega)⟩

theorem OfIntegers.exists_foldlM {count : Nat} {statements : List Statement}
    (hlayout : layout.OfIntegers store count) (hdefault : config.defaultType.isSome = true)
    (hstatements : ∀ statement ∈ statements, statement.OnIntegers store)
    (hroom : (count + statements.length) * Instruction.maxSize < space) :
    ∃ last, statements.foldlM (place store config) layout = .ok last ∧
      last.OfIntegers store (count + statements.length) := by
  induction statements generalizing layout count with
  | nil => exact ⟨layout, rfl, hlayout⟩
  | cons statement rest ih =>
      obtain ⟨hstatement, hrest⟩ := List.forall_mem_cons.mp hstatements
      have hcount : count + (statement :: rest).length = count + 1 + rest.length := by
        rw [List.length_cons]
        omega
      rw [hcount] at hroom ⊢
      have hhead : (count + 1) * Instruction.maxSize < space :=
        Nat.lt_of_le_of_lt (Nat.mul_le_mul_right _ (Nat.le_add_right _ _)) hroom
      obtain ⟨next, hplace, hnext⟩ := hlayout.exists_place hdefault hstatement hhead
      obtain ⟨last, hfold, hlast⟩ := ih hnext hrest hroom
      exact ⟨last, bind_eq_ok.mpr ⟨next, hplace, hfold⟩, hlast⟩

end Layout

namespace ConstantPool

/-- A constant makes the pool larger by no more than its own bytes. -/
theorem totalSize_insert_le (type : DataType) (once : Bytes) (lanes : Nat) (cells : List PoolCell) :
    totalSize (insert type once lanes cells).2 ≤ totalSize cells + once.length * lanes := by
  induction cells with
  | nil => exact Nat.le_of_eq (Nat.add_comm _ _)
  | cons cell rest ih =>
      rw [insert]
      split
      · next hsame =>
          have hmax : once.length * max cell.content.copies lanes ≤
              once.length * cell.content.copies + once.length * lanes := by
            rw [← Nat.mul_add]
            exact Nat.mul_le_mul_left _ (by omega)
          simp only [totalSize, ByteRun.length, hsame.2]
          omega
      · simp only [totalSize]
        omega

theorem totalSize_collect_le {limit : Nat} {requests : List PoolRequest} {indices : List Nat}
    {cells final : List PoolCell}
    (hlimit : ∀ request ∈ requests, ∀ once,
      layout.encodeTerm store request.type request.term true = .ok once →
        once.length * request.lanes ≤ limit)
    (hcollect : collect layout store cells requests = .ok (indices, final)) :
    totalSize final ≤ totalSize cells + requests.length * limit := by
  induction requests generalizing cells indices with
  | nil =>
      cases hcollect
      exact Nat.le_add_right _ _
  | cons request rest ih =>
      obtain ⟨hrequest, hrest⟩ := List.forall_mem_cons.mp hlimit
      obtain ⟨once, hencode, hcollect⟩ := bind_eq_ok.mp hcollect
      obtain ⟨⟨others, last⟩, hothers, hcollect⟩ := bind_eq_ok.mp hcollect
      cases hcollect
      have hlast := ih hrest hothers
      have hfirst := totalSize_insert_le request.type once request.lanes cells
      have honce := hrequest once hencode
      rw [List.length_cons, Nat.succ_mul]
      omega

/-- What requests for integers collect is bounded by their number. -/
theorem totalSize_le_of_integers {indices : List Nat} {cells : List PoolCell}
    (hrequests : ∀ request ∈ layout.requests, request.ForInteger store)
    (hcollect : collect layout store [] layout.requests.toList = .ok (indices, cells)) :
    totalSize cells ≤ layout.requests.size * PoolCell.maxSize := by
  have hlimit : ∀ request ∈ layout.requests.toList, ∀ once,
      layout.encodeTerm store request.type request.term true = .ok once →
        once.length * request.lanes ≤ PoolCell.maxSize := by
    intro request hmem once honce
    have hrequest := hrequests request (Array.mem_toList_iff.mp hmem)
    obtain ⟨found, hfound, hlength⟩ := hrequest.term.encodeTerm layout request.type
    rw [honce] at hfound
    cases hfound
    rw [hlength]
    exact Nat.mul_le_mul request.type.size_le hrequest.lanes_le
  have hsize := totalSize_collect_le hlimit hcollect
  rw [totalSize, Nat.zero_add] at hsize
  exact hsize

/-- What does not reach behind the cursor leaves the room from there on free. -/
theorem isSome_free_of_cursor {statements : List Statement} {size : Nat}
    (hplaced : Layout.ofStatements store config statements = .ok layout)
    (hextents : ∀ extent ∈ layout.extents, extent.stop ≤ layout.cursor) (hpos : 0 < size)
    (hroom : layout.cursor + size ≤ space) :
    (Extent.free? layout.extents.toList size).isSome = true := by
  rw [Extent.free?_isSome_iff (Layout.proper_of_ofStatements hplaced) hpos]
  refine ⟨layout.cursor, hroom, ?_⟩
  rintro i - ⟨extent, hextent, -, hstop⟩
  have hle := hextents extent (Array.mem_toList_iff.mp hextent)
  omega

/-- Constants that are integers find room behind the instructions. -/
theorem exists_ofLayout {count : Nat} {statements : List Statement}
    (hplaced : Layout.ofStatements store config statements = .ok layout)
    (hlayout : layout.OfIntegers store count)
    (hwellFormed : ∀ request ∈ layout.requests.toList, request.WellFormed)
    (hrequire : config.requirePoolLabel = false)
    (hroom : count * InstructionStatement.maxRoom ≤ space) :
    ∃ pool, ofLayout layout store config = .ok pool := by
  obtain ⟨indices, cells, hcollect⟩ := exists_collect [] fun request hmem => by
    have hrequest := hlayout.requests request (Array.mem_toList_iff.mp hmem)
    obtain ⟨once, honce, -⟩ := hrequest.term.encodeTerm layout request.type
    exact ⟨once, honce⟩
  -- without requests there is nothing to find room for
  by_cases hnone : layout.requests = #[]
  · refine ⟨⟨[], []⟩, bind_eq_ok.mpr ⟨_, hcollect, ?_⟩⟩
    rw [hnone]
  · have hpos := totalSize_pos (collected_of_collect hcollect) hwellFormed
      fun hnil => hnone (Array.toList_eq_nil_iff.mp hnil)
    have hbelow : layout.cursor + totalSize cells ≤ space := by
      have hcursor := hlayout.cursor_le
      have hsize := totalSize_le_of_integers hlayout.requests hcollect
      have hcells : layout.requests.size * PoolCell.maxSize ≤
          count * Template.maxOperands * PoolCell.maxSize :=
        Nat.mul_le_mul_right _ hlayout.size_le
      rw [InstructionStatement.maxRoom, Nat.mul_add, ← Nat.mul_assoc] at hroom
      omega
    have hfree := isSome_free_of_cursor hplaced hlayout.extents hpos hbelow
    have hlabel : addressOf? layout.labels config.poolLabel = none := by
      rw [hlayout.labels_eq]
      rfl
    have houtcome := ofLayout_eq_of_free hcollect hnone hlabel hrequire
    obtain ⟨start, hstart⟩ := Option.isSome_iff_exists.mp hfree
    rw [hstart] at houtcome
    obtain ⟨addresses, hpool⟩ := houtcome
    exact ⟨_, hpool⟩

end ConstantPool

namespace Image

theorem exists_operandBytes (layout : Layout) (pool : ConstantPool) {operands : List Addressing}
    (hoperands : ∀ addressing ∈ operands, addressing.ForInteger store) :
    ∃ bytes, operandBytes layout store pool operands = .ok bytes := by
  induction operands with
  | nil => exact ⟨[], rfl⟩
  | cons addressing rest ih =>
      obtain ⟨hfirst, hrest⟩ := List.forall_mem_cons.mp hoperands
      obtain ⟨others, hothers⟩ := ih hrest
      have haddress : ∃ address, operandAddress layout store pool addressing = .ok address := by
        cases addressing with
        | stack => exact ⟨_, rfl⟩
        | pooled request => exact ⟨_, rfl⟩
        | direct | offset => exact hfirst.elim
        | inlined term =>
            obtain ⟨cell, hcell⟩ := Term.IsInteger.termNumber hfirst layout
            exact ⟨_, bind_eq_ok.mpr ⟨_, hcell, rfl⟩⟩
      obtain ⟨address, haddress⟩ := haddress
      exact ⟨_, bind_eq_ok.mpr ⟨_, haddress, bind_eq_ok.mpr ⟨_, hothers, rfl⟩⟩⟩

theorem exists_write (layout : Layout) (pool : ConstantPool) (cursor : Nat) {rows : List Lowered}
    (hrows : ∀ lowered ∈ rows, lowered.ForIntegers store) :
    ∃ entries, write layout store pool cursor rows = .ok entries := by
  induction rows generalizing cursor with
  | nil => exact ⟨[], rfl⟩
  | cons lowered rest ih =>
      obtain ⟨hfirst, hrest⟩ := List.forall_mem_cons.mp hrows
      cases lowered with
      | label | position | data => exact hfirst.elim
      | instruction token word operands =>
          obtain ⟨addresses, haddresses⟩ := exists_operandBytes layout pool hfirst
          obtain ⟨others, hothers⟩ := ih
            (nextCursor cursor (.instruction token word operands) (ByteRun.single
              (Bytes.ofNat Instruction.wordBytes word.encode.toNat ++ addresses)).length) hrest
          exact ⟨_, bind_eq_ok.mpr ⟨_, bind_eq_ok.mpr ⟨_, haddresses, rfl⟩,
            bind_eq_ok.mpr ⟨_, hothers, rfl⟩⟩⟩

/-- A program of instructions on integers assembles when there is room for it. -/
theorem exists_ofStatements {statements : List Statement} (hsupports : config.SupportsDefault)
    (hdefault : config.defaultType.isSome = true) (hrequire : config.requirePoolLabel = false)
    (hstatements : ∀ statement ∈ statements, statement.OnIntegers store)
    (hroom : statements.length * InstructionStatement.maxRoom ≤ space) :
    ∃ image, ofStatements store config statements = .ok image := by
  have hwords : (0 + statements.length) * Instruction.maxSize < space := by
    have hsize : Instruction.maxSize = 17 := rfl
    have hmaxRoom : InstructionStatement.maxRoom = 209 := rfl
    have hspace : space = 16777216 := rfl
    rw [hmaxRoom] at hroom
    rw [hsize]
    omega
  obtain ⟨layout, hfold, hlayout⟩ :=
    Layout.ofIntegers_start.exists_foldlM hdefault hstatements hwords
  have hplaced : Layout.ofStatements store config statements = .ok layout := hfold
  rw [Nat.zero_add] at hlayout
  have hwellFormed : ∀ statement ∈ statements, statement.WellFormed := by
    intro statement hmem
    have hstatement := hstatements statement hmem
    cases statement with
    | label | position | data => exact hstatement.elim
    | instruction statement => exact hstatement.1
  have hrequests := (Layout.run_of_ofStatements hplaced).wellFormed_requests hsupports hwellFormed
    fun request hmem => absurd hmem List.not_mem_nil
  obtain ⟨pool, hpool⟩ := ConstantPool.exists_ofLayout hplaced hlayout hrequests hrequire hroom
  obtain ⟨entries, hwrite⟩ := exists_write layout pool 0 fun lowered hmem =>
    hlayout.lowered lowered (Array.mem_toList_iff.mp hmem)
  exact ⟨_, bind_eq_ok.mpr ⟨_, hplaced, bind_eq_ok.mpr ⟨_, hpool, bind_eq_ok.mpr ⟨_, hwrite, rfl⟩⟩⟩⟩

end Image

end VectorStack
