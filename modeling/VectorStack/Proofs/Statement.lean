import VectorStack.Assembly.Statement
import VectorStack.Proofs.Checked
/-!
What reading a text promises about its statements: types that have a meaning, operations that
exist, one to eight lanes, and no more operands than the operation has.
-/

namespace VectorStack

/-- What the reader of a text checks before it accepts an instruction. -/
structure InstructionStatement.WellFormed (statement : InstructionStatement) : Prop where
  opcode_ne : statement.opcode ≠ .invalid
  type_isSupported : ∀ type, statement.type = some type → type.isSupported = true
  width_pos : 1 ≤ statement.width
  width_le : statement.width ≤ Instruction.maxWidth
  inputs_le : statement.inputs.length ≤ statement.opcode.template.inputs.length
  outputs_le : statement.outputs.length ≤ statement.opcode.template.outputs.length

/-- What the reader of a text checks before it accepts a statement. -/
def Statement.WellFormed : Statement → Prop
  | .label _ | .position _ => True
  | .data type item => type.isSupported = true ∧ item.written ≠ .placeholder
  | .instruction statement => statement.WellFormed

theorem DataType.isSupported_of_parse? {name : String} {type : DataType}
    (htype : DataType.parse? name = some type) : type.isSupported = true :=
  (Option.filter_eq_some_iff.mp htype).2

theorem Opcode.ne_invalid_of_parse? {name : String} {op : Opcode}
    (hop : Opcode.parse? name = some op) : op ≠ .invalid :=
  bne_iff_ne.mp (Option.filter_eq_some_iff.mp hop).2

namespace TokenStore

variable {store : TokenStore}

theorem isSupported_of_readType {token : TokenId} {type : DataType}
    (hread : store.readType token = .ok type) : type.isSupported = true := by
  unfold readType at hread
  dsimp only at hread
  split at hread
  · next found hfound =>
      cases hread
      exact DataType.isSupported_of_parse? hfound
  · cases hread

theorem wellFormed_of_readItems {token : TokenId} {type : DataType} {tokens : List TokenId}
    {statements : List Statement} (htype : type.isSupported = true)
    (hread : store.readItems token type tokens = .ok statements) :
    ∀ statement ∈ statements, statement.WellFormed := by
  fun_induction readItems store token type tokens generalizing statements with
  | case1 =>
      cases hread
      simp
  | case2 => cases hread
  | case3 => cases hread
  | case4 _ _ _ _ _ hitem =>
      rename_i ih
      obtain ⟨others, hothers, rfl⟩ := map_eq_ok.mp hread
      intro statement hmem
      rcases List.mem_cons.mp hmem with rfl | hmem
      · exact ⟨htype, hitem⟩
      · exact ih hothers statement hmem

theorem wellFormed_of_readData {token : TokenId} {tokens : List TokenId}
    {statements : List Statement} (hread : store.readData token tokens = .ok statements) :
    ∀ statement ∈ statements, statement.WellFormed := by
  rw [readData] at hread
  split at hread
  · cases hread
  · next type htype =>
      split at hread
      · cases hread
      · exact wellFormed_of_readItems (isSupported_of_readType htype) hread

theorem isSupported_of_readTypeSuffix {tokens rest : List TokenId} {type : Option DataType}
    (hread : store.readTypeSuffix tokens = .ok (type, rest)) :
    ∀ named, type = some named → named.isSupported = true := by
  intro named hnamed
  unfold readTypeSuffix at hread
  split at hread
  · split at hread
    · obtain ⟨found, hfound, hpair⟩ := map_eq_ok.mp hread
      cases hpair
      cases hnamed
      exact isSupported_of_readType hfound
    · cases hread
      cases hnamed
  · cases hread
    cases hnamed

theorem width_of_readWidthSuffix {mnemonic : TokenId} {tokens rest : List TokenId} {width : Nat}
    (hread : store.readWidthSuffix mnemonic tokens = .ok (width, rest)) :
    1 ≤ width ∧ width ≤ Instruction.maxWidth := by
  unfold readWidthSuffix at hread
  have hone : 1 ≤ Instruction.maxWidth := by decide
  split at hread
  · split at hread
    · split at hread
      · cases hread
      · split at hread
        · cases hread
        · next hcount =>
            cases hread
            omega
    · cases hread
      exact ⟨Nat.le_refl 1, hone⟩
  · cases hread
    exact ⟨Nat.le_refl 1, hone⟩

theorem wellFormed_of_readInstruction {mnemonic : TokenId} {tokens : List TokenId}
    {statement : Statement} (hread : store.readInstruction mnemonic tokens = .ok statement) :
    statement.WellFormed := by
  rw [readInstruction] at hread
  dsimp only at hread
  split at hread
  · cases hread
  · next opcode hopcode =>
      obtain ⟨⟨type, afterType⟩, htype, hread⟩ := bind_eq_ok.mp hread
      obtain ⟨⟨width, afterWidth⟩, hwidth, hread⟩ := bind_eq_ok.mp hread
      obtain ⟨⟨inputs, outputs⟩, -, hread⟩ := bind_eq_ok.mp hread
      dsimp only at hread
      split at hread
      · cases hread
      · next hcounts =>
          cases hread
          rw [not_or, Nat.not_lt, Nat.not_lt] at hcounts
          have hbounds := width_of_readWidthSuffix hwidth
          exact ⟨Opcode.ne_invalid_of_parse? hopcode, isSupported_of_readTypeSuffix htype,
            hbounds.1, hbounds.2, hcounts.1, hcounts.2⟩

theorem wellFormed_of_readLine {tokens : List TokenId} {statements : List Statement}
    (hread : store.readLine tokens = .ok statements) :
    ∀ statement ∈ statements, statement.WellFormed := by
  induction tokens generalizing statements with
  | nil =>
      cases hread
      simp
  | cons token rest ih =>
      rw [readLine] at hread
      split at hread
      · cases hread
        simp
      · obtain ⟨others, hothers, rfl⟩ := map_eq_ok.mp hread
        exact List.forall_mem_cons.mpr ⟨trivial, ih hothers⟩
      · obtain ⟨others, hothers, rfl⟩ := map_eq_ok.mp hread
        exact List.forall_mem_cons.mpr ⟨trivial, ih hothers⟩
      · exact wellFormed_of_readData hread
      · obtain ⟨statement, hstatement, rfl⟩ := map_eq_ok.mp hread
        exact List.forall_mem_singleton.mpr (wellFormed_of_readInstruction hstatement)
      · cases hread

theorem wellFormed_of_readLines {lines : List (List TokenId)} {statements : List Statement}
    (hread : store.readLines lines = .ok statements) :
    ∀ statement ∈ statements, statement.WellFormed := by
  induction lines generalizing statements with
  | nil =>
      cases hread
      simp
  | cons line below ih =>
      obtain ⟨first, hfirst, hread⟩ := bind_eq_ok.mp hread
      obtain ⟨others, hothers, hread⟩ := bind_eq_ok.mp hread
      cases hread
      exact List.forall_mem_append.mpr ⟨wellFormed_of_readLine hfirst, ih hothers⟩

/-- Every statement that reading a text gives is well formed. -/
theorem wellFormed_of_statements {tokens : List TokenId} {statements : List Statement}
    (hread : store.statements tokens = .ok statements) :
    ∀ statement ∈ statements, statement.WellFormed :=
  wellFormed_of_readLines hread

end TokenStore

end VectorStack
