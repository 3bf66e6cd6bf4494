import VectorStack.Proofs.Layout.Agreement
/-!
No label ever moves. The only place that reports a moved label is the check that a label stands
where it was placed, and that check always succeeds.
-/

namespace VectorStack

/-- The fault that reports a label at another address than it was placed at. -/
def AssemblyFault.isLabelMoved : AssemblyFault → Bool
  | .labelMoved _ _ _ => true
  | _ => false

/-- The computation does not report a moved label. -/
def Steady {α : Type} (x : Except AssemblyError α) : Prop :=
  ∀ error, x = .error error → error.fault.isLabelMoved = false

variable {α β : Type} {store : TokenStore} {config : AssemblyConfig} {layout : Layout}

theorem steady_ok (a : α) : Steady (.ok a : Except AssemblyError α) := by
  intro error herror
  cases herror

theorem steady_faultAt {token : TokenId} {fault : AssemblyFault}
    (hfault : fault.isLabelMoved = false) :
    Steady (.error (store.faultAt token fault) : Except AssemblyError α) := by
  intro error herror
  cases herror
  exact hfault

theorem steady_grammarFault (token : TokenId) (message : String) :
    Steady (.error (store.grammarFault token message) : Except AssemblyError α) :=
  steady_faultAt rfl

theorem Steady.bind {x : Except AssemblyError α} {f : α → Except AssemblyError β} (hx : Steady x)
    (hf : ∀ a, x = .ok a → Steady (f a)) : Steady (x >>= f) := by
  intro error herror
  rcases bind_eq_error.mp herror with hfirst | ⟨a, ha, hsecond⟩
  · exact hx error hfirst
  · exact hf a ha error hsecond

theorem Steady.map {x : Except AssemblyError α} {f : α → β} (hx : Steady x) :
    Steady (x.map f) :=
  fun error herror => hx error (map_eq_error.mp herror)

namespace TokenStore

theorem steady_positionAddress (token : TokenId) : Steady (store.positionAddress token) := by
  rw [positionAddress]
  split
  · exact steady_ok _
  · exact steady_grammarFault _ _

theorem steady_stringBytes (token : TokenId) : Steady (store.stringBytes token) := by
  rw [stringBytes]
  split
  · exact steady_ok _
  · exact steady_faultAt rfl

theorem steady_dataSize (type : DataType) (item : Term) : Steady (store.dataSize type item) := by
  rw [dataSize]
  split
  · exact (steady_stringBytes _).map.bind fun _ _ => steady_ok _
  · exact steady_ok _

end TokenStore

namespace Layout

theorem steady_reach (requests : Array PoolRequest) (term : Term) (type : DataType) (width : Nat)
    (output : Bool) : Steady (reach store requests term type width output) := by
  rw [reach]
  cases output <;> dsimp only <;> split <;> (repeat' split) <;>
    first | exact steady_ok _ | exact steady_grammarFault _ _

theorem steady_operandType (statement : InstructionStatement) (index : Nat) (slot : Slot) :
    Steady (operandType store config statement index slot) := by
  rw [operandType]
  split
  · exact steady_ok _
  · exact steady_ok _
  · exact steady_ok _
  · exact steady_faultAt rfl

theorem steady_planSlots (statement : InstructionStatement) (output : Bool) (index : Nat)
    (requests : Array PoolRequest) (slots : List Slot) (terms : List Term) :
    Steady (planSlots store config statement output index requests slots terms) := by
  induction slots generalizing index requests terms with
  | nil => exact steady_ok _
  | cons slot slots ih =>
      refine (steady_operandType _ _ _).bind fun type _ => ?_
      cases terms with
      | nil => exact (ih _ _ _).bind fun _ _ => steady_ok _
      | cons term terms =>
          exact (steady_reach _ _ _ _ _).bind fun _ _ => (ih _ _ _).bind fun _ _ => steady_ok _

theorem steady_place (statement : Statement) : Steady (place store config layout statement) := by
  cases statement with
  | label token =>
      simp only [place]
      split
      · exact steady_faultAt rfl
      · exact steady_ok _
  | position token => exact (TokenStore.steady_positionAddress token).bind fun _ _ => steady_ok _
  | data type item => exact (TokenStore.steady_dataSize type item).bind fun _ _ => steady_ok _
  | instruction statement =>
      refine Steady.bind ?_ fun _ _ => steady_ok _
      exact (steady_planSlots _ _ _ _ _ _).bind fun _ _ =>
        (steady_planSlots _ _ _ _ _ _).bind fun _ _ => steady_ok _

theorem steady_foldlM_place (statements : List Statement) :
    Steady (statements.foldlM (place store config) layout) := by
  induction statements generalizing layout with
  | nil => exact steady_ok _
  | cons statement rest ih =>
      rw [List.foldlM_cons]
      exact (steady_place statement).bind fun _ _ => ih

end Layout

theorem Expression.steady_leafValue (labels : String → Option Nat) (token : TokenId) :
    Steady (leafValue store labels token) := by
  rw [leafValue]
  split
  · split
    · exact steady_ok _
    · exact steady_faultAt rfl
  · split
    · exact steady_ok _
    · exact steady_faultAt rfl

theorem Expression.steady_evaluateOn (labels : String → Option Nat) (opening : TokenId)
    (nodes : List ExpressionNode) (stack : List Number) :
    Steady (evaluateOn store labels opening nodes stack) := by
  fun_induction evaluateOn store labels opening nodes stack with
  | case1 => exact steady_ok _
  | case2 token _ _ ih => exact (steady_leafValue labels token).bind fun _ _ => ih _
  | case3 _ _ _ ih => exact ih
  | case4 _ _ _ ih => exact ih
  | case5 => exact steady_faultAt rfl
  | case6 _ _ _ _ _ _ _ _ _ _ _ ih => exact ih
  | case7 => exact steady_faultAt rfl
  | case8 => exact steady_faultAt rfl

namespace Layout

theorem steady_termNumber (term : Term) : Steady (layout.termNumber store term) := by
  rw [termNumber]
  split
  · split
    · exact steady_ok _
    · exact steady_faultAt rfl
  · split
    · exact steady_ok _
    · exact steady_faultAt rfl
  · exact Expression.steady_evaluateOn _ _ _ _
  · exact steady_grammarFault _ _
  · exact steady_grammarFault _ _

theorem steady_encodeTerm (type : DataType) (term : Term) (lengthFirst : Bool) :
    Steady (layout.encodeTerm store type term lengthFirst) := by
  rw [encodeTerm]
  dsimp only
  split
  · exact (TokenStore.steady_stringBytes _).bind fun _ _ => steady_ok _
  · exact (steady_termNumber _).bind fun _ _ => steady_ok _

end Layout

namespace ConstantPool

theorem steady_collect (cells : List PoolCell) (requests : List PoolRequest) :
    Steady (collect layout store cells requests) := by
  induction requests generalizing cells with
  | nil => exact steady_ok _
  | cons request rest ih =>
      exact (Layout.steady_encodeTerm _ _ _).bind fun _ _ => (ih _).bind fun _ _ => steady_ok _

theorem steady_base (first : Term) (size : Nat) : Steady (base layout store config first size) := by
  rw [base]
  dsimp only
  split
  · split
    · exact steady_faultAt rfl
    · exact steady_ok _
  · split
    · exact steady_faultAt rfl
    · split
      · exact steady_ok _
      · exact steady_faultAt rfl

theorem steady_ofLayout : Steady (ofLayout layout store config) := by
  refine (steady_collect _ _).bind fun _ _ => ?_
  dsimp only
  split
  · exact steady_ok _
  · exact (steady_base _ _).bind fun _ _ => steady_ok _

end ConstantPool

namespace Image

variable {pool : ConstantPool}

theorem steady_addressOfNumber (token : TokenId) (number : Number) :
    Steady (addressOfNumber store token number) := by
  cases number with
  | integer cell => exact steady_ok _
  | real cell => exact steady_faultAt rfl

theorem steady_operandAddress (addressing : Addressing) :
    Steady (operandAddress layout store pool addressing) := by
  cases addressing with
  | stack => exact steady_ok _
  | inlined term =>
      exact (Layout.steady_termNumber term).bind fun _ _ => (steady_addressOfNumber _ _).map
  | direct label =>
      rw [operandAddress]
      split
      · exact steady_ok _
      · exact steady_faultAt rfl
  | offset expression =>
      exact (Expression.steady_evaluateOn _ _ _ _).bind fun _ _ => (steady_addressOfNumber _ _).map
  | pooled request => exact steady_ok _

theorem steady_operandBytes (operands : List Addressing) :
    Steady (operandBytes layout store pool operands) := by
  induction operands with
  | nil => exact steady_ok _
  | cons addressing rest ih =>
      exact (steady_operandAddress addressing).bind fun _ _ => ih.bind fun _ _ => steady_ok _

theorem steady_contentOf (lowered : Lowered) : Steady (contentOf layout store pool lowered) := by
  cases lowered with
  | label token => exact steady_ok _
  | position address => exact steady_ok _
  | data type item => exact (Layout.steady_encodeTerm _ _ _).bind fun _ _ => steady_ok _
  | instruction token word operands =>
      exact (steady_operandBytes operands).bind fun _ _ => steady_ok _

/-- Writing what was placed in a run never reports a moved label. -/
theorem steady_write {last final : Layout} {statements : List Statement} {rows : List Lowered}
    (hrun : Layout.Run store config layout statements rows last) (hlast : last.Extends final) :
    Steady (write final store pool layout.cursor rows) := by
  induction hrun with
  | nil => exact steady_ok _
  | cons hhead htail ih =>
      cases hhead with
      | label hnew =>
          rw [write, Layout.checkLabel_of_new hnew (htail.extends_last.trans hlast)]
          exact ih hlast
      | position haddress => exact ih hlast
      | @data type item size hsize =>
          refine (steady_contentOf _).bind fun content hcontent => ?_
          obtain ⟨once, hencode, hcontent⟩ := bind_eq_ok.mp hcontent
          cases hcontent
          rw [Layout.length_encodeTerm hencode] at hsize
          cases hsize
          exact (ih hlast).bind fun _ _ => steady_ok _
      | @instruction statement word operands requests hplan =>
          refine (steady_contentOf _).bind fun content hcontent => ?_
          obtain ⟨addresses, haddresses, hcontent⟩ := bind_eq_ok.mp hcontent
          cases hcontent
          refine Steady.bind ?_ fun _ _ => steady_ok _
          rw [Layout.size_eq_of_plan hplan haddresses]
          exact ih hlast

/-- Placing and writing never disagree. No label is found to have moved, and what is written stands
where the reference layout puts it. -/
theorem ofStatements_laidOut (store : TokenStore) (config : AssemblyConfig)
    (statements : List Statement) :
    (∀ error, ofStatements store config statements = .error error →
      ∀ name first second, error.fault ≠ .labelMoved name first second) ∧
    ∀ image, ofStatements store config statements = .ok image →
      ∃ layout pool, Layout.ofStatements store config statements = .ok layout ∧
        ConstantPool.ofLayout layout store config = .ok pool ∧
        LaidOut store config layout pool 0 statements image.labels image.entries
          layout.cursor := by
  constructor
  · intro error herror name first second hmoved
    have hsteady : Steady (ofStatements store config statements) := by
      refine (Layout.steady_foldlM_place statements).bind fun layout hlayout => ?_
      refine ConstantPool.steady_ofLayout.bind fun pool _ => ?_
      refine Steady.bind ?_ fun _ _ => steady_ok _
      exact steady_write (Layout.run_of_ofStatements hlayout) (Layout.Extends.refl layout)
    have hfault := hsteady error herror
    rw [hmoved] at hfault
    cases hfault
  · intro image himage
    obtain ⟨layout, pool, hlayout, hpool, -, hlaidOut⟩ := exists_laidOut himage
    exact ⟨layout, pool, hlayout, hpool, hlaidOut⟩

/-- A jump to itself is laid out, and the same label twice is reported as such. -/
theorem ofStatements_laidOut_jump :
    let store : TokenStore := ⟨#[⟨"loop", #['a', ':', ' ', 'j', 'u', 'm', 'p', ' ', 'a'], none⟩],
      #[⟨.label, 0, 0, 1, none⟩, ⟨.word, 0, 3, 4, none⟩, ⟨.word, 0, 8, 1, none⟩]⟩
    let jump : InstructionStatement := ⟨.jump, 1, none, 1, [⟨.word 2, 2, 1⟩], []⟩
    (∃ layout pool image,
      ofStatements store .standard [.label 0, .instruction jump] = .ok image ∧
      image.entries.map Entry.length = [11] ∧
      LaidOut store .standard layout pool 0 [.label 0, .instruction jump] image.labels
        image.entries layout.cursor) ∧
    ∃ error, ofStatements store .standard [.label 0, .label 0] = .error error ∧
      error.fault = .duplicateLabel "a" ∧ error.fault ≠ .labelMoved "a" 0 0 := by
  intro store jump
  constructor
  · have hassembled : ofStatements store .standard [.label 0, .instruction jump] =
        .ok ⟨⟨[⟨0, [57, 164, 0, 9, 0, 0, 0, 0, 0, 0, 0]⟩]⟩, [⟨"a", 0, 0⟩],
          [⟨0, .single [57, 164, 0, 9, 0, 0, 0, 0, 0, 0, 0], 1, none⟩]⟩ :=
      toOption_eq_some.mp (by decide +kernel)
    obtain ⟨layout, pool, -, -, hlaidOut⟩ :=
      (ofStatements_laidOut store .standard _).2 _ hassembled
    exact ⟨layout, pool, _, hassembled, rfl, hlaidOut⟩
  · have hfault : (match ofStatements store .standard [.label 0, .label 0] with
        | .ok _ => none
        | .error error => some error.fault) = some (.duplicateLabel "a") := by decide +kernel
    split at hfault
    · cases hfault
    · next error herror =>
        exact ⟨error, herror, Option.some.inj hfault,
          (ofStatements_laidOut store .standard _).1 _ herror "a" 0 0⟩

end Image

end VectorStack
