import VectorStack.Assembly.Image
import VectorStack.Proofs.Layout.Addressing
/-!
Placing statements, step by step. A step says everything that placing one statement can do, and a
run is a list of steps. Runs only ever add labels, requests for constants and taken addresses, and
the taken addresses are those of the bytes that the statements need.
-/

namespace VectorStack

theorem addressOf?_push (labels : Array Label) (label : Label) (name : String) :
    addressOf? (labels.push label) name =
      (addressOf? labels name).or (if label.name = name then some label.address else none) := by
  simp only [addressOf?, Array.find?_push, beq_iff_eq]
  cases Array.find? (fun other => other.name == name) labels with
  | some found => simp
  | none =>
      by_cases hname : label.name = name
      · simp [hname]
      · simp [hname]

/-- Consecutive addresses from one on; they go on at the bottom of the address space. -/
structure Span where
  address : Nat
  length : Nat
deriving DecidableEq, Repr

namespace Span

/-- The span has a byte at an address. -/
def Covers (span : Span) (address : Nat) : Prop :=
  ∃ i < span.length, Address.wrap (span.address + i) = address

/-- The extents that the span takes. -/
def extents (span : Span) : List Extent := Extent.ofRange span.address span.length

end Span

/-- Number of bytes that a placed statement needs. -/
def Lowered.length (store : TokenStore) : Lowered → Nat
  | .label _ | .position _ => 0
  | .data type item => (store.dataSize type item).toOption.getD 0
  | .instruction _ word _ => word.size

/-- A position statement sets the cursor to a number that it writes. -/
theorem TokenStore.exists_positionNumber {store : TokenStore} {token : TokenId} {address : Nat}
    (haddress : store.positionAddress token = .ok address) :
    ∃ number, (Number.parse? ((store.chars token).drop 1)).bind Number.natural? = some number ∧
      address = Address.wrap number := by
  rw [positionAddress] at haddress
  split at haddress
  · next number hnumber =>
      cases haddress
      exact ⟨number, hnumber, rfl⟩
  · cases haddress

namespace Layout

variable {store : TokenStore} {config : AssemblyConfig}

/-- The addresses that statements need, when the first is placed at a cursor. -/
def spans (store : TokenStore) (cursor : Nat) : List Lowered → List Span
  | [] => []
  | lowered :: rest =>
    ⟨cursor, lowered.length store⟩ ::
      spans store (Image.nextCursor cursor lowered (lowered.length store)) rest

theorem exists_span (store : TokenStore) (cursor : Nat) {lowered : Lowered} {rows : List Lowered}
    (hmem : lowered ∈ rows) :
    ∃ span ∈ spans store cursor rows, span.length = lowered.length store := by
  induction rows generalizing cursor with
  | nil => cases hmem
  | cons first rest ih =>
      rcases List.mem_cons.mp hmem with rfl | hlater
      · exact ⟨_, List.mem_cons_self, rfl⟩
      · obtain ⟨span, hspan, hlength⟩ := ih _ hlater
        exact ⟨span, List.mem_cons_of_mem _ hspan, hlength⟩

/-- Everything that placing a statement can do. -/
inductive Places (store : TokenStore) (config : AssemblyConfig) (layout : Layout) :
    Statement → Lowered → Layout → Prop
  | label {token : TokenId} (hnew : addressOf? layout.labels (store.text token) = none) :
      Places store config layout (.label token) (.label token)
        { layout with
          labels := layout.labels.push ⟨store.text token, layout.cursor, token⟩
          lowered := layout.lowered.push (.label token) }
  | position {token : TokenId} {address : Nat}
      (haddress : store.positionAddress token = .ok address) :
      Places store config layout (.position token) (.position address)
        { layout with
          cursor := address
          lowered := layout.lowered.push (.position address) }
  | data {type : DataType} {item : Term} {size : Nat}
      (hsize : store.dataSize type item = .ok size) :
      Places store config layout (.data type item) (.data type item)
        ({ layout with lowered := layout.lowered.push (.data type item) }.occupy size)
  | instruction {statement : InstructionStatement} {word : Instruction}
      {operands : List Addressing} {requests : Array PoolRequest}
      (hplan : plan store config layout.requests statement = .ok (word, operands, requests)) :
      Places store config layout (.instruction statement)
        (.instruction statement.token word operands)
        ({ layout with
          requests
          lowered := layout.lowered.push (.instruction statement.token word operands) }.occupy
            word.size)

theorem places_of_place {layout next : Layout} {statement : Statement}
    (hplace : place store config layout statement = .ok next) :
    ∃ lowered, Places store config layout statement lowered next := by
  cases statement with
  | label token =>
      simp only [place] at hplace
      split at hplace
      · cases hplace
      · next hnew =>
          cases hplace
          exact ⟨_, .label (by simpa using hnew)⟩
  | position token =>
      obtain ⟨address, haddress, hplace⟩ := bind_eq_ok.mp hplace
      cases hplace
      exact ⟨_, .position haddress⟩
  | data type item =>
      obtain ⟨size, hsize, hplace⟩ := bind_eq_ok.mp hplace
      cases hplace
      exact ⟨_, .data hsize⟩
  | instruction statement =>
      obtain ⟨⟨word, operands, requests⟩, hplan, hplace⟩ := bind_eq_ok.mp hplace
      cases hplace
      exact ⟨_, .instruction hplan⟩

/-- Placing statements in order, with what each of them becomes. -/
inductive Run (store : TokenStore) (config : AssemblyConfig) :
    Layout → List Statement → List Lowered → Layout → Prop
  | nil (layout : Layout) : Run store config layout [] [] layout
  | cons {layout next last : Layout} {statement : Statement} {lowered : Lowered}
      {rest : List Statement} {others : List Lowered}
      (hhead : Places store config layout statement lowered next)
      (htail : Run store config next rest others last) :
      Run store config layout (statement :: rest) (lowered :: others) last

theorem run_of_foldlM {layout last : Layout} {statements : List Statement}
    (hfold : statements.foldlM (place store config) layout = .ok last) :
    ∃ lowered, Run store config layout statements lowered last := by
  induction statements generalizing layout with
  | nil =>
      cases hfold
      exact ⟨[], .nil _⟩
  | cons statement rest ih =>
      rw [List.foldlM_cons] at hfold
      obtain ⟨next, hplace, hrest⟩ := bind_eq_ok.mp hfold
      obtain ⟨lowered, hhead⟩ := places_of_place hplace
      obtain ⟨others, htail⟩ := ih hrest
      exact ⟨lowered :: others, .cons hhead htail⟩

/-- A later layout keeps the labels and the requests of an earlier one. -/
structure Extends (layout next : Layout) : Prop where
  addressOf?_eq_some : ∀ {name : String} {address : Nat},
    addressOf? layout.labels name = some address → addressOf? next.labels name = some address
  requests_isPrefix : layout.requests.toList <+: next.requests.toList

theorem Extends.refl (layout : Layout) : layout.Extends layout :=
  ⟨fun hfound => hfound, List.prefix_rfl⟩

theorem Extends.trans {layout next last : Layout} (hfirst : layout.Extends next)
    (hsecond : next.Extends last) : layout.Extends last :=
  ⟨fun hfound => hsecond.addressOf?_eq_some (hfirst.addressOf?_eq_some hfound),
    hfirst.requests_isPrefix.trans hsecond.requests_isPrefix⟩

namespace Places

variable {layout next : Layout} {statement : Statement} {lowered : Lowered}

theorem extends_next (hplaces : Places store config layout statement lowered next) :
    layout.Extends next := by
  cases hplaces with
  | label =>
      refine ⟨fun hfound => ?_, List.prefix_rfl⟩
      rw [addressOf?_push, hfound]
      rfl
  | position => exact ⟨fun hfound => hfound, List.prefix_rfl⟩
  | data => exact ⟨fun hfound => hfound, List.prefix_rfl⟩
  | instruction hplan =>
      obtain ⟨planned, -, hplanned⟩ := planned_of_plan hplan
      exact ⟨fun hfound => hfound, hplanned.requests_isPrefix⟩

theorem lowered_eq (hplaces : Places store config layout statement lowered next) :
    next.lowered.toList = layout.lowered.toList ++ [lowered] := by
  cases hplaces <;> simp [occupy]

/-- The cursor moves behind the bytes of the statement. -/
theorem cursor_eq (hplaces : Places store config layout statement lowered next)
    (hcursor : layout.cursor < Address.space) :
    next.cursor = Image.nextCursor layout.cursor lowered (lowered.length store) := by
  cases hplaces with
  | label => exact (Address.wrap_eq_self hcursor).symm
  | position => rfl
  | data hsize => simp [occupy, Image.nextCursor, Lowered.length, hsize, Except.toOption]
  | instruction => rfl

theorem cursor_lt (hplaces : Places store config layout statement lowered next)
    (hcursor : layout.cursor < Address.space) : next.cursor < Address.space := by
  cases hplaces with
  | label => exact hcursor
  | position haddress =>
      obtain ⟨number, -, rfl⟩ := TokenStore.exists_positionNumber haddress
      exact Address.wrap_lt number
  | data => exact Address.wrap_lt _
  | instruction => exact Address.wrap_lt _

/-- The addresses that the statement needs become taken. -/
theorem extents_eq (hplaces : Places store config layout statement lowered next)
    (hcursor : layout.cursor < Address.space) :
    next.extents.toList =
      layout.extents.toList ++ Extent.ofRange layout.cursor (lowered.length store) := by
  have hnone : Extent.ofRange layout.cursor 0 = [] := by
    rw [Extent.ofRange, if_neg (by omega), if_pos rfl]
  cases hplaces with
  | label => simp [Lowered.length, hnone]
  | position => simp [Lowered.length, hnone]
  | data hsize => simp [occupy, Lowered.length, hsize, Except.toOption]
  | instruction => simp [occupy, Lowered.length]

end Places

namespace Run

variable {layout last : Layout} {statements : List Statement} {lowered : List Lowered}

theorem extends_last (hrun : Run store config layout statements lowered last) :
    layout.Extends last := by
  induction hrun with
  | nil layout => exact Extends.refl layout
  | cons hhead _ ih => exact hhead.extends_next.trans ih

theorem lowered_eq (hrun : Run store config layout statements lowered last) :
    last.lowered.toList = layout.lowered.toList ++ lowered := by
  induction hrun with
  | nil => simp
  | cons hhead _ ih => rw [ih, hhead.lowered_eq, List.append_assoc, List.singleton_append]

/-- The taken addresses are those that the placed statements need. -/
theorem extents_eq (hrun : Run store config layout statements lowered last)
    (hcursor : layout.cursor < Address.space) :
    last.extents.toList =
      layout.extents.toList ++ (spans store layout.cursor lowered).flatMap Span.extents := by
  induction hrun with
  | nil => simp [spans]
  | cons hhead _ ih =>
      rw [ih (hhead.cursor_lt hcursor), hhead.extents_eq hcursor, hhead.cursor_eq hcursor, spans,
        List.flatMap_cons, List.append_assoc]
      rfl

end Run

/-- Statements that were all placed are a run, and the layout holds what they became. -/
theorem run_of_ofStatements {statements : List Statement} {layout : Layout}
    (hplaced : ofStatements store config statements = .ok layout) :
    Run store config start statements layout.lowered.toList layout := by
  obtain ⟨lowered, hrun⟩ := run_of_foldlM hplaced
  have hlowered : layout.lowered.toList = lowered := by simpa [start] using hrun.lowered_eq
  rw [hlowered]
  exact hrun

end Layout

end VectorStack
