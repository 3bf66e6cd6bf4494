import VectorStack.Assembly.Image
import VectorStack.Proofs.Traced
/-!
Reading statements, placing them and writing their bytes only ever blame tokens that were there to
be read. What a statement is turned into on the way holds none but the tokens of the statement.
-/

namespace VectorStack

open TokenStore

namespace Written

/-- The tokens that an operand is written with, as far as it holds them. -/
def tokens : Written → List TokenId
  | placeholder => []
  | literal token _ | word token | string token => [token]
  | expression parsed => parsed.tokens

end Written

namespace Term

def tokens (term : Term) : List TokenId := term.token :: term.written.tokens

end Term

namespace Statement

def tokens : Statement → List TokenId
  | label token | position token => [token]
  | data _ item => item.tokens
  | instruction statement =>
    statement.token :: (statement.inputs ++ statement.outputs).flatMap Term.tokens

end Statement

namespace TokenStore

variable {store : TokenStore} {cause token : TokenId} {tokens : List TokenId}

theorem traced_readType (htoken : token < store.size) :
    Traced store (fun _ => True) (store.readType token) := by
  unfold readType
  dsimp only
  split
  · exact .ok trivial
  · exact .faultAt htoken

theorem traced_readCount (hcause : cause < store.size) (htokens : store.Has tokens) :
    Traced store (fun read => store.Has read.2) (store.readCount cause tokens) := by
  cases tokens with
  | nil => exact .faultAt hcause
  | cons token rest =>
      obtain ⟨htoken, hrest⟩ := has_cons.mp htokens
      rw [readCount]
      split
      · split
        · split
          · exact .ok hrest
          · exact .faultAt htoken
        · exact .faultAt htoken
      · exact .faultAt htoken

theorem traced_readWritten (hcause : cause < store.size) (htokens : store.Has tokens) :
    Traced store (fun read => store.Has read.1.tokens ∧ store.Has read.2)
      (store.readWritten cause tokens) := by
  cases tokens with
  | nil => exact .faultAt hcause
  | cons token rest =>
      obtain ⟨htoken, hrest⟩ := has_cons.mp htokens
      have hsingle : store.Has [token] := has_cons.mpr ⟨htoken, has_nil store⟩
      unfold readWritten
      dsimp only
      split
      · refine .ok ⟨?_, hrest⟩
        dsimp only
        split
        · exact has_nil store
        · exact hsingle
      · exact .ok ⟨hsingle, hrest⟩
      · split
        · next number left =>
            obtain ⟨hnumber, hleft⟩ := has_cons.mp hrest
            split
            · exact .ok ⟨has_cons.mpr ⟨hnumber, has_nil store⟩, hleft⟩
            · exact .faultAt htoken
        · exact .faultAt htoken
      · exact .ok ⟨hsingle, hrest⟩
      · have hparse := Expression.traced_parse (List.cons_ne_nil token rest) htokens
        split
        · next expression left hok => exact .ok (hok ▸ hparse).post_of_ok
        · next fault hfault => exact (hfault ▸ hparse).error
      · exact .faultAt htoken

theorem traced_readTerm (hcause : cause < store.size) (htokens : store.Has tokens) :
    Traced store (fun read => store.Has read.1.tokens ∧ store.Has read.2)
      (store.readTerm cause tokens) := by
  have hwritten := traced_readWritten hcause htokens
  have htoken : tokens.headD cause < store.size := by
    cases tokens with
    | nil => exact hcause
    | cons token rest => exact (has_cons.mp htokens).1
  unfold readTerm
  split
  · next fault hfault => exact (hfault ▸ hwritten).error
  · next written rest hok =>
      obtain ⟨hheld, hrest⟩ := (hok ▸ hwritten).post_of_ok
      have hterm : ∀ copies, store.Has (Term.tokens ⟨written, tokens.headD cause, copies⟩) :=
        fun _ => has_cons.mpr ⟨htoken, hheld⟩
      dsimp only
      split
      · next star left =>
          split
          · have hcount := traced_readCount htoken (has_cons.mp hrest).2
            split
            · next copies left hok => exact .ok ⟨hterm copies, (hok ▸ hcount).post_of_ok⟩
            · next fault hfault => exact (hfault ▸ hcount).error
          · exact .ok ⟨hterm 1, hrest⟩
      · exact .ok ⟨hterm 1, hrest⟩

theorem traced_readItems {type : DataType} (htoken : token < store.size)
    (htokens : store.Has tokens) :
    Traced store (fun statements => store.Has (statements.flatMap Statement.tokens))
      (store.readItems token type tokens) := by
  fun_induction readItems store token type tokens with
  | case1 => exact .ok (has_nil store)
  | case2 tokens _ fault hfault => exact (hfault ▸ traced_readTerm htoken htokens).error
  | case3 tokens _ item rest hok =>
      have hitem := (hok ▸ traced_readTerm htoken htokens).post_of_ok.1
      exact .faultAt (has_cons.mp hitem).1
  | case4 tokens _ item rest hok _ left ih =>
      obtain ⟨hitem, hrest⟩ := (hok ▸ traced_readTerm htoken htokens).post_of_ok
      have hleft : store.Has left := by
        dsimp only [left]
        split
        · exact hrest.subset (List.drop_subset 1 rest)
        · exact hrest
      exact (ih hleft).map fun _ hothers => has_append.mpr ⟨hitem, hothers⟩

theorem traced_readData (htoken : token < store.size) (htokens : store.Has tokens) :
    Traced store (fun statements => store.Has (statements.flatMap Statement.tokens))
      (store.readData token tokens) := by
  have htype := traced_readType htoken
  unfold readData
  split
  · next fault hfault => exact (hfault ▸ htype).error
  · split
    · exact .faultAt htoken
    · exact traced_readItems htoken htokens

/-- Operands before and behind the arrow, with one more in front of either. -/
theorem has_addTerm {term : Term} {terms : List Term × List Term} (afterArrow : Bool)
    (hterm : store.Has term.tokens)
    (hterms : store.Has (terms.1.flatMap Term.tokens) ∧ store.Has (terms.2.flatMap Term.tokens)) :
    let added := if afterArrow then (terms.1, term :: terms.2) else (term :: terms.1, terms.2)
    store.Has (added.1.flatMap Term.tokens) ∧ store.Has (added.2.flatMap Term.tokens) := by
  cases afterArrow with
  | true => exact ⟨hterms.1, has_append.mpr ⟨hterm, hterms.2⟩⟩
  | false => exact ⟨has_append.mpr ⟨hterm, hterms.1⟩, hterms.2⟩

theorem traced_readTerms {afterArrow : Bool} (htoken : token < store.size)
    (htokens : store.Has tokens) :
    Traced store (fun terms => store.Has (terms.1.flatMap Term.tokens) ∧
      store.Has (terms.2.flatMap Term.tokens)) (store.readTerms token afterArrow tokens) := by
  have hnone : store.Has ([].flatMap Term.tokens) := has_nil store
  fun_induction readTerms store token afterArrow tokens with
  | case1 => exact .ok ⟨hnone, hnone⟩
  | case2 => exact .ok ⟨hnone, hnone⟩
  | case3 => exact .faultAt (has_cons.mp htokens).1
  | case4 _ _ _ _ _ _ ih => exact ih (has_cons.mp htokens).2
  | case5 _ _ _ _ _ fault hfault => exact (hfault ▸ traced_readTerm htoken htokens).error
  | case6 afterArrow _ _ _ _ term _ hok =>
      have hread := (hok ▸ traced_readTerm htoken htokens).post_of_ok
      exact .ok (has_addTerm afterArrow hread.1 ⟨hnone, hnone⟩)
  | case7 afterArrow _ _ _ _ term _ next left hok _ _ ih =>
      have hread := (hok ▸ traced_readTerm htoken htokens).post_of_ok
      exact (ih (has_cons.mp hread.2).2).map fun _ hterms =>
        has_addTerm afterArrow hread.1 hterms
  | case8 afterArrow _ _ _ _ term _ next left hok _ _ ih
  | case9 afterArrow _ _ _ _ term _ next left hok _ _ ih =>
      have hread := (hok ▸ traced_readTerm htoken htokens).post_of_ok
      exact (ih hread.2).map fun _ hterms => has_addTerm afterArrow hread.1 hterms
  | case10 _ _ _ _ _ term next left hok =>
      have hread := (hok ▸ traced_readTerm htoken htokens).post_of_ok
      exact .faultAt (has_cons.mp hread.2).1

theorem traced_readTypeSuffix (htokens : store.Has tokens) :
    Traced store (fun read => store.Has read.2) (store.readTypeSuffix tokens) := by
  unfold readTypeSuffix
  split
  · next token rest =>
      obtain ⟨htoken, hrest⟩ := has_cons.mp htokens
      split
      · exact (traced_readType htoken).map fun _ _ => hrest
      · exact .ok htokens
  · exact .ok htokens

theorem traced_readWidthSuffix (htoken : token < store.size) (htokens : store.Has tokens) :
    Traced store (fun read => store.Has read.2) (store.readWidthSuffix token tokens) := by
  unfold readWidthSuffix
  split
  · next star rest =>
      have hcount := traced_readCount htoken (has_cons.mp htokens).2
      split
      · split
        · next fault hfault => exact (hfault ▸ hcount).error
        · next count left hok =>
            split
            · exact .faultAt htoken
            · exact .ok (hok ▸ hcount).post_of_ok
      · exact .ok htokens
  · exact .ok htokens

theorem traced_readInstruction (htoken : token < store.size) (htokens : store.Has tokens) :
    Traced store (fun statement => store.Has statement.tokens)
      (store.readInstruction token tokens) := by
  unfold readInstruction
  dsimp only
  split
  · exact .faultAt htoken
  · refine (traced_readTypeSuffix htokens).bind fun type htype => ?_
    refine (traced_readWidthSuffix htoken htype).bind fun width hwidth => ?_
    refine (traced_readTerms htoken hwidth).bind fun terms hterms => ?_
    split
    · exact .faultAt htoken
    · exact .ok (has_cons.mpr ⟨htoken, List.flatMap_append ▸ has_append.mpr hterms⟩)

theorem traced_readLine (htokens : store.Has tokens) :
    Traced store (fun statements => store.Has (statements.flatMap Statement.tokens))
      (store.readLine tokens) := by
  induction tokens with
  | nil => exact .ok (has_nil store)
  | cons token rest ih =>
      obtain ⟨htoken, hrest⟩ := has_cons.mp htokens
      rw [readLine]
      split
      · exact .ok (has_nil store)
      · exact (ih hrest).map fun _ hothers => has_cons.mpr ⟨htoken, hothers⟩
      · exact (ih hrest).map fun _ hothers => has_cons.mpr ⟨htoken, hothers⟩
      · exact traced_readData htoken hrest
      · refine (traced_readInstruction htoken hrest).map fun statement hstatement => ?_
        exact has_append.mpr ⟨hstatement, has_nil store⟩
      · exact .faultAt htoken

theorem has_lines (htokens : store.Has tokens) : ∀ line ∈ store.lines tokens, store.Has line := by
  induction tokens with
  | nil => nofun
  | cons token rest ih =>
      obtain ⟨htoken, hrest⟩ := has_cons.mp htokens
      have hsingle : store.Has [token] := has_cons.mpr ⟨htoken, has_nil store⟩
      rw [lines]
      split
      · exact List.forall_mem_cons.mpr ⟨hsingle, ih hrest⟩
      · have hbelow := ih hrest
        split
        · exact List.forall_mem_singleton.mpr hsingle
        · next line below hlines =>
            rw [hlines, List.forall_mem_cons] at hbelow
            exact List.forall_mem_cons.mpr ⟨has_cons.mpr ⟨htoken, hbelow.1⟩, hbelow.2⟩

theorem traced_readLines {lines : List (List TokenId)} (hlines : ∀ line ∈ lines, store.Has line) :
    Traced store (fun statements => store.Has (statements.flatMap Statement.tokens))
      (store.readLines lines) := by
  induction lines with
  | nil => exact .ok (has_nil store)
  | cons line below ih =>
      obtain ⟨hline, hbelow⟩ := List.forall_mem_cons.mp hlines
      refine (traced_readLine hline).bind fun statements hstatements => ?_
      refine (ih hbelow).bind fun others hothers => .ok ?_
      rw [List.flatMap_append]
      exact has_append.mpr ⟨hstatements, hothers⟩

/-- Reading statements blames tokens that are read, and what is read holds no others. -/
theorem traced_statements (htokens : store.Has tokens) :
    Traced store (fun statements => store.Has (statements.flatMap Statement.tokens))
      (store.statements tokens) :=
  traced_readLines (has_lines htokens)

end TokenStore

namespace Addressing

/-- The tokens that an operand still needs once it is decided how it is reached. -/
def tokens : Addressing → List TokenId
  | stack | pooled _ => []
  | inlined term => term.tokens
  | direct label => [label]
  | offset expression => expression.tokens

end Addressing

namespace Lowered

def tokens : Lowered → List TokenId
  | label token => [token]
  | position _ => []
  | data _ item => item.tokens
  | instruction token _ operands => token :: operands.flatMap Addressing.tokens

end Lowered

/-- The operands of all requests are in the store. -/
def HasRequests (store : TokenStore) (requests : Array PoolRequest) : Prop :=
  ∀ request ∈ requests.toList, store.Has request.term.tokens

/-- What is placed so far holds tokens of the store. -/
structure Layout.Known (store : TokenStore) (layout : Layout) : Prop where
  requests : HasRequests store layout.requests
  lowered : ∀ lowered ∈ layout.lowered.toList, store.Has lowered.tokens

variable {store : TokenStore} {config : AssemblyConfig} {layout : Layout}

namespace TokenStore

theorem traced_positionAddress {token : TokenId} (htoken : token < store.size) :
    Traced store (fun _ => True) (store.positionAddress token) := by
  unfold positionAddress
  split
  · exact .ok trivial
  · exact .faultAt htoken

theorem traced_stringBytes {token : TokenId} (htoken : token < store.size) :
    Traced store (fun _ => True) (store.stringBytes token) := by
  unfold stringBytes
  split
  · exact .ok trivial
  · exact .faultAt htoken

theorem has_of_written_string {term : Term} {token : TokenId} (hterm : store.Has term.tokens)
    (hwritten : term.written = .string token) : token < store.size := by
  rw [Term.tokens, hwritten] at hterm
  exact (has_cons.mp (has_cons.mp hterm).2).1

theorem traced_dataSize (type : DataType) {item : Term} (hitem : store.Has item.tokens) :
    Traced store (fun _ => True) (store.dataSize type item) := by
  unfold dataSize
  split
  · next token hwritten =>
      have hstring := traced_stringBytes (has_of_written_string hitem hwritten)
      exact (hstring.map fun _ _ => trivial).andThen fun lanes => .ok trivial
  · exact Traced.andThen (.ok trivial) fun lanes => .ok trivial

end TokenStore

namespace Layout

theorem traced_reach {requests : Array PoolRequest} {term : Term} (type : DataType) (width : Nat)
    (output : Bool) (hrequests : HasRequests store requests) (hterm : store.Has term.tokens) :
    Traced store (fun reached => store.Has reached.1.tokens ∧ HasRequests store reached.2)
      (reach store requests term type width output) := by
  obtain ⟨htoken, hwritten⟩ := has_cons.mp hterm
  have hconstant : ∀ lanes, Traced store
      (fun reached => store.Has reached.1.tokens ∧ HasRequests store reached.2)
      (if output then
        .error (store.grammarFault term.token "an output must be `_`, a label or an address")
      else .ok (Addressing.pooled requests.size, requests.push ⟨type, lanes, term⟩)) := by
    intro lanes
    split
    · exact .faultAt htoken
    · refine .ok ⟨has_nil store, ?_⟩
      intro request hmem
      rw [Array.toList_push] at hmem
      rcases List.mem_append.mp hmem with hmem | hmem
      · exact hrequests request hmem
      · rw [List.mem_singleton.mp hmem]
        exact hterm
  unfold reach
  dsimp only
  cases hcase : term.written with
  | placeholder => exact .ok ⟨has_nil store, hrequests⟩
  | literal token negative =>
      dsimp only
      split
      · exact .ok ⟨hterm, hrequests⟩
      · exact hconstant _
  | word token =>
      rw [hcase] at hwritten
      refine .ok ⟨?_, hrequests⟩
      dsimp only
      split
      · exact hterm
      · exact hwritten
  | string token => exact hconstant 1
  | expression parsed =>
      rw [hcase] at hwritten
      dsimp only
      split
      · exact .ok ⟨hterm, hrequests⟩
      · split
        · exact .ok ⟨hwritten, hrequests⟩
        · exact hconstant _

theorem traced_operandType {statement : InstructionStatement} (index : Nat) (slot : Slot)
    (htoken : statement.token < store.size) :
    Traced store (fun _ => True) (operandType store config statement index slot) := by
  unfold operandType
  split
  · exact .ok trivial
  · exact .ok trivial
  · exact .ok trivial
  · exact .faultAt htoken

theorem traced_planSlots {statement : InstructionStatement} {output : Bool} {index : Nat}
    {requests : Array PoolRequest} {slots : List Slot} {terms : List Term}
    (htoken : statement.token < store.size) (hrequests : HasRequests store requests)
    (hterms : store.Has (terms.flatMap Term.tokens)) :
    Traced store (fun planned => store.Has (planned.1.flatMap fun operand => operand.2.tokens) ∧
      HasRequests store planned.2)
      (planSlots store config statement output index requests slots terms) := by
  induction slots generalizing index requests terms with
  | nil => exact .ok ⟨has_nil store, hrequests⟩
  | cons slot slots ih =>
      refine (traced_operandType index slot htoken).andThen fun type => ?_
      have hrest : ∀ reached : Addressing × Array PoolRequest,
          store.Has reached.1.tokens ∧ HasRequests store reached.2 → ∀ others : List Term,
          store.Has (others.flatMap Term.tokens) → Traced store
            (fun planned => store.Has (planned.1.flatMap fun operand => operand.2.tokens) ∧
              HasRequests store planned.2)
            (planSlots store config statement output (index + 1) reached.2 slots others >>=
              fun planned => .ok ((type, reached.1) :: planned.1, planned.2)) :=
        fun reached hreached others hothers => (ih hreached.2 hothers).bind fun planned hplanned =>
          .ok ⟨has_append.mpr ⟨hreached.1, hplanned.1⟩, hplanned.2⟩
      cases terms with
      | nil => exact Traced.bind (.ok ⟨has_nil store, hrequests⟩) fun reached hreached =>
          hrest reached hreached [] hterms
      | cons term terms =>
          obtain ⟨hterm, hothers⟩ := has_append.mp hterms
          exact (traced_reach type _ output hrequests hterm).bind fun reached hreached =>
            hrest reached hreached terms hothers

theorem traced_plan {statement : InstructionStatement} {requests : Array PoolRequest}
    (hstatement : store.Has (Statement.instruction statement).tokens)
    (hrequests : HasRequests store requests) :
    Traced store (fun planned => store.Has (planned.2.1.flatMap Addressing.tokens) ∧
      HasRequests store planned.2.2) (plan store config requests statement) := by
  obtain ⟨htoken, hterms⟩ := has_cons.mp hstatement
  rw [List.flatMap_append] at hterms
  obtain ⟨hinputs, houtputs⟩ := has_append.mp hterms
  refine (traced_planSlots htoken hrequests hinputs).bind fun inputs hinputs => ?_
  refine (traced_planSlots htoken hinputs.2 houtputs).bind fun outputs houtputs => ?_
  refine .ok ⟨?_, houtputs.2⟩
  rw [List.flatMap_map, List.flatMap_append]
  exact has_append.mpr ⟨hinputs.1, houtputs.1⟩

/-- One more statement is placed. -/
theorem Known.push {requests : Array PoolRequest} {after : Layout} (hknown : layout.Known store)
    (lowered : Lowered) (hrequests : HasRequests store requests)
    (hlowered : store.Has lowered.tokens) (hafter : after.requests = requests)
    (hlist : after.lowered = layout.lowered.push lowered) : after.Known store := by
  refine ⟨hafter ▸ hrequests, fun other hmem => ?_⟩
  rw [hlist, Array.toList_push] at hmem
  rcases List.mem_append.mp hmem with hmem | hmem
  · exact hknown.lowered other hmem
  · rw [List.mem_singleton.mp hmem]
    exact hlowered

theorem traced_place {statement : Statement} (hknown : layout.Known store)
    (hstatement : store.Has statement.tokens) :
    Traced store (Layout.Known store) (place store config layout statement) := by
  cases statement with
  | label token =>
      simp only [place]
      split
      · exact .faultAt (has_cons.mp hstatement).1
      · exact .ok (hknown.push (.label token) hknown.requests hstatement rfl rfl)
  | position token =>
      refine (traced_positionAddress (has_cons.mp hstatement).1).andThen fun address => ?_
      exact .ok (hknown.push (.position address) hknown.requests (has_nil store) rfl rfl)
  | data type item =>
      refine (traced_dataSize type hstatement).andThen fun size => ?_
      exact .ok (hknown.push (.data type item) hknown.requests hstatement rfl rfl)
  | instruction statement =>
      refine (traced_plan hstatement hknown.requests).bind fun planned hplanned => ?_
      have htokens := has_cons.mpr ⟨(has_cons.mp hstatement).1, hplanned.1⟩
      exact .ok (hknown.push (.instruction statement.token planned.1 planned.2.1) hplanned.2 htokens
        rfl rfl)

theorem traced_ofStatements {statements : List Statement}
    (hstatements : store.Has (statements.flatMap Statement.tokens)) :
    Traced store (Layout.Known store) (ofStatements store config statements) := by
  have hplaced : ∀ layout : Layout, layout.Known store →
      Traced store (Layout.Known store) (statements.foldlM (place store config) layout) := by
    induction statements with
    | nil => exact fun layout hknown => .ok hknown
    | cons statement rest ih =>
        intro layout hknown
        obtain ⟨hstatement, hrest⟩ := has_append.mp hstatements
        rw [List.foldlM_cons]
        exact (traced_place hknown hstatement).bind (ih hrest)
  have hstart : start.Known store :=
    ⟨fun _ hmem => absurd hmem List.not_mem_nil, fun _ hmem => absurd hmem List.not_mem_nil⟩
  exact hplaced start hstart

theorem traced_termNumber (layout : Layout) {term : Term} (hterm : store.Has term.tokens) :
    Traced store (fun _ => True) (layout.termNumber store term) := by
  obtain ⟨htoken, hwritten⟩ := has_cons.mp hterm
  unfold termNumber
  cases hcase : term.written with
  | literal token negative =>
      rw [hcase] at hwritten
      dsimp only
      split
      · exact .ok trivial
      · exact .faultAt (has_cons.mp hwritten).1
  | word token =>
      rw [hcase] at hwritten
      dsimp only
      split
      · exact .ok trivial
      · exact .faultAt (has_cons.mp hwritten).1
  | expression parsed =>
      rw [hcase] at hwritten
      exact Expression.traced_evaluate _ hwritten
  | placeholder => exact .faultAt htoken
  | string token => exact .faultAt htoken

theorem traced_encodeTerm (layout : Layout) (type : DataType) {term : Term} (lengthFirst : Bool)
    (hterm : store.Has term.tokens) :
    Traced store (fun _ => True) (layout.encodeTerm store type term lengthFirst) := by
  unfold encodeTerm
  dsimp only
  split
  · next token hwritten =>
      have hstring := traced_stringBytes (has_of_written_string hterm hwritten)
      exact hstring.andThen fun text => .ok trivial
  · exact (traced_termNumber layout hterm).andThen fun number => .ok trivial

end Layout

namespace ConstantPool

theorem traced_collect (layout : Layout) {cells : List PoolCell} {requests : List PoolRequest}
    (hrequests : ∀ request ∈ requests, store.Has request.term.tokens) :
    Traced store (fun _ => True) (collect layout store cells requests) := by
  induction requests generalizing cells with
  | nil => exact .ok trivial
  | cons request rest ih =>
      obtain ⟨hrequest, hrest⟩ := List.forall_mem_cons.mp hrequests
      refine (Layout.traced_encodeTerm layout request.type true hrequest).andThen fun once => ?_
      exact (ih hrest).andThen fun collected => .ok trivial

theorem traced_base (layout : Layout) {first : Term} (size : Nat)
    (hfirst : store.Has first.tokens) :
    Traced store (fun _ => True) (base layout store config first size) := by
  have htoken := (has_cons.mp hfirst).1
  unfold base
  dsimp only
  split
  · split
    · exact .faultAt htoken
    · exact .ok trivial
  · split
    · exact .faultAt htoken
    · split
      · exact .ok trivial
      · exact .faultAt htoken

theorem traced_ofLayout (hknown : layout.Known store) :
    Traced store (fun _ => True) (ofLayout layout store config) := by
  refine (traced_collect layout hknown.requests).andThen fun collected => ?_
  dsimp only
  split
  · exact .ok trivial
  · next first rest hlist =>
      have hfirst := hknown.requests first (hlist ▸ List.mem_cons_self)
      exact (traced_base layout _ hfirst).andThen fun start => .ok trivial

end ConstantPool

namespace Image

variable {pool : ConstantPool}

theorem traced_addressOfNumber {token : TokenId} (number : Number) (htoken : token < store.size) :
    Traced store (fun _ => True) (addressOfNumber store token number) := by
  cases number with
  | integer cell => exact .ok trivial
  | real cell => exact .faultAt htoken

theorem traced_operandAddress {addressing : Addressing}
    (haddressing : store.Has addressing.tokens) :
    Traced store (fun _ => True) (operandAddress layout store pool addressing) := by
  cases addressing with
  | stack => exact .ok trivial
  | inlined term =>
      refine (Layout.traced_termNumber layout haddressing).andThen fun number => ?_
      exact (traced_addressOfNumber number (has_cons.mp haddressing).1).map fun _ _ => trivial
  | direct label =>
      rw [operandAddress]
      split
      · exact .ok trivial
      · exact .faultAt (has_cons.mp haddressing).1
  | offset parsed =>
      refine (Expression.traced_evaluate _ haddressing).andThen fun number => ?_
      exact (traced_addressOfNumber number (has_cons.mp haddressing).1).map fun _ _ => trivial
  | pooled request => exact .ok trivial

theorem traced_operandBytes {operands : List Addressing}
    (hoperands : store.Has (operands.flatMap Addressing.tokens)) :
    Traced store (fun _ => True) (operandBytes layout store pool operands) := by
  induction operands with
  | nil => exact .ok trivial
  | cons addressing rest ih =>
      obtain ⟨haddressing, hrest⟩ := has_append.mp hoperands
      refine (traced_operandAddress haddressing).andThen fun address => ?_
      exact (ih hrest).andThen fun others => .ok trivial

theorem traced_contentOf {lowered : Lowered} (hlowered : store.Has lowered.tokens) :
    Traced store (fun _ => True) (contentOf layout store pool lowered) := by
  cases lowered with
  | label token => exact .ok trivial
  | position address => exact .ok trivial
  | data type item =>
      exact (Layout.traced_encodeTerm layout type false hlowered).andThen fun once => .ok trivial
  | instruction token word operands =>
      exact (traced_operandBytes (has_cons.mp hlowered).2).andThen fun addresses => .ok trivial

theorem traced_checkLabel {cursor : Nat} {token : TokenId} (htoken : token < store.size) :
    Traced store (fun _ => True) (checkLabel layout store cursor token) := by
  unfold checkLabel
  dsimp only
  split
  · exact .ok trivial
  · exact .faultAt htoken

theorem traced_write {cursor : Nat} {rows : List Lowered}
    (hrows : ∀ lowered ∈ rows, store.Has lowered.tokens) :
    Traced store (fun _ => True) (write layout store pool cursor rows) := by
  induction rows generalizing cursor with
  | nil => exact .ok trivial
  | cons lowered rest ih =>
      obtain ⟨hlowered, hrest⟩ := List.forall_mem_cons.mp hrows
      cases lowered with
      | label token => exact (traced_checkLabel (has_cons.mp hlowered).1).andThen fun _ => ih hrest
      | position _ | data _ _ | instruction _ _ _ =>
          refine (traced_contentOf hlowered).andThen fun content => ?_
          split
          · exact ih hrest
          · exact (ih hrest).andThen fun others => .ok trivial

/-- What statements fail to assemble for is at a token that they hold. -/
theorem traced_ofStatements {statements : List Statement}
    (hstatements : store.Has (statements.flatMap Statement.tokens)) :
    Traced store (fun _ => True) (ofStatements store config statements) := by
  refine (Layout.traced_ofStatements hstatements).bind fun layout hknown => ?_
  refine (ConstantPool.traced_ofLayout hknown).andThen fun pool => ?_
  exact (traced_write hknown.lowered).andThen fun entries => .ok trivial

end Image

end VectorStack
