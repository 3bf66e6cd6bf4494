import Mathlib.Order.Lattice.Nat
import VectorStack.Proofs.ConstantPool.Packing
/-!
What a pool promises of the operands that use it, and where a pool without a label of its own
starts: right behind the highest byte of the statements where it fits below the top of memory, else
at the lowest address from which on enough of memory is free, and nowhere only if there is no such
address.
-/

namespace VectorStack.ConstantPool

open Address (space space_pos wrap_eq_self)

variable {store : TokenStore} {config : AssemblyConfig} {layout : Layout}
  {statements : List Statement} {pool : ConstantPool}

theorem length_le_totalSize {cells : List PoolCell} {cell : PoolCell} (hmem : cell ∈ cells) :
    cell.content.length ≤ totalSize cells := by
  induction cells with
  | nil => cases hmem
  | cons first rest ih =>
      rw [totalSize]
      rcases List.mem_cons.mp hmem with rfl | hlater
      · exact Nat.le_add_right _ _
      · exact Nat.le_trans (ih hlater) (Nat.le_add_left _ _)

/-- Requests for lanes of types with a meaning need room. -/
theorem totalSize_pos {requests : List PoolRequest} {indices : List Nat} {cells : List PoolCell}
    (hcollected : Collected layout store [] requests indices cells)
    (hrequests : ∀ request ∈ requests, request.WellFormed) (hne : requests ≠ []) :
    0 < totalSize cells := by
  obtain ⟨request, rest, rfl⟩ := List.exists_cons_of_ne_nil hne
  have hwellFormed := hrequests request List.mem_cons_self
  obtain ⟨index, cell, -, hcell, -, hencode, hlanes⟩ := hcollected.found 0 request rfl
  have honce := Layout.length_encodeTerm_pos hwellFormed.type_isSupported hencode
  have hcopies := Nat.lt_of_lt_of_le hwellFormed.lanes_pos hlanes
  exact Nat.lt_of_lt_of_le (Nat.mul_pos honce hcopies)
    (length_le_totalSize (List.mem_of_getElem? hcell))

/-- The requests that are served by the cell at an address, as the lanes they ask for. -/
def lanesAt (layout : Layout) (pool : ConstantPool) (address : Nat) : Set Nat :=
  { lanes | ∃ (number : Nat) (request : PoolRequest), layout.requests[number]? = some request ∧
    pool.addressOf number = address ∧ request.lanes = lanes }

/-- What a pool promises of the operands that use it and of the bytes of the program. -/
structure Serves (store : TokenStore) (statements : List Statement) (layout : Layout)
    (entries : List Entry) (pool : ConstantPool) : Prop where
  /-- Every pooled operand of a statement has its request, for the type that the instruction names
  and for the lanes of the slot. -/
  requested : ∀ (token : TokenId) (word : Instruction) (operands : List Addressing)
    (index number : Nat), Lowered.instruction token word operands ∈ layout.lowered →
    operands[index]? = some (.pooled number) →
    ∃ statement slot request, .instruction statement ∈ statements ∧ statement.token = token ∧
      statement.opcode.template.slots[index]? = some slot ∧
      layout.requests[number]? = some request ∧ statement.term? index = some request.term ∧
      request.type = word.typeAt index ∧
      request.lanes = request.term.poolLanes (slot.resolveWidth statement.width)
  /-- Operands have the same address exactly when they are the same bytes of the same type. -/
  addressOf_eq_iff : ∀ (first second : Nat) (request other : PoolRequest) (once more : Bytes),
    layout.requests[first]? = some request → layout.requests[second]? = some other →
    layout.encodeTerm store request.type request.term true = .ok once →
    layout.encodeTerm store other.type other.term true = .ok more →
    (pool.addressOf first = pool.addressOf second ↔ request.type = other.type ∧ once = more)
  /-- At the address of an operand lies a cell with its bytes. -/
  cell_of : ∀ (number : Nat) (request : PoolRequest), layout.requests[number]? = some request →
    ∃ cell, (pool.addressOf number, cell) ∈ pool.cells ∧ cell.type = request.type ∧
      layout.encodeTerm store request.type request.term true = .ok cell.content.once
  /-- A cell has as many copies as the widest of its uses asks for. -/
  copies_isGreatest : ∀ placed ∈ pool.cells,
    IsGreatest (lanesAt layout pool placed.1) placed.2.content.copies
  /-- No cell has an address of a byte of a statement. -/
  entries_apart : ∀ placed ∈ pool.cells, ∀ entry ∈ entries, ∀ address,
    (cellSpan placed).Covers address → ¬ entry.span.Covers address
  /-- No cell has an address of another. -/
  apart : pool.cells.Pairwise fun first second =>
    ∀ address, (cellSpan first).Covers address → ¬ (cellSpan second).Covers address

namespace Packed

/-- Cells at the same address are the same. -/
theorem eq_of_address_eq (hpacked : Packed store layout pool)
    (hrequests : ∀ request ∈ layout.requests.toList, request.WellFormed)
    {first second : Nat × PoolCell} (hfirst : first ∈ pool.cells) (hsecond : second ∈ pool.cells)
    (haddress : first.1 = second.1) : first = second := by
  have hin := hpacked.covers_address hrequests hfirst
  have hin' := hpacked.covers_address hrequests hsecond
  rw [← haddress] at hin'
  exact hpacked.eq_of_covers hfirst hsecond hin hin'

/-- Requests share a cell exactly when they ask for the same bytes of the same type. -/
theorem addressOf_eq_iff (hpacked : Packed store layout pool)
    (hrequests : ∀ request ∈ layout.requests.toList, request.WellFormed) {first second : Nat}
    {request other : PoolRequest} {once more : Bytes}
    (hfirst : layout.requests[first]? = some request)
    (hsecond : layout.requests[second]? = some other)
    (honce : layout.encodeTerm store request.type request.term true = .ok once)
    (hmore : layout.encodeTerm store other.type other.term true = .ok more) :
    pool.addressOf first = pool.addressOf second ↔ request.type = other.type ∧ once = more := by
  obtain ⟨cell, hcell, htype, hencode, -⟩ := hpacked.cell_of first request hfirst
  obtain ⟨cell', hcell', htype', hencode', -⟩ := hpacked.cell_of second other hsecond
  rw [honce] at hencode
  rw [hmore] at hencode'
  cases hencode
  cases hencode'
  rw [← htype, ← htype']
  constructor
  · intro haddress
    have heq := congrArg Prod.snd (hpacked.eq_of_address_eq hrequests hcell hcell' haddress)
    dsimp only at heq
    rw [heq]
    exact ⟨rfl, rfl⟩
  · rintro ⟨htypes, honces⟩
    have hkey : cell.key = cell'.key := Prod.ext htypes honces
    exact congrArg Prod.fst (hpacked.eq_of_key_eq hcell hcell' hkey)

/-- A cell has room for its widest use and no more. -/
theorem copies_isGreatest (hpacked : Packed store layout pool)
    (hrequests : ∀ request ∈ layout.requests.toList, request.WellFormed)
    {placed : Nat × PoolCell} (hmem : placed ∈ pool.cells) :
    IsGreatest (lanesAt layout pool placed.1) placed.2.content.copies := by
  constructor
  · obtain ⟨number, request, hrequest, haddress, -, hlanes, -⟩ := hpacked.widest placed hmem
    exact ⟨number, request, hrequest, haddress, hlanes⟩
  · rintro lanes ⟨number, request, hrequest, haddress, rfl⟩
    obtain ⟨cell, hcell, -, -, hlanes⟩ := hpacked.cell_of number request hrequest
    rw [← hpacked.eq_of_address_eq hrequests hcell hmem haddress]
    exact hlanes

theorem serves (hpacked : Packed store layout pool)
    (hplaced : Layout.ofStatements store config statements = .ok layout)
    (hrequests : ∀ request ∈ layout.requests.toList, request.WellFormed) {entries : List Entry}
    (hwrite : Image.write layout store pool 0 layout.lowered.toList = .ok entries) :
    Serves store statements layout entries pool := by
  have hrun := Layout.run_of_ofStatements hplaced
  refine ⟨?_, ?_, ?_, ?_, ?_, hpacked.apart⟩
  · intro token word operands index number hmem hpooled
    exact hrun.requested (Array.mem_toList_iff.mpr hmem) hpooled
  · intro first second request other once more hfirst hsecond honce hmore
    exact hpacked.addressOf_eq_iff hrequests hfirst hsecond honce hmore
  · intro number request hrequest
    obtain ⟨cell, hcell, htype, hencode, -⟩ := hpacked.cell_of number request hrequest
    exact ⟨cell, hcell, htype, hencode⟩
  · intro placed hmem
    exact hpacked.copies_isGreatest hrequests hmem
  · intro placed hmem entry hentry address hcovers hwritten
    refine hpacked.not_taken placed hmem address hcovers ⟨entry.span, ?_, hwritten⟩
    exact hrun.span_mem (Layout.Extends.refl layout) space_pos hwrite entry hentry

end Packed

/-- The highest address that a statement needs. -/
theorem exists_top (hplaced : Layout.ofStatements store config statements = .ok layout)
    (hrequests : layout.requests ≠ #[]) :
    ∃ top, IsGreatest { address | layout.Taken store address } top := by
  have hbounded : BddAbove { address | layout.Taken store address } :=
    ⟨space, fun _ ⟨_, _, hcovers⟩ => Nat.le_of_lt hcovers.lt⟩
  exact ⟨_, Nat.sSup_mem (exists_taken hplaced hrequests) hbounded,
    fun _ hmem => le_csSup hbounded hmem⟩

/-- The search starts right behind the highest byte of the statements, or as low as possible. -/
theorem start_of_free? (hplaced : Layout.ofStatements store config statements = .ok layout)
    {size start top : Nat} (hsize : 0 < size)
    (htop : IsGreatest { address | layout.Taken store address } top)
    (hfree : Extent.free? layout.extents.toList size = some start) :
    (top + 1 + size ≤ space → start = top + 1) ∧
      (space < top + 1 + size →
        IsLeast { start | IsFree (layout.Taken store) size start } start) := by
  have hproper := Layout.proper_of_ofStatements hplaced
  have htaken : IsGreatest
      { address | address < space ∧ Extent.Taken layout.extents.toList address } top := by
    constructor
    · obtain ⟨span, hspan, hcovers⟩ := htop.1
      exact ⟨hcovers.lt, (Layout.taken_iff hplaced hcovers.lt).mpr ⟨span, hspan, hcovers⟩⟩
    · rintro address ⟨haddress, hin⟩
      exact htop.2 ((Layout.taken_iff hplaced haddress).mp hin)
  obtain ⟨highest, hhighest, htopEq⟩ := Extent.exists_highest? hproper htaken
  obtain ⟨-, hwhere⟩ := Extent.free?_eq_some hproper hsize hfree
  obtain ⟨hbehind, hlowest⟩ := hwhere highest hhighest
  constructor
  · intro hfits
    rw [hbehind (by omega)]
    omega
  · intro hbeyond
    have hleast := hlowest (by omega)
    simpa only [Layout.isFree_taken_iff hplaced] using hleast

/-- Laying out constants that no label places is the search for free bytes. -/
theorem ofLayout_eq_of_free {indices : List Nat} {cells : List PoolCell}
    (hcollect : collect layout store [] layout.requests.toList = .ok (indices, cells))
    (hrequests : layout.requests ≠ #[])
    (hlabel : addressOf? layout.labels config.poolLabel = none)
    (hrequire : config.requirePoolLabel = false) :
    match Extent.free? layout.extents.toList (totalSize cells) with
    | some start => ∃ addresses,
        ofLayout layout store config = .ok ⟨addressFrom start cells, addresses⟩
    | none => ∃ error address,
        ofLayout layout store config = .error error ∧ error.fault = .poolOverlap address := by
  have hcons : ∃ first rest, layout.requests.toList = first :: rest :=
    List.exists_cons_of_ne_nil fun hnil => hrequests (Array.toList_eq_nil_iff.mp hnil)
  obtain ⟨first, rest, hfirst⟩ := hcons
  have hofLayout : ofLayout layout store config =
      (base layout store config first.term (totalSize cells)).bind fun start =>
        .ok ⟨addressFrom start cells,
          indices.map fun index => ((addressFrom start cells)[index]?.map Prod.fst).getD 0⟩ := by
    rw [ofLayout, hcollect, hfirst]
    rfl
  rw [hofLayout, base, hlabel, hrequire]
  cases Extent.free? layout.extents.toList (totalSize cells) with
  | some start => exact ⟨_, rfl⟩
  | none => exact ⟨_, _, rfl, rfl⟩

/-- The pool is laid out as the operands that use it need, apart from every byte of a statement. A
pool that no label places starts right behind the highest byte of the statements or, where it does
not fit there, as low as it fits; only if it fits nowhere there is no such pool. -/
theorem ofLayout_serves {tokens : List TokenId}
    (hread : store.statements tokens = .ok statements) (hdefault : config.SupportsDefault)
    (hplaced : Layout.ofStatements store config statements = .ok layout) :
    (∀ image, Image.ofStatements store config statements = .ok image →
      ∃ pool, ofLayout layout store config = .ok pool ∧
        image.program = Image.assemble image.entries pool ∧
        Serves store statements layout image.entries pool) ∧
    (layout.requests ≠ #[] →
      (∀ request ∈ layout.requests,
        ∃ once, layout.encodeTerm store request.type request.term true = .ok once) →
      addressOf? layout.labels config.poolLabel = none → config.requirePoolLabel = false →
      ∃ indices cells top,
        collect layout store [] layout.requests.toList = .ok (indices, cells) ∧
        IsGreatest { address | layout.Taken store address } top ∧
        ((∃ error address, ofLayout layout store config = .error error ∧
            error.fault = .poolOverlap address) ↔
          ¬ ∃ start, IsFree (layout.Taken store) (totalSize cells) start) ∧
        ((∃ start, IsFree (layout.Taken store) (totalSize cells) start) →
          ∃ start addresses,
            ofLayout layout store config = .ok ⟨addressFrom start cells, addresses⟩ ∧
            (top + 1 + totalSize cells ≤ space → start = top + 1) ∧
            (space < top + 1 + totalSize cells →
              IsLeast { start | IsFree (layout.Taken store) (totalSize cells) start } start))) := by
  have hrequests : ∀ request ∈ layout.requests.toList, request.WellFormed := by
    refine (Layout.run_of_ofStatements hplaced).wellFormed_requests hdefault
      (TokenStore.wellFormed_of_statements hread) ?_
    intro request hmem
    cases hmem
  constructor
  · intro image himage
    obtain ⟨other, hother, himage⟩ := bind_eq_ok.mp himage
    rw [hplaced] at hother
    cases hother
    obtain ⟨pool, hpool, himage⟩ := bind_eq_ok.mp himage
    obtain ⟨entries, hwrite, himage⟩ := bind_eq_ok.mp himage
    cases himage
    exact ⟨pool, hpool, rfl, (packed_of_ofLayout hplaced hpool).serves hplaced hrequests hwrite⟩
  · intro hne hencode hlabel hrequire
    obtain ⟨indices, cells, hcollect⟩ := exists_collect [] fun request hmem =>
      hencode request (Array.mem_toList_iff.mp hmem)
    obtain ⟨top, htop⟩ := exists_top hplaced hne
    have hproper := Layout.proper_of_ofStatements hplaced
    have hsize : 0 < totalSize cells :=
      totalSize_pos (collected_of_collect hcollect) hrequests
        fun hnil => hne (Array.toList_eq_nil_iff.mp hnil)
    have hroom : (∃ start, IsFree (layout.Taken store) (totalSize cells) start) ↔
        (Extent.free? layout.extents.toList (totalSize cells)).isSome = true := by
      rw [Extent.free?_isSome_iff hproper hsize]
      exact exists_congr fun start => (Layout.isFree_taken_iff hplaced).symm
    have houtcome := ofLayout_eq_of_free hcollect hne hlabel hrequire
    refine ⟨indices, cells, top, hcollect, htop, ?_⟩
    rw [hroom]
    cases hfree : Extent.free? layout.extents.toList (totalSize cells) with
    | none =>
        rw [hfree] at houtcome
        exact ⟨by simpa using houtcome, fun hsome => by cases hsome⟩
    | some start =>
        rw [hfree] at houtcome
        obtain ⟨addresses, hpool⟩ := houtcome
        exact ⟨by simp [hpool], fun _ =>
          ⟨start, addresses, hpool, start_of_free? hplaced hsize htop hfree⟩⟩

/-- The constant of a single instruction lies right behind it. -/
theorem ofLayout_serves_push :
    let store : TokenStore :=
      ⟨#[⟨"push", #['p', 'u', 's', 'h', ':', 'u', '8', ' ', '9'], none⟩],
        #[⟨.word, 0, 0, 4, none⟩, ⟨.type, 0, 4, 3, none⟩, ⟨.number, 0, 8, 1, none⟩]⟩
    ∃ statements layout image pool addresses,
      store.statements [0, 1, 2] = .ok statements ∧
      Layout.ofStatements store .standard statements = .ok layout ∧
      Image.ofStatements store .standard statements = .ok image ∧
      ofLayout layout store .standard = .ok pool ∧
      Serves store statements layout image.entries pool ∧
      ofLayout layout store .standard = .ok ⟨[(11, ⟨.u8, ⟨[9], 1⟩⟩)], addresses⟩ := by
  intro store
  let push : InstructionStatement := ⟨.push, 0, some .u8, 1, [⟨.literal 2 false, 2, 1⟩], []⟩
  let layout : Layout := ⟨11, #[], #[⟨.u8, 1, ⟨.literal 2 false, 2, 1⟩⟩], #[⟨0, 11⟩],
    #[.instruction 0 ⟨.push, 1, 1, (.u8, .u8, .u8), 1, 0⟩ [.pooled 0, .stack]]⟩
  have hread : store.statements [0, 1, 2] = .ok [.instruction push] := by decide +kernel
  have hdefault : AssemblyConfig.standard.SupportsDefault := by
    intro type htype
    cases htype
    rfl
  have hplaced : Layout.ofStatements store .standard [.instruction push] = .ok layout := by
    decide +kernel
  have hencode : ∀ request ∈ layout.requests,
      ∃ once, layout.encodeTerm store request.type request.term true = .ok once := by
    intro request hmem
    cases List.mem_singleton.mp (Array.mem_toList_iff.mpr hmem)
    exact ⟨[9], by decide +kernel⟩
  have hcollect : collect layout store [] layout.requests.toList =
      .ok ([0], [⟨.u8, ⟨[9], 1⟩⟩]) := by decide +kernel
  have himage : (Image.ofStatements store .standard [.instruction push]).isOk = true := by
    decide +kernel
  obtain ⟨image, himage⟩ : ∃ image,
      Image.ofStatements store .standard [.instruction push] = .ok image := by
    cases hresult : Image.ofStatements store .standard [.instruction push] with
    | ok image => exact ⟨image, rfl⟩
    | error fault =>
        rw [hresult] at himage
        cases himage
  obtain ⟨hserves, hstarts⟩ := ofLayout_serves hread hdefault hplaced
  obtain ⟨pool, hpool, -, hpoolServes⟩ := hserves image himage
  obtain ⟨indices, cells, top, hcollected, htop, hfails, hroom⟩ :=
    hstarts (by simp [layout]) hencode rfl rfl
  rw [hcollect] at hcollected
  cases hcollected
  have hfree : ∃ start, IsFree (layout.Taken store) (totalSize [⟨.u8, ⟨[9], 1⟩⟩]) start := by
    by_contra hnone
    obtain ⟨error, address, herror, -⟩ := hfails.mpr hnone
    rw [hpool] at herror
    cases herror
  obtain ⟨start, addresses, hlaid, hbehind, -⟩ := hroom hfree
  have htopEq : top = 10 := by
    have hspans : Layout.spans store 0 layout.lowered.toList = [⟨0, 11⟩] := by decide +kernel
    have hlast : layout.Taken store 10 := by
      refine ⟨⟨0, 11⟩, ?_, 10, by decide, rfl⟩
      rw [hspans]
      exact List.mem_cons_self
    have hge : 10 ≤ top := htop.2 hlast
    obtain ⟨span, hspan, index, hindex, haddress⟩ := htop.1
    rw [hspans] at hspan
    cases List.mem_singleton.mp hspan
    dsimp only at hindex haddress
    rw [wrap_eq_self (Nat.lt_trans (by omega : 0 + index < 11) (by decide))] at haddress
    omega
  refine ⟨_, layout, image, pool, addresses, hread, hplaced, himage, hpool, hpoolServes, ?_⟩
  rw [hlaid, hbehind (by rw [htopEq]; decide), htopEq]
  rfl

end VectorStack.ConstantPool
