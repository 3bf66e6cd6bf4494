import Mathlib.Data.List.Nodup
import Mathlib.Data.List.Pairwise
import VectorStack.Proofs.ConstantPool.Cells
import VectorStack.Proofs.Layout.Agreement
import VectorStack.Proofs.Layout.Extents
import VectorStack.Proofs.Layout.Requests
/-!
Where constants lie. Cells are packed one behind the other from the start of the pool, and the pool
as a whole is free of bytes of statements, so no cell shares an address with a statement or with
another cell, wherever the pool starts and also where it goes on at the bottom of memory.
-/

namespace VectorStack

open Address (space wrap wrap_lt wrap_eq_self)

/-- A constant with its length first is never empty. -/
theorem Layout.length_encodeTerm_pos {layout : Layout} {store : TokenStore} {type : DataType}
    {term : Term} {once : Bytes} (htype : type.isSupported = true)
    (hencode : layout.encodeTerm store type term true = .ok once) : 0 < once.length := by
  obtain ⟨numbers, hlanes, rfl⟩ := lanes_of_encodeTerm hencode
  rw [DataType.length_flatMap_encodeLane]
  refine Nat.mul_pos ?_ (DataType.size_pos htype)
  cases hlanes <;> simp

namespace ConstantPool

variable {store : TokenStore} {config : AssemblyConfig} {layout : Layout}
  {statements : List Statement} {pool : ConstantPool}

/-- The addresses of a cell. -/
def cellSpan (placed : Nat × PoolCell) : Span := ⟨placed.1, placed.2.content.length⟩

theorem map_snd_addressFrom (start : Nat) (cells : List PoolCell) :
    (addressFrom start cells).map Prod.snd = cells := by
  induction cells generalizing start with
  | nil => rfl
  | cons cell rest ih => simp [addressFrom, ih]

/-- A cell is part of all cells together. -/
theorem exists_offset {start : Nat} {cells : List PoolCell} {placed : Nat × PoolCell}
    (hmem : placed ∈ addressFrom start cells) :
    ∃ offset, placed.1 = wrap (start + offset) ∧
      offset + placed.2.content.length ≤ totalSize cells := by
  induction cells generalizing start with
  | nil => cases hmem
  | cons cell rest ih =>
      rw [totalSize]
      rcases List.mem_cons.mp hmem with rfl | hlater
      · exact ⟨0, rfl, by dsimp only; omega⟩
      · obtain ⟨offset, haddress, hle⟩ := ih hlater
        refine ⟨cell.content.length + offset, ?_, by omega⟩
        rw [haddress, Nat.add_assoc]

/-- Cells that together are no larger than memory are apart from each other. -/
theorem pairwise_addressFrom (start : Nat) {cells : List PoolCell}
    (hspace : totalSize cells ≤ space) :
    (addressFrom start cells).Pairwise fun first second =>
      ∀ address, (cellSpan first).Covers address → ¬ (cellSpan second).Covers address := by
  induction cells generalizing start with
  | nil => exact .nil
  | cons cell rest ih =>
      rw [totalSize] at hspace
      refine .cons (fun placed hlater address hcovers => ?_) (ih _ (by omega))
      obtain ⟨offset, haddress, hle⟩ := exists_offset hlater
      have hfits : cell.content.length + offset + placed.2.content.length ≤
          cell.content.length + totalSize rest := by omega
      have hfirst : 0 + cell.content.length ≤ cell.content.length + offset := by omega
      rw [cellSpan, haddress, Nat.add_assoc]
      exact Span.not_covers_of_before hfirst hfits hspace hcovers

/-- What laying out the constants of a program consists of. -/
theorem ofLayout_eq_ok (hpool : ofLayout layout store config = .ok pool) :
    ∃ indices cells start,
      collect layout store [] layout.requests.toList = .ok (indices, cells) ∧
      pool = ⟨addressFrom start cells,
        indices.map fun index => ((addressFrom start cells)[index]?.map Prod.fst).getD 0⟩ ∧
      (cells ≠ [] → ∃ first, base layout store config first (totalSize cells) = .ok start) := by
  obtain ⟨⟨indices, cells⟩, hcollect, hpool⟩ := bind_eq_ok.mp hpool
  dsimp only at hpool
  split at hpool
  · next hnone =>
      rw [hnone] at hcollect
      cases hcollect
      cases hpool
      exact ⟨[], [], 0, by rw [hnone]; rfl, rfl, fun hcells => absurd rfl hcells⟩
  · next first _ _ =>
      obtain ⟨start, hbase, hpool⟩ := bind_eq_ok.mp hpool
      cases hpool
      exact ⟨indices, cells, start, hcollect, rfl, fun _ => ⟨first.term, hbase⟩⟩

/-- The pool starts where none of its bytes meets one of a statement or another one of its own. -/
theorem free_of_base {first : Term} {size start : Nat}
    (hplaced : Layout.ofStatements store config statements = .ok layout)
    (htaken : ∃ address, layout.Taken store address) (hsize : 0 < size)
    (hbase : base layout store config first size = .ok start) :
    size ≤ space ∧ ∀ address, Span.Covers ⟨start, size⟩ address → ¬ layout.Taken store address := by
  have hproper := Layout.proper_of_ofStatements hplaced
  rw [base] at hbase
  dsimp only at hbase
  split at hbase
  · next anchor hanchor =>
      split at hbase
      · cases hbase
      · next hclear =>
          cases hbase
          have hstart := Layout.addressOf?_lt hplaced hanchor
          rw [Extent.overlaps_iff hproper hstart hsize] at hclear
          have hfree : ∀ address, Span.Covers ⟨start, size⟩ address →
              ¬ layout.Taken store address := by
            intro address hcovers hneeded
            exact hclear ⟨address, hcovers, (Layout.taken_iff hplaced hcovers.lt).mpr hneeded⟩
          refine ⟨Nat.le_of_not_lt fun hlarge => ?_, hfree⟩
          obtain ⟨address, span, hspan, hcovers⟩ := htaken
          exact hfree address (Span.covers_of_space_le (Nat.le_of_lt hlarge) hcovers.lt)
            ⟨span, hspan, hcovers⟩
  · split at hbase
    · cases hbase
    · split at hbase
      · next found hfound =>
          cases hbase
          obtain ⟨⟨hbelow, hfree⟩, -⟩ := Extent.free?_eq_some hproper hsize hfound
          refine ⟨by omega, ?_⟩
          rintro address ⟨i, hi, rfl⟩ hneeded
          dsimp only at hi hneeded
          rw [wrap_eq_self (by omega)] at hneeded
          exact hfree i hi ((Layout.taken_iff hplaced (by omega)).mpr hneeded)
      · cases hbase

/-- Where the constants of a program lie: every request has its cell, every cell is as wide as a
request for it, and cells share no address with statements or with each other. -/
structure Packed (store : TokenStore) (layout : Layout) (pool : ConstantPool) : Prop where
  cell_of : ∀ (number : Nat) (request : PoolRequest), layout.requests[number]? = some request →
    ∃ cell, (pool.addressOf number, cell) ∈ pool.cells ∧ cell.type = request.type ∧
      layout.encodeTerm store request.type request.term true = .ok cell.content.once ∧
      request.lanes ≤ cell.content.copies
  widest : ∀ placed ∈ pool.cells, ∃ (number : Nat) (request : PoolRequest),
    layout.requests[number]? = some request ∧ pool.addressOf number = placed.1 ∧
      request.type = placed.2.type ∧ request.lanes = placed.2.content.copies ∧
      layout.encodeTerm store request.type request.term true = .ok placed.2.content.once
  keys_nodup : (pool.cells.map fun placed => placed.2.key).Nodup
  address_lt : ∀ placed ∈ pool.cells, placed.1 < space
  length_le : ∀ placed ∈ pool.cells, placed.2.content.length ≤ space
  apart : pool.cells.Pairwise fun first second =>
    ∀ address, (cellSpan first).Covers address → ¬ (cellSpan second).Covers address
  not_taken : ∀ placed ∈ pool.cells, ∀ address, (cellSpan placed).Covers address →
    ¬ layout.Taken store address

theorem addressOf_eq {indices : List Nat} {placed : List (Nat × PoolCell)} {number index : Nat}
    {cell : Nat × PoolCell} (hindex : indices[number]? = some index)
    (hcell : placed[index]? = some cell) :
    addressOf ⟨placed, indices.map fun index => (placed[index]?.map Prod.fst).getD 0⟩ number =
      cell.1 := by
  simp [addressOf, hindex, hcell]

/-- Where there are requests, a statement needs an address. -/
theorem exists_taken (hplaced : Layout.ofStatements store config statements = .ok layout)
    (hrequests : layout.requests ≠ #[]) : ∃ address, layout.Taken store address := by
  obtain ⟨token, word, operands, hmem⟩ :=
    (Layout.run_of_ofStatements hplaced).exists_instruction hrequests
  obtain ⟨span, hspan, hlength⟩ := Layout.exists_span store 0 hmem
  have hpos : 0 < span.length := by
    rw [hlength, Lowered.length, Instruction.size, Instruction.wordBytes]
    omega
  exact ⟨wrap (span.address + 0), span, hspan, 0, hpos, rfl⟩

/-- Every cell has an address in the pool. -/
theorem getElem?_addressFrom (start : Nat) {cells : List PoolCell} {index : Nat}
    {cell : PoolCell} (hcell : cells[index]? = some cell) :
    ∃ address, (addressFrom start cells)[index]? = some (address, cell) := by
  rw [← map_snd_addressFrom start cells, List.getElem?_map, Option.map_eq_some_iff] at hcell
  obtain ⟨⟨address, found⟩, hfound, rfl⟩ := hcell
  exact ⟨address, hfound⟩

/-- The bytes of the pool fit memory and are none that a statement needs. -/
theorem free_of_collect (hplaced : Layout.ofStatements store config statements = .ok layout)
    {indices : List Nat} {cells : List PoolCell} {start : Nat}
    (hcollect : collect layout store [] layout.requests.toList = .ok (indices, cells))
    (hbase : cells ≠ [] →
      ∃ first, base layout store config first (totalSize cells) = .ok start) :
    totalSize cells ≤ space ∧ ∀ address, Span.Covers ⟨start, totalSize cells⟩ address →
      ¬ layout.Taken store address := by
  rcases Nat.eq_zero_or_pos (totalSize cells) with hempty | hsize
  · refine ⟨by omega, ?_⟩
    rintro address ⟨i, hi, -⟩
    dsimp only at hi
    omega
  · have hcells : cells ≠ [] := by
      rintro rfl
      exact absurd hsize (Nat.lt_irrefl 0)
    have hrequests : layout.requests ≠ #[] := by
      intro hnone
      rw [hnone] at hcollect
      cases hcollect
      exact hcells rfl
    obtain ⟨first, hstart⟩ := hbase hcells
    exact free_of_base hplaced (exists_taken hplaced hrequests) hsize hstart

theorem packed_of_ofLayout (hplaced : Layout.ofStatements store config statements = .ok layout)
    (hpool : ofLayout layout store config = .ok pool) : Packed store layout pool := by
  obtain ⟨indices, cells, start, hcollect, rfl, hbase⟩ := ofLayout_eq_ok hpool
  have hcollected := collected_of_collect hcollect
  obtain ⟨hsize, hfree⟩ := free_of_collect hplaced hcollect hbase
  refine ⟨?_, ?_, ?_, ?_, ?_, pairwise_addressFrom start hsize, ?_⟩
  · intro number request hrequest
    rw [← Array.getElem?_toList] at hrequest
    obtain ⟨index, cell, hindex, hfound, hspec⟩ := hcollected.found number request hrequest
    obtain ⟨address, hplacedCell⟩ := getElem?_addressFrom start hfound
    rw [addressOf_eq hindex hplacedCell]
    exact ⟨cell, List.mem_of_getElem? hplacedCell, hspec⟩
  · intro placed hmem
    obtain ⟨index, hindex⟩ := List.mem_iff_getElem?.mp hmem
    have hfound : cells[index]? = some placed.2 := by
      rw [← map_snd_addressFrom start cells, List.getElem?_map, hindex]
      rfl
    rcases hcollected.origin index placed.2 hfound with
      hnone | ⟨number, request, hrequest, hnumber, hlanes⟩
    · cases hnone
    · obtain ⟨other, cell, hother, hsame, htype, hencode, -⟩ :=
        hcollected.found number request hrequest
      rw [hnumber] at hother
      cases hother
      rw [hfound] at hsame
      cases hsame
      rw [Array.getElem?_toList] at hrequest
      exact ⟨number, request, hrequest, addressOf_eq hnumber hindex, htype.symm, hlanes, hencode⟩
  · have hkeys : (addressFrom start cells).map (fun placed => placed.2.key) =
        ((addressFrom start cells).map Prod.snd).map PoolCell.key := by
      rw [List.map_map]
      rfl
    rw [map_snd_addressFrom] at hkeys
    dsimp only
    rw [hkeys]
    exact hcollected.distinct .nil
  · intro placed hmem
    obtain ⟨offset, haddress, -⟩ := exists_offset hmem
    rw [haddress]
    exact wrap_lt _
  · intro placed hmem
    obtain ⟨offset, -, hle⟩ := exists_offset hmem
    exact Nat.le_trans (Nat.le_trans (Nat.le_add_left _ _) hle) hsize
  · intro placed hmem address hcovers
    obtain ⟨offset, haddress, hle⟩ := exists_offset hmem
    rw [cellSpan, haddress] at hcovers
    exact hfree address (hcovers.of_part hle)

namespace Packed

variable {first second : Nat × PoolCell}

/-- A cell is told by its type and its bytes. -/
theorem eq_of_key_eq (hpacked : Packed store layout pool) (hfirst : first ∈ pool.cells)
    (hsecond : second ∈ pool.cells) (hkey : first.2.key = second.2.key) : first = second :=
  List.inj_on_of_nodup_map hpacked.keys_nodup hfirst hsecond hkey

/-- A cell is told by any of its addresses. -/
theorem eq_of_covers (hpacked : Packed store layout pool) (hfirst : first ∈ pool.cells)
    (hsecond : second ∈ pool.cells) {address : Nat} (hin : (cellSpan first).Covers address)
    (hin' : (cellSpan second).Covers address) : first = second := by
  by_contra hdifferent
  have hsymmetric : Std.Symm fun first second : Nat × PoolCell =>
      ∀ address, (cellSpan first).Covers address → ¬ (cellSpan second).Covers address :=
    ⟨fun _ _ hapart address hsecond hfirst => hapart address hfirst hsecond⟩
  exact hpacked.apart.forall hfirst hsecond hdifferent address hin hin'

/-- A cell for lanes of a type with a meaning has a byte at its address. -/
theorem covers_address (hpacked : Packed store layout pool)
    (hrequests : ∀ request ∈ layout.requests.toList, request.WellFormed)
    (hmem : first ∈ pool.cells) : (cellSpan first).Covers first.1 := by
  obtain ⟨number, request, hrequest, -, -, hlanes, hencode⟩ := hpacked.widest first hmem
  rw [← Array.getElem?_toList] at hrequest
  have hwellFormed := hrequests request (List.mem_of_getElem? hrequest)
  have hlength : 0 < first.2.content.length := by
    rw [ByteRun.length, ← hlanes]
    exact Nat.mul_pos (Layout.length_encodeTerm_pos hwellFormed.type_isSupported hencode)
      hwellFormed.lanes_pos
  exact ⟨0, hlength, wrap_eq_self (hpacked.address_lt first hmem)⟩

end Packed

end ConstantPool

end VectorStack
