import VectorStack.Proofs.Program.Assembled
import VectorStack.Proofs.Program.Integers
/-!
Programs of instructions on integers in memory. They fit below the top of memory, so that no
instruction is written over another one or over a constant, and memory holds all of them.
-/

namespace VectorStack

open Address (space wrap wrap_eq_self)

variable {store : TokenStore} {config : AssemblyConfig} {layout : Layout} {pool : ConstantPool}
  {statements : List Statement}

/-- Spans below the top of memory that follow each other share no address. -/
theorem Span.not_covers_of_le {first second : Span} {address : Nat}
    (hbefore : first.address + first.length ≤ second.address)
    (hbelow : second.address + second.length ≤ space) (hfirst : first.Covers address) :
    ¬ second.Covers address := by
  rintro ⟨j, hj, hsame⟩
  obtain ⟨i, hi, rfl⟩ := hfirst
  rw [wrap_eq_self (by omega), wrap_eq_self (by omega)] at hsame
  omega

/-- Instructions that fit below the top of memory are written one behind the other. -/
theorem LaidOut.ordered {cursor stop : Nat} {labels : List Label} {entries : List Entry}
    (hlaidOut : LaidOut store config layout pool cursor statements labels entries stop)
    (hstatements : ∀ statement ∈ statements, statement.OnIntegers store)
    (hroom : cursor + statements.length * Instruction.maxSize < space) :
    (∀ entry ∈ entries, cursor ≤ entry.address ∧ entry.address + entry.length < space) ∧
      entries.Pairwise fun first second => first.address + first.length ≤ second.address := by
  induction hlaidOut with
  | nil => exact ⟨nofun, .nil⟩
  | cons hhead _ ih =>
      obtain ⟨hstatement, hrest⟩ := List.forall_mem_cons.mp hstatements
      rw [List.length_cons, Nat.succ_mul] at hroom
      cases hhead with
      | label | position | data | nothing => exact hstatement.elim
      | instruction hplan hrequests haddresses hsize =>
          have hle := Layout.size_le_of_plan hplan
          rw [wrap_eq_self (by omega)] at ih
          obtain ⟨hbounds, hpairwise⟩ := ih hrest (by omega)
          refine ⟨List.forall_mem_cons.mpr ⟨⟨Nat.le_refl _, ?_⟩, ?_⟩, .cons ?_ hpairwise⟩
          · rw [Entry.length, hsize]
            dsimp only
            omega
          · intro entry hmem
            have hentry := hbounds entry hmem
            omega
          · intro entry hmem
            rw [Entry.length, hsize]
            exact (hbounds entry hmem).1

theorem Program.plain_load (program : Program) {memory : Memory} (hplain : memory.Plain) :
    (program.load memory).Plain := by
  obtain ⟨segments⟩ := program
  induction segments generalizing memory with
  | nil => exact hplain
  | cons segment rest ih => exact ih (hplain.write segment.address segment.bytes)

/-- No instruction shares an address with a constant. -/
theorem Image.not_covers_cell {image : Image}
    (hlayout : Layout.ofStatements store config statements = .ok layout)
    (hpool : ConstantPool.ofLayout layout store config = .ok pool)
    (himage : ofStatements store config statements = .ok image) :
    ∀ entry ∈ image.entries, ∀ placed ∈ pool.cells, ∀ address,
      entry.span.Covers address → ¬ (ConstantPool.cellSpan placed).Covers address := by
  intro entry hentry placed hplaced address hcovers hcell
  obtain ⟨found, hfound, himage⟩ := bind_eq_ok.mp himage
  rw [hlayout] at hfound
  cases hfound
  obtain ⟨found, hfound, himage⟩ := bind_eq_ok.mp himage
  rw [hpool] at hfound
  cases hfound
  obtain ⟨entries, hwrite, himage⟩ := bind_eq_ok.mp himage
  cases himage
  have hspan := (Layout.run_of_ofStatements hlayout).span_mem (Layout.Extends.refl layout)
    Address.space_pos hwrite entry hentry
  have hpacked := ConstantPool.packed_of_ofLayout hlayout hpool
  exact hpacked.not_taken placed hplaced address hcell ⟨entry.span, hspan, hcovers⟩

/-- Memory holds every instruction and every constant of an image that starts at zero. -/
structure Image.HeldBy (image : Image) (store : TokenStore) (config : AssemblyConfig)
    (statements : List Statement) (layout : Layout) (pool : ConstantPool) (memory : Memory) :
    Prop where
  layout_eq : Layout.ofStatements store config statements = .ok layout
  pool_eq : ConstantPool.ofLayout layout store config = .ok pool
  laidOut : LaidOut store config layout pool 0 statements image.labels image.entries layout.cursor
  plain : memory.Plain
  entries : ∀ entry ∈ image.entries, memory.Holds entry.address entry.bytes
  cells : ∀ placed ∈ pool.cells, memory.Holds placed.1 placed.2.content.bytes

/-- A program whose entries share no address is all in the memory that it was loaded into. -/
theorem Image.heldBy_load_of_apart {memory : Memory} {image : Image} (hplain : memory.Plain)
    (himage : ofStatements store config statements = .ok image)
    (hentries : image.entries.Pairwise fun first second =>
      ∀ address, first.span.Covers address → ¬ second.span.Covers address)
    (hlength : ∀ entry ∈ image.entries, entry.length ≤ space) :
    ∃ layout pool,
      image.HeldBy store config statements layout pool (image.program.load memory) := by
  obtain ⟨layout, pool, hlayout, hpool, hprogram, hlaidOut⟩ := exists_laidOut himage
  have hpacked := ConstantPool.packed_of_ofLayout hlayout hpool
  obtain ⟨hheld, hcells, -⟩ := get_load_assemble hplain
    (places_assemble image.entries pool) hentries hlength hpacked.apart hpacked.length_le
    (not_covers_cell hlayout hpool himage)
  rw [← hprogram] at hheld hcells
  exact ⟨layout, pool, hlayout, hpool, hlaidOut, image.program.plain_load hplain, hheld, hcells⟩

/-- A program of instructions on integers is all in the memory that it was loaded into. -/
theorem Image.heldBy_load {memory : Memory} {image : Image} (hplain : memory.Plain)
    (hstatements : ∀ statement ∈ statements, statement.OnIntegers store)
    (hroom : statements.length * Instruction.maxSize < space)
    (himage : ofStatements store config statements = .ok image) :
    ∃ layout pool,
      image.HeldBy store config statements layout pool (image.program.load memory) := by
  obtain ⟨layout, pool, -, -, -, hlaidOut⟩ := exists_laidOut himage
  obtain ⟨hbounds, hordered⟩ := hlaidOut.ordered hstatements (by omega)
  refine heldBy_load_of_apart hplain himage (hordered.imp_of_mem ?_) ?_
  · intro first second _ hsecond hbefore address
    exact Span.not_covers_of_le hbefore (Nat.le_of_lt (hbounds second hsecond).2)
  · intro entry hmem
    have hentry := hbounds entry hmem
    omega

end VectorStack
