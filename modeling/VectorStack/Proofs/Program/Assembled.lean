import VectorStack.Proofs.ConstantPool.Packing
import VectorStack.Proofs.Program.Loading
import VectorStack.Proofs.Program.Reading
/-!
What assembling a text does to memory. A failed attempt writes nothing. A successful one leaves the
bytes of every entry and every constant where they belong and nothing else changed, as long as no
two entries share an address.
-/

namespace VectorStack

open Address (space)

namespace Assembly

/-- Assembling with memory as a state that every write changes at once. What an attempt leaves
behind is known also when it fails. -/
def assembleInto (config : AssemblyConfig) (importer : Importer) (name : String)
    (text : List Char) : ExceptT AssemblyError (StateM Memory) Symbols := do
  let (program, symbols) ← ofExcept (build config importer name text)
  program.segments.forM fun segment =>
    modify fun memory => memory.write segment.address segment.bytes
  pure symbols

variable {config : AssemblyConfig} {importer : Importer} {name : String} {text : List Char}
  {memory : Memory}

theorem run_writes (segments : List Segment) (memory : Memory) :
    (segments.forM fun segment => modify fun memory : Memory =>
        memory.write segment.address segment.bytes :
      ExceptT AssemblyError (StateM Memory) Unit).run.run memory =
      (.ok (), (Program.mk segments).load memory) := by
  induction segments generalizing memory with
  | nil => rfl
  | cons segment rest ih => exact ih _

/-- Assembling into a state is assembling, and leaves memory as it was when that fails. -/
theorem run_assembleInto (config : AssemblyConfig) (importer : Importer) (name : String)
    (text : List Char) (memory : Memory) :
    (assembleInto config importer name text).run.run memory =
      match assemble config importer name text memory with
      | .ok (symbols, after) => (.ok symbols, after)
      | .error error => (.error error, memory) := by
  unfold assembleInto assemble
  cases build config importer name text with
  | error error => rfl
  | ok built =>
      obtain ⟨program, symbols⟩ := built
      have hwrites := run_writes program.segments memory
      change ((program.segments.forM fun segment => modify fun memory : Memory =>
        memory.write segment.address segment.bytes :
          ExceptT AssemblyError (StateM Memory) Unit) >>= fun _ => pure symbols).run.run memory =
            (.ok symbols, program.load memory)
      rw [ExceptT.run_bind, StateT.run_bind, hwrites]
      rfl

end Assembly

namespace Image

variable {entries : List Entry} {pool : ConstantPool}

/-- The writes that a program consists of. -/
def writes (entries : List Entry) (pool : ConstantPool) : List (Nat × Bytes) :=
  entries.map (fun entry => (entry.address, entry.bytes)) ++
    pool.cells.map fun placed => (placed.1, placed.2.content.bytes)

/-- A program has the bytes of its entries and constants and no others. -/
theorem places_assemble (entries : List Entry) (pool : ConstantPool) :
    (Program.places (assemble entries pool).segments).Perm
      ((writes entries pool).flatMap fun write => placeBytes write.1 write.2) := by
  rw [← Program.places_ofWrites]
  exact List.Perm.flatMap_right _ (List.mergeSort_perm _ _)

theorem segments_assemble_pairwise (entries : List Entry) (pool : ConstantPool) :
    (assemble entries pool).segments.Pairwise fun first second =>
      first.address ≤ second.address :=
  List.pairwise_mergeSort' (Order.Preimage Segment.address (· ≤ ·)) _

theorem length_assemble (entries : List Entry) (pool : ConstantPool) :
    (assemble entries pool).length = (entries.map Entry.length).sum +
      (pool.cells.map fun placed => placed.2.content.length).sum := by
  have hlength : ∀ write : Nat × Bytes, (placeBytes write.1 write.2).length = write.2.length :=
    fun write => length_placeBytes write.1 write.2
  rw [Program.length_eq, (places_assemble entries pool).length_eq, List.length_flatMap, writes]
  simp [hlength, Function.comp_def]

/-- A write is that of an entry or of a constant. -/
theorem mem_writes {write : Nat × Bytes} :
    write ∈ writes entries pool ↔ (∃ entry ∈ entries, (entry.address, entry.bytes) = write) ∨
      ∃ placed ∈ pool.cells, (placed.1, placed.2.content.bytes) = write := by
  rw [writes, List.mem_append, List.mem_map, List.mem_map]

theorem span_entry (entry : Entry) : Span.mk entry.address entry.bytes.length = entry.span := by
  rw [entry.length_bytes]
  rfl

theorem span_cell (placed : Nat × PoolCell) :
    Span.mk placed.1 placed.2.content.bytes.length = ConstantPool.cellSpan placed := by
  rw [placed.2.content.length_bytes]
  rfl

/-- Writes share no address when entries and constants share none. -/
theorem pairwise_writes
    (hentries : entries.Pairwise fun first second =>
      ∀ address, first.span.Covers address → ¬ second.span.Covers address)
    (hcells : pool.cells.Pairwise fun first second => ∀ address,
      (ConstantPool.cellSpan first).Covers address →
        ¬ (ConstantPool.cellSpan second).Covers address)
    (hapart : ∀ entry ∈ entries, ∀ placed ∈ pool.cells, ∀ address, entry.span.Covers address →
      ¬ (ConstantPool.cellSpan placed).Covers address) :
    (writes entries pool).Pairwise fun first second => ∀ address,
      Span.Covers ⟨first.1, first.2.length⟩ address →
        ¬ Span.Covers ⟨second.1, second.2.length⟩ address := by
  rw [writes, List.pairwise_append, List.pairwise_map, List.pairwise_map]
  simp only [span_entry, span_cell]
  refine ⟨hentries, hcells, ?_⟩
  intro first hfirst second hsecond
  obtain ⟨entry, hentry, rfl⟩ := List.mem_map.mp hfirst
  obtain ⟨placed, hplaced, rfl⟩ := List.mem_map.mp hsecond
  simp only [span_entry, span_cell]
  exact hapart entry hentry placed hplaced

/-- What memory holds once the entries and constants of a program are loaded. -/
theorem get_load_assemble {memory : Memory} {program : Program} (hplain : memory.Plain)
    (hplaces : (Program.places program.segments).Perm
      ((writes entries pool).flatMap fun write => placeBytes write.1 write.2))
    (hentries : entries.Pairwise fun first second =>
      ∀ address, first.span.Covers address → ¬ second.span.Covers address)
    (hentriesLength : ∀ entry ∈ entries, entry.length ≤ space)
    (hcells : pool.cells.Pairwise fun first second => ∀ address,
      (ConstantPool.cellSpan first).Covers address →
        ¬ (ConstantPool.cellSpan second).Covers address)
    (hcellsLength : ∀ placed ∈ pool.cells, placed.2.content.length ≤ space)
    (hapart : ∀ entry ∈ entries, ∀ placed ∈ pool.cells, ∀ address, entry.span.Covers address →
      ¬ (ConstantPool.cellSpan placed).Covers address) :
    (∀ entry ∈ entries, (program.load memory).Holds entry.address entry.bytes) ∧
    (∀ placed ∈ pool.cells, (program.load memory).Holds placed.1 placed.2.content.bytes) ∧
    ∀ address < space, (∀ entry ∈ entries, ¬ entry.span.Covers address) →
      (∀ placed ∈ pool.cells, ¬ (ConstantPool.cellSpan placed).Covers address) →
      (program.load memory).get address = memory.get address := by
  have hlength : ∀ write ∈ writes entries pool, write.2.length ≤ space := by
    intro write hmem
    rcases mem_writes.mp hmem with ⟨entry, hentry, rfl⟩ | ⟨placed, hplaced, rfl⟩
    · rw [entry.length_bytes]
      exact hentriesLength entry hentry
    · rw [placed.2.content.length_bytes]
      exact hcellsLength placed hplaced
  obtain ⟨hheld, hkept⟩ := Program.get_load hplain hplaces hlength
    (pairwise_writes hentries hcells hapart)
  refine ⟨?_, ?_, ?_⟩
  · intro entry hentry
    exact hheld _ (mem_writes.mpr (.inl ⟨entry, hentry, rfl⟩))
  · intro placed hplaced
    exact hheld _ (mem_writes.mpr (.inr ⟨placed, hplaced, rfl⟩))
  · intro address haddress hnoEntry hnoCell
    apply hkept address haddress
    intro write hmem
    rcases mem_writes.mp hmem with ⟨entry, hentry, rfl⟩ | ⟨placed, hplaced, rfl⟩
    · rw [span_entry]
      exact hnoEntry entry hentry
    · rw [span_cell]
      exact hnoCell placed hplaced

/-- Memory with the bytes of a program has all of its entries and constants. -/
theorem holds_of_segments {memory : Memory}
    (hheld : ∀ segment ∈ (assemble entries pool).segments,
      memory.Holds segment.address segment.bytes) :
    (∀ entry ∈ entries, memory.Holds entry.address entry.bytes) ∧
      ∀ placed ∈ pool.cells, memory.Holds placed.1 placed.2.content.bytes := by
  have hplaces := places_assemble entries pool
  have hbytes : ∀ write ∈ writes entries pool, memory.Holds write.1 write.2 := by
    intro write hwrite
    rw [Memory.holds_iff_places]
    intro place hplace
    have hmem := hplaces.mem_iff.mpr (List.mem_flatMap.mpr ⟨write, hwrite, hplace⟩)
    obtain ⟨segment, hsegment, hinside⟩ := List.mem_flatMap.mp hmem
    exact Memory.holds_iff_places.mp (hheld segment hsegment) place hinside
  exact ⟨fun entry hentry => hbytes _ (mem_writes.mpr (.inl ⟨entry, hentry, rfl⟩)),
    fun placed hplaced => hbytes _ (mem_writes.mpr (.inr ⟨placed, hplaced, rfl⟩))⟩

end Image

namespace Assembly

theorem build_eq_ok {config : AssemblyConfig} {importer : Importer} {name : String}
    {text : List Char} {program : Program} {symbols : Symbols}
    (hbuild : build config importer name text = .ok (program, symbols)) :
    ∃ statements store image, parse config importer name text = .ok (statements, store) ∧
      Image.ofStatements store config statements = .ok image ∧ program = image.program ∧
      symbols = Symbols.new store image.labels image.entries := by
  obtain ⟨⟨statements, store⟩, hparse, hbuild⟩ := bind_eq_ok.mp hbuild
  obtain ⟨image, himage, hbuild⟩ := bind_eq_ok.mp hbuild
  cases hbuild
  exact ⟨statements, store, image, hparse, himage, rfl, rfl⟩

/-- What is parsed is read from the tokens of the expanded text. -/
theorem exists_tokens_of_parse {config : AssemblyConfig} {importer : Importer} {name : String}
    {text : List Char} {statements : List Statement} {store : TokenStore}
    (hparse : parse config importer name text = .ok (statements, store)) :
    ∃ expanded, Expansion.expand config importer (TokenStore.empty.load name text).2
        (TokenStore.empty.load name text).1 = .ok (expanded, store) ∧
      store.statements expanded = .ok statements := by
  obtain ⟨⟨expanded, grown⟩, hexpand, hparse⟩ := bind_eq_ok.mp hparse
  obtain ⟨found, hfound, hparse⟩ := bind_eq_ok.mp hparse
  cases hparse
  exact ⟨expanded, hexpand, hfound⟩

/-- What a successful attempt consists of. -/
theorem assemble_eq_ok {config : AssemblyConfig} {importer : Importer} {name : String}
    {text : List Char} {memory after : Memory} {symbols : Symbols}
    (hassemble : assemble config importer name text memory = .ok (symbols, after)) :
    ∃ statements store layout pool entries,
      parse config importer name text = .ok (statements, store) ∧
      Layout.ofStatements store config statements = .ok layout ∧
      ConstantPool.ofLayout layout store config = .ok pool ∧
      Image.write layout store pool 0 layout.lowered.toList = .ok entries ∧
      build config importer name text = .ok (Image.assemble entries pool, symbols) ∧
      symbols.entries.Perm entries ∧ after = (Image.assemble entries pool).load memory := by
  obtain ⟨⟨program, found⟩, hbuild, hassemble⟩ := bind_eq_ok.mp hassemble
  cases hassemble
  obtain ⟨statements, store, image, hparse, himage, rfl, rfl⟩ := build_eq_ok hbuild
  obtain ⟨layout, hlayout, himage⟩ := bind_eq_ok.mp himage
  obtain ⟨pool, hpool, himage⟩ := bind_eq_ok.mp himage
  obtain ⟨entries, hentries, himage⟩ := bind_eq_ok.mp himage
  cases himage
  exact ⟨statements, store, layout, pool, entries, hparse, hlayout, hpool, hentries, hbuild,
    List.mergeSort_perm _ _, rfl⟩

/-- Assembling into memory writes exactly what was emitted. A failed attempt changes nothing. After
a successful one memory holds every entry and every constant, and what it held before elsewhere. -/
theorem assembleInto_spec (config : AssemblyConfig) (importer : Importer) (name : String)
    (text : List Char) {memory : Memory} (hplain : memory.Plain) :
    (∀ error, assemble config importer name text memory = .error error →
      (assembleInto config importer name text).run.run memory = (.error error, memory)) ∧
    ∀ symbols after, assemble config importer name text memory = .ok (symbols, after) →
      (assembleInto config importer name text).run.run memory = (.ok symbols, after) ∧
      ∃ statements store layout pool program,
        parse config importer name text = .ok (statements, store) ∧
        Layout.ofStatements store config statements = .ok layout ∧
        ConstantPool.ofLayout layout store config = .ok pool ∧
        build config importer name text = .ok (program, symbols) ∧
        program.length = (symbols.entries.map Entry.length).sum +
          (pool.cells.map fun placed => placed.2.content.length).sum ∧
        (program.segments.Pairwise fun first second => first.address ≤ second.address) ∧
        ((symbols.entries.Pairwise fun first second =>
            ∀ address, first.span.Covers address → ¬ second.span.Covers address) →
          (∀ entry ∈ symbols.entries, entry.length ≤ space) →
          (∀ entry ∈ symbols.entries, after.Holds entry.address entry.bytes) ∧
          (∀ placed ∈ pool.cells, after.Holds placed.1 placed.2.content.bytes) ∧
          ∀ address < space, (∀ entry ∈ symbols.entries, ¬ entry.span.Covers address) →
            (∀ placed ∈ pool.cells, ¬ (ConstantPool.cellSpan placed).Covers address) →
            after.get address = memory.get address) := by
  constructor
  · intro error herror
    rw [run_assembleInto, herror]
  · intro symbols after hassemble
    refine ⟨by rw [run_assembleInto, hassemble], ?_⟩
    obtain ⟨statements, store, layout, pool, entries, hparse, hlayout, hpool, hwrite, hbuild,
      hperm, rfl⟩ := assemble_eq_ok hassemble
    refine ⟨statements, store, layout, pool, _, hparse, hlayout, hpool, hbuild, ?_,
      Image.segments_assemble_pairwise entries pool, ?_⟩
    · rw [Image.length_assemble, (hperm.map Entry.length).sum_nat]
    · intro hentries hentriesLength
      have hpacked := ConstantPool.packed_of_ofLayout hlayout hpool
      have hplaces : (Program.places (Image.assemble entries pool).segments).Perm
          ((Image.writes symbols.entries pool).flatMap
            fun write => placeBytes write.1 write.2) := by
        refine (Image.places_assemble entries pool).trans (List.Perm.flatMap_right _ ?_)
        exact ((hperm.map _).append_right _).symm
      refine Image.get_load_assemble hplain hplaces hentries hentriesLength hpacked.apart
        hpacked.length_le ?_
      intro entry hentry placed hplaced address hcovers hcell
      have hspan := (Layout.run_of_ofStatements hlayout).span_mem (Layout.Extends.refl layout)
        Address.space_pos hwrite entry (hperm.mem_iff.mp hentry)
      exact hpacked.not_taken placed hplaced address hcell ⟨entry.span, hspan, hcovers⟩

/-- A push of a constant is written to the bottom of memory, and a lone question mark to nowhere. -/
theorem assembleInto_spec_push :
    let memory : Memory := .ofRam .full
    let importer : Importer := fun _ _ => none
    (∃ symbols after, assemble .standard importer "push"
        ['p', 'u', 's', 'h', ':', 'u', '8', ' ', '9'] memory = .ok (symbols, after) ∧
      after.get 0 = 2 ∧ after.get 8 = 11) ∧
    ∃ error, (assembleInto .standard importer "mark" ['?']).run.run memory =
      (.error error, memory) := by
  intro memory importer
  have hplain : memory.Plain := ⟨rfl, rfl⟩
  constructor
  · have hbuild : (build .standard importer "push"
        ['p', 'u', 's', 'h', ':', 'u', '8', ' ', '9']).map (fun built => built.2.entries) =
          .ok [⟨0, .single [2, 4, 0, 1, 0, 0, 0, 0, 11, 0, 0], 0, none⟩] := by
      rw [build, parse_eq_statements _ _ (by decide +kernel)]
      decide +kernel
    obtain ⟨⟨program, symbols⟩, hbuilt, hentries⟩ := map_eq_ok.mp hbuild
    have hassemble : assemble .standard importer "push"
        ['p', 'u', 's', 'h', ':', 'u', '8', ' ', '9'] memory =
          .ok (symbols, program.load memory) := bind_eq_ok.mpr ⟨_, hbuilt, rfl⟩
    obtain ⟨-, statements, store, layout, pool, found, -, -, -, -, -, -, hmemory⟩ :=
      (assembleInto_spec .standard importer "push" _ hplain).2 _ _ hassemble
    dsimp only at hentries
    rw [hentries] at hmemory
    obtain ⟨hheld, -, -⟩ := hmemory (List.pairwise_singleton _ _) (by decide)
    have hentry := hheld _ List.mem_cons_self
    exact ⟨symbols, _, hassemble, hentry 0 (by decide), hentry 8 (by decide)⟩
  · let loaded := TokenStore.empty.load "mark" ['?']
    have hruns : (Expansion.runWithin? 1 (.start .standard importer loaded.2)
        (.ofTokens loaded.1)).map Except.isOk = some false := by decide +kernel
    obtain ⟨answer, hwithin, hfails⟩ := Option.map_eq_some_iff.mp hruns
    cases answer with
    | ok expanded => cases hfails
    | error error =>
        have hparse : parse .standard importer "mark" ['?'] = .error error :=
          bind_eq_error.mpr (.inl (Expansion.run_of_runWithin? hwithin))
        have hbuild : build .standard importer "mark" ['?'] = .error error :=
          bind_eq_error.mpr (.inl hparse)
        exact ⟨error, (assembleInto_spec .standard importer "mark" _ hplain).1 error
          (bind_eq_error.mpr (.inl hbuild))⟩

end Assembly

end VectorStack
