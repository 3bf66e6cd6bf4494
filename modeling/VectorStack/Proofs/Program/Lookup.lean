import VectorStack.Proofs.Program.Held
/-!
Looking up what was written at an address. Entries are kept in address order, and the last one that
starts at or before an address is asked for it. That finds the entry whose bytes have the address
when entries share no address, unless the entry starts further up and goes on at the bottom of
memory.
-/

namespace VectorStack

open Address (space wrap)

variable {store : TokenStore} {config : AssemblyConfig}

namespace Entry

/-- An address from the start of an entry on is one of its bytes when it is counted from there. -/
theorem covers_iff {entry : Entry} {address : Nat} (hlt : address < space) :
    entry.covers address = true ↔ entry.address ≤ address ∧ entry.span.Covers address := by
  rw [covers, Bool.and_eq_true, decide_eq_true_eq, decide_eq_true_eq]
  refine and_congr_right fun hle => ⟨fun hless => ⟨address - entry.address, hless, ?_⟩, ?_⟩
  · rw [span, Nat.add_sub_cancel' hle, Address.wrap_eq_self hlt]
  · rintro ⟨i, hi, hwrap⟩
    have hle' : wrap (entry.address + i) ≤ entry.address + i := Nat.mod_le _ _
    change wrap (entry.address + i) = address at hwrap
    change i < entry.length at hi
    omega

theorem covers_address {entry : Entry} (hpos : 0 < entry.length) (hlt : entry.address < space) :
    entry.span.Covers entry.address :=
  ⟨0, hpos, Address.wrap_eq_self hlt⟩

end Entry

/-- What is written for statements has bytes. -/
theorem LaidOut.length_pos {layout : Layout} {pool : ConstantPool} {cursor stop : Nat}
    {statements : List Statement} {labels : List Label} {entries : List Entry}
    (hlaidOut : LaidOut store config layout pool cursor statements labels entries stop) :
    ∀ entry ∈ entries, 0 < entry.length := by
  induction hlaidOut with
  | nil => simp
  | cons hhead _ ih =>
      intro entry hmem
      rcases List.mem_append.mp hmem with hnow | hlater
      · cases hhead with
        | label | position | nothing => cases hnow
        | data _ _ hlength =>
            rw [List.mem_singleton.mp hnow]
            exact hlength
        | @instruction _ _ _ word _ _ _ _ _ hsize =>
            have hword : 0 < word.size := Nat.lt_of_lt_of_le (by decide) (Nat.le_add_right 8 _)
            rw [List.mem_singleton.mp hnow]
            exact hword.trans_eq hsize.symm
      · exact ih entry hlater

namespace Symbols

/-- Entries that an address tells apart: they are in address order, have bytes, and share no
address. -/
structure Separate (entries : List Entry) : Prop where
  ordered : entries.Pairwise fun first second => first.address ≤ second.address
  length_pos : ∀ entry ∈ entries, 0 < entry.length
  apart : entries.Pairwise fun first second =>
    ∀ address, first.span.Covers address → ¬ second.span.Covers address

theorem Separate.tail {entry : Entry} {rest : List Entry} (hseparate : Separate (entry :: rest)) :
    Separate rest :=
  ⟨hseparate.ordered.tail, fun _ hmem => hseparate.length_pos _ (List.mem_cons_of_mem _ hmem),
    hseparate.apart.tail⟩

/-- No entry starts among the bytes of the one before it. -/
theorem Separate.takeWhile_rest {entry : Entry} {rest : List Entry} {address : Nat}
    (hseparate : Separate (entry :: rest)) (hlt : address < space)
    (hcovers : entry.covers address = true) :
    (rest.takeWhile fun other => other.address ≤ address) = [] := by
  cases rest with
  | nil => rfl
  | cons next others =>
      apply List.takeWhile_cons_of_neg
      rw [decide_eq_true_eq]
      intro hle
      have hordered := List.rel_of_pairwise_cons hseparate.ordered List.mem_cons_self
      have hapart := List.rel_of_pairwise_cons hseparate.apart List.mem_cons_self
      have hpos := hseparate.length_pos next (List.mem_cons_of_mem _ List.mem_cons_self)
      have hnext : next.address < space := Nat.lt_of_le_of_lt hle hlt
      rw [Entry.covers, Bool.and_eq_true, decide_eq_true_eq, decide_eq_true_eq] at hcovers
      have hown := Entry.covers_address hpos hnext
      refine hapart next.address ((Entry.covers_iff hnext).mp ?_).2 hown
      rw [Entry.covers, Bool.and_eq_true, decide_eq_true_eq, decide_eq_true_eq]
      omega

/-- The entry that has an address is the last that starts at or before it. -/
theorem Separate.getLast?_takeWhile {entries : List Entry} {entry : Entry} {address : Nat}
    (hseparate : Separate entries) (hlt : address < space) (hmem : entry ∈ entries)
    (hcovers : entry.covers address = true) :
    (entries.takeWhile fun other => other.address ≤ address).getLast? = some entry := by
  have hle := ((Entry.covers_iff hlt).mp hcovers).1
  induction entries with
  | nil => cases hmem
  | cons first rest ih =>
      rcases List.mem_cons.mp hmem with rfl | hlater
      · rw [List.takeWhile_cons_of_pos (by simpa using hle), hseparate.takeWhile_rest hlt hcovers]
        rfl
      · have hfirst := List.rel_of_pairwise_cons hseparate.ordered hlater
        rw [List.takeWhile_cons_of_pos (by simpa using hfirst.trans hle), List.getLast?_cons,
          ih hseparate.tail hlater]
        rfl

/-- An address is looked up as the entry that has it as one of its bytes from its start on. -/
theorem Separate.entryAt?_eq_some_iff {symbols : Symbols} (hseparate : Separate symbols.entries)
    {address : Nat} (hlt : address < space) {entry : Entry} :
    symbols.entryAt? address = some entry ↔
      entry ∈ symbols.entries ∧ entry.address ≤ address ∧ entry.span.Covers address := by
  rw [← Entry.covers_iff hlt, entryAt?, Option.filter_eq_some_iff]
  constructor
  · rintro ⟨hlast, hcovers⟩
    exact ⟨(List.takeWhile_subset _) (List.mem_of_getLast? hlast), hcovers⟩
  · rintro ⟨hmem, hcovers⟩
    exact ⟨hseparate.getLast?_takeWhile hlt hmem hcovers, hcovers⟩

/-- The entries of a program are separate as soon as no two of them share an address. -/
theorem separate_new {image : Image} {statements : List Statement} {store' : TokenStore}
    (himage : Image.ofStatements store config statements = .ok image)
    (hapart : (new store' image.labels image.entries).entries.Pairwise fun first second =>
      ∀ address, first.span.Covers address → ¬ second.span.Covers address) :
    Separate (new store' image.labels image.entries).entries where
  ordered := List.pairwise_mergeSort' (Order.Preimage Entry.address (· ≤ ·)) _
  length_pos := by
    obtain ⟨layout, pool, -, -, -, hlaidOut⟩ := Image.exists_laidOut himage
    intro entry hmem
    exact hlaidOut.length_pos entry ((List.mergeSort_perm _ _).mem_iff.mp hmem)
  apart := hapart

end Symbols

namespace Assembly

variable {importer : Importer} {name : String} {text : List Char}

/-- Where a program's entries share no address, looking up an address gives the entry that was
emitted with it as one of its bytes, and the token of that entry, and gives nothing where there is
none: in the whole of memory when no entry goes on at the bottom of memory, and otherwise but for
the bytes that one has there. -/
theorem lookup_emitted {program : Program} {symbols : Symbols}
    (hbuild : build config importer name text = .ok (program, symbols))
    (hapart : symbols.entries.Pairwise fun first second =>
      ∀ address, first.span.Covers address → ¬ second.span.Covers address) :
    ∃ statements store image, parse config importer name text = .ok (statements, store) ∧
      Image.ofStatements store config statements = .ok image ∧
      symbols.entries.Perm image.entries ∧
      ∀ address < space,
        (∀ entry, symbols.entryAt? address = some entry ↔
          entry ∈ image.entries ∧ entry.address ≤ address ∧ entry.span.Covers address) ∧
        (∀ token, symbols.tokenAt? address = some token ↔
          ∃ entry ∈ image.entries, entry.address ≤ address ∧ entry.span.Covers address ∧
            entry.token = token) ∧
        ((∀ entry ∈ image.entries, entry.address + entry.length ≤ space) →
          ∀ entry, symbols.entryAt? address = some entry ↔
            entry ∈ image.entries ∧ entry.span.Covers address) := by
  obtain ⟨statements, store, image, hparse, himage, rfl, rfl⟩ := build_eq_ok hbuild
  have hperm : (Symbols.new store image.labels image.entries).entries.Perm image.entries :=
    List.mergeSort_perm _ _
  refine ⟨statements, store, image, hparse, himage, hperm, ?_⟩
  intro address hlt
  have hentry (entry : Entry) :
      (Symbols.new store image.labels image.entries).entryAt? address = some entry ↔
        entry ∈ image.entries ∧ entry.address ≤ address ∧ entry.span.Covers address := by
    rw [(Symbols.separate_new himage hapart).entryAt?_eq_some_iff hlt, hperm.mem_iff]
  refine ⟨hentry, ?_, ?_⟩
  · intro token
    rw [Symbols.tokenAt?, Option.map_eq_some_iff]
    constructor
    · rintro ⟨entry, hfound, htoken⟩
      obtain ⟨hemitted, hle, hcovers⟩ := (hentry entry).mp hfound
      exact ⟨entry, hemitted, hle, hcovers, htoken⟩
    · rintro ⟨entry, hemitted, hle, hcovers, htoken⟩
      exact ⟨entry, (hentry entry).mpr ⟨hemitted, hle, hcovers⟩, htoken⟩
  · intro hfits entry
    rw [hentry]
    refine and_congr_right fun hemitted => and_iff_right_of_imp ?_
    rintro ⟨i, hi, hwrap⟩
    have hend := hfits entry hemitted
    change i < entry.length at hi
    change wrap (entry.address + i) = address at hwrap
    rw [Address.wrap_eq_self (by omega)] at hwrap
    omega

/-- An instruction and a number, with room in between. -/
theorem lookup_emitted_apart :
    ∃ program symbols, build .standard (fun _ _ => none) "apart"
        ['n', 'o', 'p', '\n', '@', '9', '\n', ':', 'u', '8', ' ', '1'] = .ok (program, symbols) ∧
      symbols.tokenAt? 7 = some 0 ∧ symbols.tokenAt? 8 = none ∧ symbols.tokenAt? 9 = some 5 := by
  let instruction : Entry := ⟨0, .single [0, 0, 0, 0, 0, 0, 0, 0], 0, none⟩
  let number : Entry := ⟨9, .single [1], 5, some .u8⟩
  have hwritten : (parse .standard (fun _ _ => none) "apart"
      ['n', 'o', 'p', '\n', '@', '9', '\n', ':', 'u', '8', ' ', '1'] >>= fun parsed =>
        (Image.ofStatements parsed.2 .standard parsed.1).map Image.entries) =
          .ok [instruction, number] := by
    rw [parse_eq_statements _ _ (by decide +kernel)]
    decide +kernel
  obtain ⟨⟨statements, store⟩, hparse, hwritten⟩ := bind_eq_ok.mp hwritten
  obtain ⟨image, himage, hwritten⟩ := map_eq_ok.mp hwritten
  let symbols := Symbols.new store image.labels image.entries
  have hbuilt : build .standard (fun _ _ => none) "apart"
      ['n', 'o', 'p', '\n', '@', '9', '\n', ':', 'u', '8', ' ', '1'] =
        .ok (image.program, symbols) := bind_eq_ok.mpr ⟨_, hparse, bind_eq_ok.mpr ⟨_, himage, rfl⟩⟩
  have hentries : symbols.entries = [instruction, number] := by
    rw [← hwritten]
    refine List.mergeSort_of_pairwise ?_
    rw [hwritten]
    decide
  have hbefore (address : Nat) (hcovers : instruction.span.Covers address) :
      ¬ number.span.Covers address :=
    Span.not_covers_of_le (by decide) (by decide) hcovers
  have hapart : symbols.entries.Pairwise fun first second =>
      ∀ address, first.span.Covers address → ¬ second.span.Covers address := by
    rw [hentries, List.pairwise_pair]
    exact hbefore
  obtain ⟨_, _, _, -, -, hperm, hlookup⟩ := lookup_emitted hbuilt hapart
  rw [hentries] at hperm
  refine ⟨_, symbols, hbuilt, ?_, ?_, ?_⟩
  · refine ((hlookup 7 (by decide)).2.1 0).mpr ⟨instruction, hperm.mem_iff.mp ?_, by decide, ?_⟩
    · exact List.mem_cons_self
    · exact ⟨⟨7, by decide, by decide⟩, rfl⟩
  · rw [Symbols.tokenAt?, Symbols.entryAt?, hentries]
    decide +kernel
  · refine ((hlookup 9 (by decide)).2.1 5).mpr ⟨number, hperm.mem_iff.mp ?_, by decide, ?_⟩
    · exact List.mem_cons_of_mem _ List.mem_cons_self
    · exact ⟨⟨0, by decide, by decide⟩, rfl⟩

/-- An instruction at the top of memory has its last bytes at the bottom, where nothing is found. -/
theorem lookup_wrapped :
    ∃ program symbols, build .standard (fun _ _ => none) "wrapped"
        ['@', '1', '6', '7', '7', '7', '2', '1', '2', '\n', 'n', 'o', 'p', '\n'] =
          .ok (program, symbols) ∧
      (symbols.entries.Pairwise fun first second =>
        ∀ address, first.span.Covers address → ¬ second.span.Covers address) ∧
      (∃ entry ∈ symbols.entries, entry.span.Covers 0) ∧ symbols.entryAt? 0 = none := by
  have hbuild : (build .standard (fun _ _ => none) "wrapped"
      ['@', '1', '6', '7', '7', '7', '2', '1', '2', '\n', 'n', 'o', 'p', '\n']).map
        (fun built => built.2.entries) =
          .ok [⟨16777212, .single [0, 0, 0, 0, 0, 0, 0, 0], 2, none⟩] := by
    rw [build, parse_eq_statements _ _ (by decide +kernel)]
    decide +kernel
  obtain ⟨⟨program, symbols⟩, hbuilt, hentries⟩ := map_eq_ok.mp hbuild
  dsimp only at hentries
  refine ⟨program, symbols, hbuilt, ?_⟩
  rw [Symbols.entryAt?, hentries]
  refine ⟨List.pairwise_singleton _ _, ⟨_, List.mem_singleton_self _, 4, by decide, by decide⟩, ?_⟩
  decide +kernel

end Assembly

end VectorStack
