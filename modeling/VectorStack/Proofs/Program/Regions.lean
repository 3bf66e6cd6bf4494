import VectorStack.Proofs.Expansion.Regions
import VectorStack.Proofs.Layout.Labels
import VectorStack.Proofs.Program.Assembled
import VectorStack.Proofs.Statement.Marks
/-!
Regions of programs. The regions that a text takes lie one below the other under the base, each at
the distance that the sizes before it add up to, and in a program that is built the label of each
stands for its start, or for its end where that was asked for. A text whose regions take more than
there is below the base is not expanded.
-/

namespace VectorStack

open Address (wrap)
open Region (total)

variable {config : AssemblyConfig} {importer : Importer} {name : String} {text : List Char}
  {r : Region}

/-- A loaded text is sound before anything is read. -/
theorem Expansion.sound_load (config : AssemblyConfig) (importer : Importer) (name : String)
    (text : List Char) :
    (start config importer (TokenStore.empty.load name text).2).Sound
      (.ofTokens (TokenStore.empty.load name text).1) := by
  rw [TokenStore.load_eq]
  exact .start (TokenStore.empty.spelled_addText name text none)

/-- A label behind a position stands for the number of the position. -/
theorem LaidOut.exists_label_of_position {store : TokenStore} {layout : Layout}
    {pool : ConstantPool} {cursor stop address : Nat} {before after : List Statement}
    {labels : List Label} {entries : List Entry} {mark label : TokenId}
    (hlaidOut : LaidOut store config layout pool cursor
      (before ++ .position mark :: .label label :: after) labels entries stop)
    (haddress : (Number.parse? ((store.chars mark).drop 1)).bind Number.natural? = some address) :
    ⟨store.text label, wrap address, label⟩ ∈ labels := by
  obtain ⟨first, _, _, _, place, rfl, -, -, hrest⟩ := hlaidOut.split
  cases hrest with
  | cons hmark hrest =>
      cases hmark with
      | position hnumber =>
          cases haddress.symm.trans hnumber
          cases hrest with
          | cons hlabel _ =>
              cases hlabel with
              | label => exact List.mem_append_right _ List.mem_cons_self

/-- A text whose expansion ends within a number of steps is built if what it expands to is
assembled. -/
theorem Assembly.exists_build {count : Nat}
    (hwithin : (Expansion.runWithin? count
      (.start config importer (TokenStore.empty.load name text).2)
      (.ofTokens (TokenStore.empty.load name text).1)).bind (fun answer =>
        answer.toOption.map fun expanded => (expanded.2.statements expanded.1 >>=
          Image.ofStatements expanded.2 config).isOk) = some true) :
    ∃ program symbols, build config importer name text = .ok (program, symbols) := by
  obtain ⟨⟨expanded, store⟩, hexpand, hok⟩ := Expansion.exists_answer hwithin
  dsimp only at hok
  cases hresult : store.statements expanded >>= Image.ofStatements store config with
  | error fault =>
      rw [hresult] at hok
      cases hok
  | ok image =>
      obtain ⟨statements, hread, himage⟩ := bind_eq_ok.mp hresult
      have hparse : parse config importer name text = .ok (statements, store) :=
        bind_eq_ok.mpr ⟨_, hexpand, bind_eq_ok.mpr ⟨_, hread, rfl⟩⟩
      exact ⟨_, _, bind_eq_ok.mpr ⟨_, hparse, bind_eq_ok.mpr ⟨_, himage, rfl⟩⟩⟩

namespace Region

/-- The label of a region that is marked among the tokens of a program stands for the address that
it was given. -/
theorem MarkedIn.addressOf?_eq {store : TokenStore} {ids : List TokenId}
    {statements : List Statement} {image : Image} (hmarked : r.MarkedIn store ids)
    (hread : store.statements ids = .ok statements)
    (himage : Image.ofStatements store config statements = .ok image)
    (hlt : r.labelled < 2 ^ 63) :
    (Symbols.new store image.labels image.entries).addressOf? r.label = some (wrap r.labelled) := by
  obtain ⟨front, mark, label, back, rfl, hposition, hnumber, hlabel, hname⟩ := hmarked
  obtain ⟨before, after, rfl, hafter⟩ := TokenStore.statements_of_mark (.inr hposition) hread
  rw [TokenStore.statements_position hposition, TokenStore.statements_label hlabel] at hafter
  obtain ⟨labelled, hlabelled, rfl⟩ := map_eq_ok.mp hafter
  obtain ⟨rest, -, rfl⟩ := map_eq_ok.mp hlabelled
  obtain ⟨layout, pool, hlayout, -, -, hlaidOut⟩ := Image.exists_laidOut himage
  have haddress : (Number.parse? ((store.chars mark).drop 1)).bind Number.natural? =
      some r.labelled := by
    rw [hnumber]
    exact Number.natural?_numeral (numeral_repr r.labelled) hlt
  have hmem := hlaidOut.exists_label_of_position haddress
  have hlabels := Image.labels_eq hlayout himage
  rw [hlabels] at hmem ⊢
  rw [Symbols.addressOf?_new hlayout, Layout.addressOf?_eq_some_iff hlayout]
  exact ⟨_, hmem, hname, rfl⟩

end Region

namespace Assembly

/-- The regions that the expansion of a text takes, in order. -/
def regions (config : AssemblyConfig) (importer : Importer) (name : String) (text : List Char) :
    List Region :=
  (Expansion.start config importer (TokenStore.empty.load name text).2).regionsFrom
    (.ofTokens (TokenStore.empty.load name text).1)

theorem stacked_regions (config : AssemblyConfig) (importer : Importer) (name : String)
    (text : List Char) :
    Region.Stacked config.regionBase (regions config importer name text) :=
  Expansion.stacked_regionsFrom (.start config importer (TokenStore.empty.load name text).2)
    (.ofTokens (TokenStore.empty.load name text).1)

/-- Regions of a program that is built all fit. -/
theorem size_le_of_mem_regions {program : Program} {symbols : Symbols}
    (hbuild : build config importer name text = .ok (program, symbols))
    (hmem : r ∈ regions config importer name text) : r.size ≤ r.stop := by
  obtain ⟨statements, store, image, hparse, -⟩ := build_eq_ok hbuild
  obtain ⟨expanded, hexpand, -⟩ := exists_tokens_of_parse hparse
  refine Nat.le_of_not_lt fun hlt => ?_
  obtain ⟨middle, between, -, -, hfault⟩ := Expansion.run_of_region_lt hmem hlt
  cases hfault.symm.trans hexpand

/-- In a program that is built the label of a region stands for the address that it was given. -/
theorem addressOf?_of_mem_regions {program : Program} {symbols : Symbols}
    (hbuild : build config importer name text = .ok (program, symbols))
    (hbase : config.regionBase < 2 ^ 63) (hmem : r ∈ regions config importer name text)
    (houtside : r.inArguments = false) :
    symbols.addressOf? r.label = some (wrap r.labelled) := by
  obtain ⟨statements, store, image, hparse, himage, rfl, rfl⟩ := build_eq_ok hbuild
  obtain ⟨expanded, hexpand, hread⟩ := exists_tokens_of_parse hparse
  have hmarked := Expansion.markedIn_of_run (Expansion.sound_load config importer name text)
    hexpand hmem houtside
  have hstop : r.stop ≤ config.regionBase :=
    (stacked_regions config importer name text).stop_le r hmem
  have hlabelled : r.labelled ≤ r.stop := by
    rw [Region.labelled, Region.start]
    split <;> omega
  exact hmarked.addressOf?_eq hread himage (by omega)

/-- The regions of a text lie one below the other under the base. If their sizes come to more than
the base, expansion fails at the first region for which they do. Otherwise, in a program that is
built, every region starts and ends at the distances from the base that the sizes add up to, no two
regions share an address, all lie below the base, and their labels stand for their starts, or for
their ends where that was asked for, as long as the base is a positive number of 64 bits and the
region is not taken in the argument list of another directive. -/
theorem regions_spec (config : AssemblyConfig) (importer : Importer) (name : String)
    (text : List Char) :
    (∀ before r after, regions config importer name text = before ++ r :: after →
      config.regionBase < total before + r.size →
      total before ≤ config.regionBase ∧
      ∃ s pending, Expansion.Reaches
          (.start config importer (TokenStore.empty.load name text).2)
          (.ofTokens (TokenStore.empty.load name text).1) s pending ∧
        s.nextRegion? pending = some r ∧
        Expansion.expand config importer (TokenStore.empty.load name text).2
            (TokenStore.empty.load name text).1 =
          .error (s.fault r.token "regions do not fit below the region base")) ∧
    ∀ program symbols, build config importer name text = .ok (program, symbols) →
      (∀ before r after, regions config importer name text = before ++ r :: after →
        total before + r.size ≤ config.regionBase ∧
        r.start = config.regionBase - (total before + r.size) ∧
        r.stop = config.regionBase - total before) ∧
      (regions config importer name text).Pairwise
        (fun upper lower => ∀ address, ¬ (upper.Contains address ∧ lower.Contains address)) ∧
      (∀ r ∈ regions config importer name text, ∀ address, r.Contains address →
        address < config.regionBase) ∧
      (config.regionBase < 2 ^ 63 → ∀ r ∈ regions config importer name text,
        r.inArguments = false → symbols.addressOf? r.label = some (wrap r.labelled)) := by
  have hstacked := stacked_regions config importer name text
  refine ⟨fun before r after hregions hlt => ?_, fun program symbols hbuild => ⟨?_, ?_, ?_, ?_⟩⟩
  · have hstop := (hregions ▸ hstacked).stop_eq
    have hmem : r ∈ regions config importer name text := by
      rw [hregions]
      exact List.mem_append_right _ List.mem_cons_self
    exact ⟨by omega, Expansion.run_of_region_lt hmem (by omega)⟩
  · intro before r after hregions
    have hstop := (hregions ▸ hstacked).stop_eq
    have hfits : r.size ≤ r.stop := by
      refine size_le_of_mem_regions hbuild ?_
      rw [hregions]
      exact List.mem_append_right _ List.mem_cons_self
    rw [Region.start]
    omega
  · refine hstacked.pairwise.imp fun {upper lower} hbelow address => ?_
    rintro ⟨hupper, hlower⟩
    exact absurd (Nat.lt_of_lt_of_le hlower.2 hbelow) (Nat.not_lt.mpr hupper.1)
  · intro r hmem address hcontains
    exact Nat.lt_of_lt_of_le hcontains.2 (hstacked.stop_le r hmem)
  · exact fun hbase r hmem houtside => addressOf?_of_mem_regions hbuild hbase hmem houtside

/-- A region with its label at its end, and one in a namespace. -/
def regionsText : List Char := ".region s -16\n.ns n\n.region a 32\n.endns".toList

/-- The end of the first region is the top of memory, which is address zero. With 40 bytes there is
no room for the second region. -/
theorem regions_spec_around :
    (∃ program symbols,
      build .standard (fun _ _ => none) "main" regionsText = .ok (program, symbols) ∧
      symbols.addressOf? "s" = some 0 ∧ symbols.addressOf? "n.a" = some 0xffffd0) ∧
    ∃ s pending r, Expansion.nextRegion? s pending = some r ∧ r.label = "n.a" ∧
      Expansion.expand { AssemblyConfig.standard with regionBase := 40 }
        (fun _ _ => none) (TokenStore.empty.load "main" regionsText).2
        (TokenStore.empty.load "main" regionsText).1 =
          .error (s.fault r.token "regions do not fit below the region base") := by
  let loaded := TokenStore.empty.load "main" regionsText
  let narrow : AssemblyConfig := { AssemblyConfig.standard with regionBase := 40 }
  let initial (config : AssemblyConfig) : Expansion := .start config (fun _ _ => none) loaded.2
  let upper : Region := ⟨"s", 16, 0x1000000, true, false, 3⟩
  let lower : Region := ⟨"n.a", 32, 0xfffff0, false, false, 10⟩
  refine ⟨?_, ?_⟩
  · obtain ⟨program, symbols, hbuild⟩ := @exists_build .standard (fun _ _ => none) "main"
      regionsText 16 (by decide +kernel)
    obtain ⟨-, -, -, hlabels⟩ :=
      (regions_spec .standard (fun _ _ => none) "main" regionsText).2 _ _ hbuild
    have hruns : Expansion.regionsWithin? 16 (initial .standard) (.ofTokens loaded.1) =
        some [upper, lower] := by decide +kernel
    have hall : regions .standard (fun _ _ => none) "main" regionsText = [upper, lower] :=
      Expansion.regionsFrom_of_regionsWithin? hruns
    rw [hall] at hlabels
    have hupper := hlabels (by decide) upper List.mem_cons_self rfl
    have hlower := hlabels (by decide) lower (List.mem_cons_of_mem _ List.mem_cons_self) rfl
    have htop : wrap upper.labelled = 0 := by decide
    have hstart : wrap lower.labelled = 0xffffd0 := by decide
    rw [htop] at hupper
    rw [hstart] at hlower
    exact ⟨_, _, hbuild, hupper, hlower⟩
  · have hruns : Expansion.regionsWithin? 16 (initial narrow) (.ofTokens loaded.1) =
        some [⟨"s", 16, 40, true, false, 3⟩, ⟨"n.a", 32, 24, false, false, 10⟩] := by
      decide +kernel
    have hregions := Expansion.regionsFrom_of_regionsWithin? hruns
    obtain ⟨-, s, pending, -, hnext, hfault⟩ :=
      (regions_spec narrow (fun _ _ => none) "main" regionsText).1 [_] _ [] hregions (by decide)
    exact ⟨s, pending, _, hnext, rfl, hfault⟩

end Assembly

end VectorStack
