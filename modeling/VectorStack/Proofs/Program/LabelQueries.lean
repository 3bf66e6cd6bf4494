import Mathlib.Data.List.TakeWhile
import VectorStack.Proofs.Layout.Labels
import VectorStack.Proofs.Program.Assembled
import VectorStack.Proofs.Token.Spelling
/-!
Asking for labels. They are sorted by their addresses and stay in order where these are the same, so
that the last label at or before an address is the last one that was given at the largest address
that is not behind it, and the distance to it, which is printed, adds up to the address. In a
program that is built there is one label of every name, at the place where it is written.
-/

namespace VectorStack

/-- In a list that is ordered by a key, those up to a bound come first. -/
theorem takeWhile_le_eq_filter {α : Type} {key : α → Nat} {items : List α}
    (hordered : items.Pairwise fun first second => key first ≤ key second) (bound : Nat) :
    (items.takeWhile fun item => key item ≤ bound) = items.filter fun item => key item ≤ bound := by
  induction items with
  | nil => rfl
  | cons first rest ih =>
      obtain ⟨hfirst, hrest⟩ := List.pairwise_cons.mp hordered
      by_cases hle : key first ≤ bound
      · rw [List.takeWhile_cons_of_pos (by simpa using hle),
          List.filter_cons_of_pos (by simpa using hle), ih hrest]
      · rw [List.takeWhile_cons_of_neg (by simpa using hle), eq_comm, List.filter_eq_nil_iff]
        intro item hmem
        rw [decide_eq_true_eq]
        rcases List.mem_cons.mp hmem with rfl | hlater
        · exact hle
        · exact fun hitem => hle ((hfirst item hlater).trans hitem)

namespace Symbols

variable {store : TokenStore} {given : List Label} {entries : List Entry} {address : Nat}
  {label : Label}

/-- Of given labels, the last one at the largest address that is not behind another address. -/
structure LastUpTo (given : List Label) (address : Nat) (label : Label) : Prop where
  address_le : label.address ≤ address
  largest : ∀ other ∈ given, other.address ≤ address → other.address ≤ label.address
  last : (given.filter fun other => other.address == label.address).getLast? = some label

theorem LastUpTo.mem (hlast : LastUpTo given address label) : label ∈ given :=
  (List.mem_filter.mp (List.mem_of_getLast? hlast.last)).1

/-- There is one such label at most. -/
theorem LastUpTo.eq {other : Label} (hlast : LastUpTo given address label)
    (hother : LastUpTo given address other) : label = other := by
  have hsame : label.address = other.address := Nat.le_antisymm
    (hother.largest label hlast.mem hlast.address_le)
    (hlast.largest other hother.mem hother.address_le)
  have hfound := hlast.last
  rw [hsame, hother.last] at hfound
  exact (Option.some.inj hfound).symm

theorem labels_perm (store : TokenStore) (given : List Label) (entries : List Entry) :
    (new store given entries).labels.Perm given :=
  List.mergeSort_perm _ _

theorem labels_ordered (store : TokenStore) (given : List Label) (entries : List Entry) :
    (new store given entries).labels.Pairwise fun first second => first.address ≤ second.address :=
  List.pairwise_mergeSort' (Order.Preimage Label.address (· ≤ ·)) _

/-- Labels at one address stay as they were given. -/
theorem filter_labels (store : TokenStore) (given : List Label) (entries : List Entry)
    (address : Nat) :
    ((new store given entries).labels.filter fun label => label.address == address) =
      given.filter fun label => label.address == address := by
  let le (first second : Label) : Bool := first.address ≤ second.address
  have htrans (first second third : Label) (hfirst : le first second = true)
      (hsecond : le second third = true) : le first third = true := by
    simp only [le, decide_eq_true_eq] at *
    omega
  have htotal (first second : Label) : (le first second || le second first) = true := by
    simp only [le, Bool.or_eq_true, decide_eq_true_eq]
    omega
  have hequal : (given.filter fun label => label.address == address).Pairwise
      fun first second => le first second = true := by
    refine List.pairwise_iff_forall_sublist.mpr fun {first second} hsub => ?_
    have hfirst := (List.mem_filter.mp (hsub.subset List.mem_cons_self)).2
    have hsecond := (List.mem_filter.mp
      (hsub.subset (List.mem_cons_of_mem _ List.mem_cons_self))).2
    simp only [le, decide_eq_true_eq, beq_iff_eq] at *
    omega
  have hsublist := (List.sublist_mergeSort htrans htotal hequal List.filter_sublist).filter
    fun label => label.address == address
  rw [List.filter_filter] at hsublist
  simp only [Bool.and_self] at hsublist
  exact (hsublist.eq_of_length
    ((labels_perm store given entries).filter _).length_eq.symm).symm

theorem labelBefore?_eq_getLast? (store : TokenStore) (given : List Label) (entries : List Entry)
    (address : Nat) :
    (new store given entries).labelBefore? address =
      ((new store given entries).labels.filter fun label => label.address ≤ address).getLast? := by
  rw [labelBefore?, takeWhile_le_eq_filter (labels_ordered store given entries)]

theorem labelBefore?_eq_none_iff :
    (new store given entries).labelBefore? address = none ↔
      ∀ label ∈ given, address < label.address := by
  rw [labelBefore?_eq_getLast?, List.getLast?_eq_none_iff, List.filter_eq_nil_iff]
  refine forall_congr' fun label => imp_congr (labels_perm store given entries).mem_iff ?_
  rw [decide_eq_true_eq, Nat.not_le]

theorem lastUpTo_of_labelBefore?
    (hfound : (new store given entries).labelBefore? address = some label) :
    LastUpTo given address label := by
  rw [labelBefore?_eq_getLast?] at hfound
  obtain ⟨front, hfront⟩ := List.getLast?_eq_some_iff.mp hfound
  have hmem := List.mem_filter.mp (List.mem_of_getLast? hfound)
  have hle : label.address ≤ address := by simpa using hmem.2
  refine ⟨hle, fun other hother hupTo => ?_, ?_⟩
  · have hordered := (labels_ordered store given entries).filter fun label =>
      label.address ≤ address
    have hkept : other ∈ front ++ [label] := by
      rw [← hfront]
      exact List.mem_filter.mpr
        ⟨(labels_perm store given entries).mem_iff.mpr hother, by simpa using hupTo⟩
    rw [hfront, List.pairwise_append] at hordered
    rcases List.mem_append.mp hkept with hearlier | hlast
    · exact hordered.2.2 other hearlier label List.mem_cons_self
    · rw [List.mem_singleton.mp hlast]
  · have hsame : (fun other : Label =>
        other.address == label.address && decide (other.address ≤ address)) =
          fun other => other.address == label.address := by
      funext other
      by_cases heq : other.address = label.address
      · simp [heq, hle]
      · simp [heq]
    rw [← filter_labels store given entries, ← hsame, ← List.filter_filter, hfront,
      List.filter_append]
    simp

/-- The label before an address. -/
theorem labelBefore?_eq_some_iff :
    (new store given entries).labelBefore? address = some label ↔ LastUpTo given address label := by
  refine ⟨lastUpTo_of_labelBefore?, fun hlast => ?_⟩
  cases hfound : (new store given entries).labelBefore? address with
  | none =>
      have hlt := labelBefore?_eq_none_iff.mp hfound label hlast.mem
      exact absurd hlast.address_le (Nat.not_le.mpr hlt)
  | some found => rw [hlast.eq (lastUpTo_of_labelBefore? hfound)]

/-- Sorted labels fall apart into those up to an address and those behind it, and the label before
the address is where they do. -/
theorem exists_partition (store : TokenStore) (given : List Label) (entries : List Entry)
    (address : Nat) :
    ∃ upTo behind, (new store given entries).labels = upTo ++ behind ∧
      (∀ label ∈ upTo, label.address ≤ address) ∧ (∀ label ∈ behind, address < label.address) ∧
      (new store given entries).labelBefore? address = upTo.getLast? := by
  have hordered := labels_ordered store given entries
  generalize hlabels : (new store given entries).labels = labels at hordered
  let test (label : Label) : Bool := label.address ≤ address
  have hsplit : labels.takeWhile test ++ labels.dropWhile test = labels :=
    List.takeWhile_append_dropWhile
  have hbehind : (labels.dropWhile test).filter test = [] := by
    have hfilter := congrArg (List.filter test) hsplit
    rw [List.filter_append, List.filter_eq_self.mpr fun _ => List.mem_takeWhile_imp,
      ← takeWhile_le_eq_filter hordered] at hfilter
    exact List.append_right_eq_self.mp hfilter
  refine ⟨labels.takeWhile test, labels.dropWhile test, hsplit.symm, ?_, ?_, ?_⟩
  · intro label hmem
    have htest : test label = true := List.mem_takeWhile_imp hmem
    exact of_decide_eq_true htest
  · intro label hmem
    have hnot := List.filter_eq_nil_iff.mp hbehind label hmem
    rw [decide_eq_true_eq] at hnot
    exact Nat.lt_of_not_le hnot
  · rw [labelBefore?, hlabels]

/-- What is printed for an address is the label before it with the distance from there. -/
theorem location_of_labelBefore? {symbols : Symbols}
    (hfound : symbols.labelBefore? address = some label) :
    ∃ distance, label.address + distance = address ∧
      symbols.location address =
        (if distance = 0 then label.name else label.name ++ "+" ++ AssemblyFault.hex distance) ++
          " (" ++ formatAddress address ++ ")" := by
  have hmem : label ∈ symbols.labels.takeWhile fun label => label.address ≤ address :=
    List.mem_of_getLast? hfound
  have hle : label.address ≤ address := by simpa using List.mem_takeWhile_imp hmem
  refine ⟨address - label.address, Nat.add_sub_cancel' hle, ?_⟩
  rw [location, hfound]

theorem location_of_not_labelBefore? {symbols : Symbols}
    (hnone : symbols.labelBefore? address = none) :
    symbols.location address = formatAddress address := by
  rw [location, hnone]

end Symbols

namespace Statement

/-- The token of a label. -/
def label? : Statement → Option TokenId
  | .label token => some token
  | _ => none

theorem mem_filterMap_label? {statements : List Statement} {token : TokenId} :
    token ∈ statements.filterMap label? ↔ .label token ∈ statements := by
  rw [List.mem_filterMap]
  constructor
  · rintro ⟨statement, hmem, hlabel⟩
    cases statement with
    | label => exact Option.some.inj hlabel ▸ hmem
    | _ => cases hlabel
  · intro hmem
    exact ⟨_, hmem, rfl⟩

end Statement

namespace Layout

variable {store : TokenStore} {config : AssemblyConfig} {layout next last : Layout}
  {statement : Statement} {statements : List Statement} {lowered : Lowered} {rows : List Lowered}

theorem Places.names_eq (hplaces : Places store config layout statement lowered next) :
    next.labels.toList.map Label.name =
      layout.labels.toList.map Label.name ++ statement.label?.toList.map store.text := by
  cases hplaces <;> simp [Statement.label?, occupy]

/-- The names of labels are what the label statements say. -/
theorem Run.names_eq (hrun : Run store config layout statements rows last) :
    last.labels.toList.map Label.name =
      layout.labels.toList.map Label.name ++
        (statements.filterMap Statement.label?).map store.text := by
  induction hrun with
  | nil => simp
  | @cons _ _ _ statement _ _ _ hhead _ ih =>
      have hfirst (rest : List Statement) : (statement :: rest).filterMap Statement.label? =
          statement.label?.toList ++ rest.filterMap Statement.label? := by cases statement <;> rfl
      rw [ih, hhead.names_eq, hfirst, List.map_append, List.append_assoc]

/-- A label gets the address where the statements before it end. -/
theorem exists_layout_of_label {before after : List Statement} {token : TokenId}
    (hplaced : ofStatements store config (before ++ .label token :: after) = .ok layout) :
    ∃ earlier, ofStatements store config before = .ok earlier ∧
      addressOf? layout.labels (store.text token) = some earlier.cursor := by
  rw [ofStatements, List.foldlM_append] at hplaced
  obtain ⟨earlier, hearlier, hrest⟩ := bind_eq_ok.mp hplaced
  obtain ⟨rows, hrun⟩ := run_of_foldlM hrest
  cases hrun with
  | cons hhead htail =>
      refine ⟨earlier, hearlier, htail.extends_last.addressOf?_eq_some ?_⟩
      cases hhead with
      | label hnew =>
          rw [addressOf?_push, hnew]
          simp

theorem names_eq (hplaced : ofStatements store config statements = .ok layout) :
    layout.labels.toList.map Label.name =
      (statements.filterMap Statement.label?).map store.text :=
  (run_of_ofStatements hplaced).names_eq

theorem addressOf?_isSome_iff (hplaced : ofStatements store config statements = .ok layout)
    {name : String} :
    (addressOf? layout.labels name).isSome = true ↔
      ∃ token, .label token ∈ statements ∧ store.text token = name := by
  have hnames : (addressOf? layout.labels name).isSome = true ↔
      name ∈ layout.labels.toList.map Label.name := by
    rw [Option.isSome_iff_ne_none, ne_eq, addressOf?_eq_none_iff, not_not]
  rw [hnames, names_eq hplaced, List.mem_map]
  exact exists_congr fun token => and_congr_left fun _ => Statement.mem_filterMap_label?

/-- No other label has the name of a label. -/
theorem text_ne_of_label {before after : List Statement} {token other : TokenId}
    (hplaced : ofStatements store config (before ++ .label token :: after) = .ok layout)
    (hother : .label other ∈ before ++ after) : store.text other ≠ store.text token := by
  have hnodup := names_eq hplaced ▸ nodup_names hplaced
  have hsplit : (before ++ .label token :: after).filterMap Statement.label? =
      before.filterMap Statement.label? ++ token :: after.filterMap Statement.label? :=
    List.filterMap_append
  rw [hsplit, List.map_append, List.map_cons, List.nodup_middle, ← List.map_append,
    ← List.filterMap_append] at hnodup
  intro htext
  refine (List.nodup_cons.mp hnodup).1 (List.mem_map.mpr ⟨other, ?_, htext⟩)
  exact Statement.mem_filterMap_label?.mpr hother

end Layout

namespace Assembly

/-- Labels are sorted by their addresses and keep the order in which they are given where these are
the same. There is no label before an address if they are all behind it, and else it is the last one
that was given at the largest address that is not. Sorted labels fall apart there, so that halving
finds the place. What is printed for the address is that label and how far it is from there. In a
program that is built, exactly the names of its labels have an address, which is that of the one
place where the label is written. -/
theorem label_queries (config : AssemblyConfig) (importer : Importer) (name : String)
    (text : List Char) :
    (∀ store given entries, ∀ symbols : Symbols, symbols = .new store given entries →
      symbols.labels.Perm given ∧
      (symbols.labels.Pairwise fun first second => first.address ≤ second.address) ∧
      ∀ address,
        (symbols.labels.filter fun label => label.address == address) =
          (given.filter fun label => label.address == address) ∧
        (symbols.labelBefore? address = none ↔ ∀ label ∈ given, address < label.address) ∧
        (∀ label, symbols.labelBefore? address = some label ↔
          Symbols.LastUpTo given address label) ∧
        (∃ upTo behind, symbols.labels = upTo ++ behind ∧
          (∀ label ∈ upTo, label.address ≤ address) ∧
          (∀ label ∈ behind, address < label.address) ∧
          symbols.labelBefore? address = upTo.getLast?) ∧
        (symbols.labelBefore? address = none →
          symbols.location address = Symbols.formatAddress address) ∧
        (∀ label, symbols.labelBefore? address = some label →
          ∃ distance, label.address + distance = address ∧
            symbols.location address =
              (if distance = 0 then label.name
                else label.name ++ "+" ++ AssemblyFault.hex distance) ++
                " (" ++ Symbols.formatAddress address ++ ")" ∧
            Number.Spells (AssemblyFault.hex distance).toList (.whole distance)) ∧
        Number.Spells (Symbols.formatAddress address).toList (.whole address)) ∧
    ∀ program symbols, build config importer name text = .ok (program, symbols) →
      ∃ statements, parse config importer name text = .ok (statements, symbols.store) ∧
        (∀ label, (symbols.addressOf? label).isSome = true ↔
          ∃ token, .label token ∈ statements ∧ symbols.store.text token = label) ∧
        ∀ before token after, statements = before ++ .label token :: after →
          (∀ other, .label other ∈ before ++ after →
            symbols.store.text other ≠ symbols.store.text token) ∧
          ∃ layout, Layout.ofStatements symbols.store config before = .ok layout ∧
            symbols.addressOf? (symbols.store.text token) = some layout.cursor := by
  constructor
  · rintro store given entries symbols rfl
    refine ⟨Symbols.labels_perm store given entries, Symbols.labels_ordered store given entries,
      fun address => ⟨Symbols.filter_labels store given entries address,
        Symbols.labelBefore?_eq_none_iff, fun label => Symbols.labelBefore?_eq_some_iff,
        Symbols.exists_partition store given entries address,
        Symbols.location_of_not_labelBefore?, fun label hfound => ?_,
        Number.spells_hexNat 6 address⟩⟩
    obtain ⟨distance, hdistance, hprinted⟩ := Symbols.location_of_labelBefore? hfound
    exact ⟨distance, hdistance, hprinted, Number.spells_hexNat 1 distance⟩
  · intro program symbols hbuild
    obtain ⟨statements, store, image, hparse, himage, rfl, rfl⟩ := build_eq_ok hbuild
    obtain ⟨layout, pool, hplaced, -⟩ := Image.exists_laidOut himage
    have hfound (label : String) :
        (Symbols.new store image.labels image.entries).addressOf? label =
          VectorStack.addressOf? layout.labels label := by
      rw [Image.labels_eq hplaced himage, Symbols.addressOf?_new hplaced]
    refine ⟨statements, hparse, fun label => ?_, ?_⟩
    · rw [hfound]
      exact Layout.addressOf?_isSome_iff hplaced
    · rintro before token after rfl
      obtain ⟨earlier, hearlier, haddress⟩ := Layout.exists_layout_of_label hplaced
      exact ⟨fun other hother => Layout.text_ne_of_label hplaced hother, earlier, hearlier,
        (hfound _).trans haddress⟩

/-- An instruction between labels. -/
def labelledText : List Char := "a: nop\nb: c:".toList

/-- Two labels at one address, of which the later one is found from there on, and a program in which
the second label has the address behind an instruction. -/
theorem label_queries_shared :
    (∃ symbols : Symbols, symbols = .new .empty [⟨"b", 8, 3⟩, ⟨"a", 0, 0⟩, ⟨"c", 8, 4⟩] [] ∧
      symbols.labelBefore? 12 = some ⟨"c", 8, 4⟩ ∧
      symbols.location 12 = "c+0x4 (0x00000c)") ∧
    ∃ program symbols, build .standard (fun _ _ => none) "labels" labelledText =
        .ok (program, symbols) ∧
      symbols.addressOf? "b" = some 8 ∧ symbols.addressOf? "d" = none := by
  obtain ⟨hqueries, hlabels⟩ :=
    label_queries .standard (fun _ _ => none) "labels" labelledText
  constructor
  · obtain ⟨-, -, haddress⟩ :=
      hqueries .empty [⟨"b", 8, 3⟩, ⟨"a", 0, 0⟩, ⟨"c", 8, 4⟩] [] _ rfl
    obtain ⟨-, -, hbefore, -, -, hprinted, -⟩ := haddress 12
    have hfound := (hbefore ⟨"c", 8, 4⟩).mpr ⟨by decide, by decide, rfl⟩
    obtain ⟨distance, hdistance, hlocation, -⟩ := hprinted _ hfound
    cases (Nat.add_left_cancel hdistance : distance = 4)
    exact ⟨_, rfl, hfound, hlocation⟩
  · let opening : Statement := .instruction ⟨.nop, 1, none, 1, [], []⟩
    have hbuild : ((build .standard (fun _ _ => none) "labels" labelledText).map
        fun built => ()) = .ok () := by
      rw [build, parse_eq_statements _ _ (by decide +kernel)]
      decide +kernel
    have hparse : (parse .standard (fun _ _ => none) "labels" labelledText).map
        (fun parsed => (parsed.1, parsed.2.text 0, parsed.2.text 3, parsed.2.text 4,
          (Layout.ofStatements parsed.2 .standard [.label 0, opening]).map Layout.cursor)) =
        .ok ([.label 0, opening, .label 3, .label 4], "a", "b", "c", .ok 8) := by
      rw [parse_eq_statements _ _ (by decide +kernel)]
      decide +kernel
    obtain ⟨⟨program, symbols⟩, hbuilt, -⟩ := map_eq_ok.mp hbuild
    obtain ⟨⟨statements, store⟩, hparsed, hread⟩ := map_eq_ok.mp hparse
    obtain ⟨_, hstatements, hdefined, hlabel⟩ := hlabels program symbols hbuilt
    cases hparsed.symm.trans hstatements
    simp only [Prod.mk.injEq] at hread
    obtain ⟨rfl, hfirst, hsecond, hthird, hcursor⟩ := hread
    refine ⟨program, symbols, hbuilt, ?_, ?_⟩
    · obtain ⟨-, layout, hlayout, haddress⟩ := hlabel [.label 0, opening] 3 [.label 4] rfl
      rw [hlayout] at hcursor
      rw [← hsecond, haddress, Except.ok.inj hcursor]
    · rw [← Option.not_isSome_iff_eq_none, hdefined]
      rintro ⟨token, hmem, htext⟩
      have htoken : token = 0 ∨ token = 3 ∨ token = 4 := by simpa [opening] using hmem
      rcases htoken with rfl | rfl | rfl
      · exact absurd (hfirst.symm.trans htext) (by decide)
      · exact absurd (hsecond.symm.trans htext) (by decide)
      · exact absurd (hthird.symm.trans htext) (by decide)

end Assembly

end VectorStack
