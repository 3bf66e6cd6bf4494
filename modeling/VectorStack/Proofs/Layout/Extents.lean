import Mathlib.Data.List.Sort
import Mathlib.Order.Nat
import VectorStack.Proofs.Layout.Placement
/-!
Which addresses are taken. Extents are split where bytes go on at the bottom of the address space,
so they take the same addresses as the spans they come from, and comparing their ends finds every
address that two of them share. The few candidates for the start of free bytes are enough: if there
is room at all, the lowest place for it is the bottom of memory or right behind an extent.
-/

namespace VectorStack

open Address (space space_pos wrap wrap_lt wrap_eq_self)

/-- `size` addresses from `start` on are below the top of memory and none of them is taken. -/
def IsFree (taken : Nat → Prop) (size start : Nat) : Prop :=
  start + size ≤ space ∧ ∀ i < size, ¬ taken (start + i)

namespace Span

theorem Covers.lt {span : Span} {address : Nat} (hcovers : span.Covers address) :
    address < space := by
  obtain ⟨i, -, rfl⟩ := hcovers
  exact wrap_lt _

/-- A span over more addresses than there are has a byte at every address. -/
theorem covers_of_space_le {span : Span} {address : Nat} (hlength : space ≤ span.length)
    (haddress : address < space) : span.Covers address := by
  refine ⟨wrap (space - wrap span.address + address), ?_, ?_⟩
  · exact Nat.lt_of_lt_of_le (wrap_lt _) hlength
  · unfold wrap space at *
    omega

/-- Part of a span covers only what the span covers. -/
theorem Covers.of_part {start offset length total address : Nat}
    (hcovers : Covers ⟨wrap (start + offset), length⟩ address) (htotal : offset + length ≤ total) :
    Covers ⟨start, total⟩ address := by
  obtain ⟨i, hi, rfl⟩ := hcovers
  dsimp only at hi
  refine ⟨offset + i, by dsimp only; omega, ?_⟩
  unfold wrap space
  dsimp only
  omega

/-- Parts of a span that does not meet itself cover different addresses. -/
theorem not_covers_of_before {start first second length more total address : Nat}
    (hbefore : first + length ≤ second) (htotal : second + more ≤ total) (hspace : total ≤ space)
    (hfirst : Covers ⟨wrap (start + first), length⟩ address) :
    ¬ Covers ⟨wrap (start + second), more⟩ address := by
  rintro ⟨j, hj, hsame⟩
  obtain ⟨i, hi, rfl⟩ := hfirst
  unfold wrap space at *
  dsimp only at *
  omega

end Span

namespace Extent

def Contains (extent : Extent) (address : Nat) : Prop :=
  extent.start ≤ address ∧ address < extent.stop

/-- The extent has an address. -/
structure Proper (extent : Extent) : Prop where
  start_lt_stop : extent.start < extent.stop
  start_lt_space : extent.start < space

theorem proper_of_mem_ofRange {start size : Nat} (hstart : start < space) {extent : Extent}
    (hmem : extent ∈ ofRange start size) : extent.Proper := by
  rw [ofRange] at hmem
  split at hmem
  · next hwraps =>
      simp only [List.mem_cons, List.not_mem_nil, or_false] at hmem
      rcases hmem with rfl | rfl
      · exact ⟨hstart, hstart⟩
      · exact ⟨Nat.sub_pos_of_lt hwraps, space_pos⟩
  · split at hmem
    · cases hmem
    · rcases List.mem_singleton.mp hmem with rfl
      exact ⟨by dsimp only; omega, hstart⟩

/-- The extents of a range contain the addresses of its bytes. -/
theorem contains_ofRange_iff {start size address : Nat} (hstart : start < space)
    (haddress : address < space) :
    (∃ extent ∈ ofRange start size, extent.Contains address) ↔
      Span.Covers ⟨start, size⟩ address := by
  rw [ofRange]
  split
  · next hwraps =>
      simp only [List.mem_cons, List.not_mem_nil, or_false, exists_eq_or_imp, exists_eq_left,
        Contains]
      constructor
      · rintro (⟨hlow, -⟩ | ⟨-, hhigh⟩)
        · exact ⟨address - start, by dsimp only; omega, by
            rw [Nat.add_sub_cancel' hlow, wrap_eq_self haddress]⟩
        · by_cases hlow : start ≤ address
          · exact ⟨address - start, by dsimp only; omega, by
              rw [Nat.add_sub_cancel' hlow, wrap_eq_self haddress]⟩
          · refine ⟨space - start + address, by dsimp only; omega, ?_⟩
            have hround : start + (space - start + address) = address + space := by omega
            rw [hround, wrap, Nat.add_mod_right, Nat.mod_eq_of_lt haddress]
      · rintro ⟨i, hi, rfl⟩
        unfold wrap space at *
        dsimp only at *
        omega
  · next hbelow =>
      split
      · next hempty =>
          simp [Span.Covers, hempty]
      · simp only [List.mem_singleton, exists_eq_left, Contains]
        constructor
        · rintro ⟨hlow, hhigh⟩
          exact ⟨address - start, by dsimp only; omega, by
            rw [Nat.add_sub_cancel' hlow, wrap_eq_self haddress]⟩
        · rintro ⟨i, hi, rfl⟩
          dsimp only at hi ⊢
          rw [wrap_eq_self (by omega)]
          omega

/-- Two extents share an address exactly when each starts before the other ends. -/
theorem meets_iff {first second : Extent} (hfirst : first.Proper) (hsecond : second.Proper) :
    first.start < second.stop ∧ second.start < first.stop ↔
      ∃ address < space, first.Contains address ∧ second.Contains address := by
  obtain ⟨hfirstStop, hfirstSpace⟩ := hfirst
  obtain ⟨hsecondStop, hsecondSpace⟩ := hsecond
  unfold Contains
  constructor
  · rintro ⟨hlow, hhigh⟩
    exact ⟨max first.start second.start, by omega, by omega, by omega⟩
  · rintro ⟨address, -, hin, hin'⟩
    omega

/-- Bytes overlap extents exactly when one of the extents that they would take meets another. -/
theorem overlaps_iff_ofRange {extents : List Extent} {start size : Nat} (hsize : 0 < size) :
    overlaps extents start size = true ↔
      ∃ range ∈ ofRange start size, ∃ extent ∈ extents,
        extent.start < range.stop ∧ range.start < extent.stop := by
  unfold overlaps ofRange
  by_cases hwraps : space < start + size
  · rw [Nat.min_eq_right (Nat.le_of_lt hwraps)]
    simp [hits, hwraps]
  · rw [Nat.min_eq_left (Nat.le_of_not_lt hwraps)]
    simp [hits, hwraps, Nat.ne_of_gt hsize]

/-- Bytes overlap extents exactly when one of the extents contains the address of one of them. -/
theorem overlaps_iff {extents : List Extent} {start size : Nat}
    (hproper : ∀ extent ∈ extents, extent.Proper) (hstart : start < space) (hsize : 0 < size) :
    overlaps extents start size = true ↔
      ∃ address, Span.Covers ⟨start, size⟩ address ∧
        ∃ extent ∈ extents, extent.Contains address := by
  rw [overlaps_iff_ofRange hsize]
  constructor
  · rintro ⟨range, hrange, extent, hextent, hmeets⟩
    obtain ⟨address, haddress, hin, hin'⟩ :=
      (meets_iff (hproper extent hextent) (proper_of_mem_ofRange hstart hrange)).mp hmeets
    exact ⟨address, (contains_ofRange_iff hstart haddress).mp ⟨range, hrange, hin'⟩,
      extent, hextent, hin⟩
  · rintro ⟨address, hcovers, extent, hextent, hin⟩
    obtain ⟨range, hrange, hin'⟩ := (contains_ofRange_iff hstart hcovers.lt).mpr hcovers
    exact ⟨range, hrange, extent, hextent,
      (meets_iff (hproper extent hextent) (proper_of_mem_ofRange hstart hrange)).mpr
        ⟨address, hcovers.lt, hin, hin'⟩⟩

/-- Some extent contains the address. -/
def Taken (extents : List Extent) (address : Nat) : Prop :=
  ∃ extent ∈ extents, extent.Contains address

/-- What the search tests of a candidate. -/
def fits (extents : List Extent) (size start : Nat) : Bool :=
  start + size ≤ space && !overlaps extents start size

variable {extents : List Extent} {size start : Nat}

theorem fits_iff (hproper : ∀ extent ∈ extents, extent.Proper) (hsize : 0 < size) :
    fits extents size start = true ↔ IsFree (Taken extents) size start := by
  rw [fits, Bool.and_eq_true, decide_eq_true_eq, Bool.not_eq_true', Bool.eq_false_iff]
  refine and_congr_right fun hbelow => ?_
  rw [ne_eq, overlaps_iff hproper (by omega) hsize, not_exists]
  constructor
  · intro hnone i hi htaken
    have hinside : start + i < space := by omega
    exact hnone (start + i) ⟨⟨i, hi, wrap_eq_self hinside⟩, htaken⟩
  · rintro hfree address ⟨⟨i, hi, haddress⟩, htaken⟩
    dsimp only at hi haddress
    rw [wrap_eq_self (by omega)] at haddress
    rw [← haddress] at htaken
    exact hfree i hi htaken

/-- The lowest free bytes start at the bottom of memory or right behind an extent. -/
theorem eq_zero_or_mem_stops (hsize : 0 < size)
    (hleast : IsLeast { start | IsFree (Taken extents) size start } start) :
    start = 0 ∨ start ∈ extents.map Extent.stop := by
  obtain ⟨⟨hbelow, hfree⟩, hlowest⟩ := hleast
  cases start with
  | zero => exact .inl rfl
  | succ before =>
      right
      have hblocked : Taken extents before := by
        by_contra hopen
        have hlower : IsFree (Taken extents) size before := by
          refine ⟨by omega, fun i hi => ?_⟩
          cases i with
          | zero => exact hopen
          | succ i =>
              rw [Nat.add_comm i 1, ← Nat.add_assoc]
              exact hfree i (by omega)
        exact Nat.not_succ_le_self before (hlowest hlower)
      obtain ⟨extent, hextent, hlow, hhigh⟩ := hblocked
      have hends : ¬ extent.Contains (before + 1) :=
        fun hin => hfree 0 hsize ⟨extent, hextent, hin⟩
      refine List.mem_map.mpr ⟨extent, hextent, ?_⟩
      rw [Contains] at hends
      omega

/-- Free bytes fit behind the highest extent unless the top of memory is too near. -/
theorem isFree_highest_iff {highest : Nat} (hhighest : highest? extents = some highest) :
    IsFree (Taken extents) size highest ↔ highest + size ≤ space := by
  refine ⟨And.left, fun hbelow => ⟨hbelow, ?_⟩⟩
  rintro i - ⟨extent, hextent, -, hhigh⟩
  have hstop := (List.max?_eq_some_iff.mp hhighest).2 extent.stop
    (List.mem_map.mpr ⟨extent, hextent, rfl⟩)
  omega

/-- The first element of a sorted list that passes a test is the least that does. -/
theorem le_of_find?_eq_some {candidates : List Nat} {test : Nat → Bool} {found other : Nat}
    (hsorted : candidates.Pairwise (· ≤ ·)) (hfound : candidates.find? test = some found)
    (hmem : other ∈ candidates) (htest : test other = true) : found ≤ other := by
  obtain ⟨-, before, after, rfl, hbefore⟩ := List.find?_eq_some_iff_append.mp hfound
  rcases List.mem_append.mp hmem with hearlier | hlater
  · have hpassed := hbefore other hearlier
    rw [htest] at hpassed
    cases hpassed
  · rcases List.mem_cons.mp hlater with rfl | hlater
    · exact Nat.le_refl _
    · exact (List.pairwise_cons.mp (List.pairwise_append.mp hsorted).2.1).1 other hlater

/-- The places that are tried from the bottom of memory up. -/
theorem pairwise_candidates (extents : List Extent) :
    (0 :: (extents.map Extent.stop).mergeSort).Pairwise (· ≤ ·) := by
  have hsorted : ((extents.map Extent.stop).mergeSort).Pairwise (· ≤ ·) :=
    List.pairwise_mergeSort' (· ≤ ·) _
  exact List.pairwise_cons.mpr ⟨fun _ _ => Nat.zero_le _, hsorted⟩

/-- Places in order are in order however they are sorted. -/
theorem free?_eq_insertionSort (extents : List Extent) (size : Nat) :
    free? extents size =
      ((highest? extents).toList ++ 0 :: (extents.map Extent.stop).insertionSort (· ≤ ·)).find?
        (fits extents size) := by
  rw [free?, List.mergeSort_eq_insertionSort (· ≤ ·)]
  rfl

theorem free?_eq_or (extents : List Extent) (size : Nat) :
    free? extents size =
      ((highest? extents).filter (fits extents size)).or
        ((0 :: (extents.map Extent.stop).mergeSort).find? (fits extents size)) := by
  rw [free?, List.find?_append]
  cases highest? extents with
  | none => rfl
  | some highest =>
      simp only [Option.toList_some, List.find?_singleton, Option.filter, fits]
      rfl

theorem fits_of_free?_eq_some (hfree : free? extents size = some start) :
    fits extents size start = true :=
  List.find?_some (p := fits extents size) hfree

/-- The search finds free bytes whenever there are any. -/
theorem free?_isSome_iff (hproper : ∀ extent ∈ extents, extent.Proper) (hsize : 0 < size) :
    (free? extents size).isSome = true ↔ ∃ start, IsFree (Taken extents) size start := by
  constructor
  · intro hsome
    obtain ⟨start, hstart⟩ := Option.isSome_iff_exists.mp hsome
    exact ⟨start, (fits_iff hproper hsize).mp (fits_of_free?_eq_some hstart)⟩
  · intro hexists
    classical
    have hleast := Nat.isLeast_find hexists
    by_contra hnone
    rw [Option.not_isSome_iff_eq_none, free?, List.find?_eq_none] at hnone
    refine hnone (Nat.find hexists) ?_ ((fits_iff hproper hsize).mpr hleast.1)
    refine List.mem_append_right _ (List.mem_cons.mpr ?_)
    simpa using eq_zero_or_mem_stops hsize hleast

/-- Where the search finds free bytes: behind the highest extent where they fit there, else as low
as they fit. -/
theorem free?_eq_some (hproper : ∀ extent ∈ extents, extent.Proper) (hsize : 0 < size)
    (hfree : free? extents size = some start) :
    IsFree (Taken extents) size start ∧
      ∀ highest, highest? extents = some highest →
        (highest + size ≤ space → start = highest) ∧
        (space < highest + size →
          IsLeast { start | IsFree (Taken extents) size start } start) := by
  have hstart := (fits_iff hproper hsize).mp (fits_of_free?_eq_some hfree)
  refine ⟨hstart, fun highest hhighest => ?_⟩
  have htest : fits extents size highest = true ↔ highest + size ≤ space :=
    (fits_iff hproper hsize).trans (isFree_highest_iff hhighest)
  rw [free?_eq_or, hhighest] at hfree
  constructor
  · intro hfits
    rw [Option.filter_some_pos (htest.mpr hfits), Option.some_or] at hfree
    exact (Option.some.inj hfree).symm
  · intro hbeyond
    have hfails : fits extents size highest = false :=
      Bool.eq_false_iff.mpr fun hpass => Nat.not_le_of_lt hbeyond (htest.mp hpass)
    rw [Option.filter_some_neg hfails, Option.none_or] at hfree
    classical
    have hleast := Nat.isLeast_find ⟨start, hstart⟩
    have hmem := eq_zero_or_mem_stops hsize hleast
    have hlow : start ≤ Nat.find ⟨start, hstart⟩ := by
      refine le_of_find?_eq_some (pairwise_candidates extents) hfree (List.mem_cons.mpr ?_)
        ((fits_iff hproper hsize).mpr hleast.1)
      simpa using hmem
    exact ⟨hstart, fun other hother => hlow.trans (hleast.2 hother)⟩

/-- The highest extent ends behind the highest taken address, or beyond the top of memory. -/
theorem exists_highest? {top : Nat} (hproper : ∀ extent ∈ extents, extent.Proper)
    (htop : IsGreatest { address | address < space ∧ Taken extents address } top) :
    ∃ highest, highest? extents = some highest ∧ top + 1 = min highest space := by
  obtain ⟨⟨htopSpace, extent, hextent, htopIn⟩, hgreatest⟩ := htop
  obtain ⟨highest, hhighest⟩ : ∃ highest, highest? extents = some highest := by
    refine Option.isSome_iff_exists.mp (List.isSome_max?_of_mem (a := extent.stop) ?_)
    exact List.mem_map.mpr ⟨extent, hextent, rfl⟩
  obtain ⟨hmem, habove⟩ := List.max?_eq_some_iff.mp hhighest
  obtain ⟨last, hlast, hstop⟩ := List.mem_map.mp hmem
  obtain ⟨hlastStop, hlastSpace⟩ := hproper last hlast
  have hle := habove extent.stop (List.mem_map.mpr ⟨extent, hextent, rfl⟩)
  have hlow : min highest space - 1 ≤ top :=
    hgreatest ⟨by omega, last, hlast, by omega, by omega⟩
  have hinside := htopIn.2
  exact ⟨highest, hhighest, by omega⟩

end Extent

namespace Layout

variable {store : TokenStore} {config : AssemblyConfig} {layout last : Layout}
  {statements : List Statement} {rows : List Lowered}

/-- A placed statement needs the address. -/
def Taken (store : TokenStore) (layout : Layout) (address : Nat) : Prop :=
  ∃ span ∈ spans store 0 layout.lowered.toList, span.Covers address

theorem Run.address_lt (hrun : Run store config layout statements rows last)
    (hcursor : layout.cursor < space) :
    ∀ span ∈ spans store layout.cursor rows, span.address < space := by
  induction hrun with
  | nil => exact fun _ hmem => absurd hmem List.not_mem_nil
  | cons hhead _ ih =>
      refine List.forall_mem_cons.mpr ⟨hcursor, ?_⟩
      rw [← hhead.cursor_eq hcursor]
      exact ih (hhead.cursor_lt hcursor)

theorem proper_of_ofStatements (hplaced : ofStatements store config statements = .ok layout) :
    ∀ extent ∈ layout.extents.toList, extent.Proper := by
  have hrun := run_of_ofStatements hplaced
  intro extent hextent
  rw [hrun.extents_eq space_pos] at hextent
  obtain ⟨span, hspan, hextent⟩ := List.mem_flatMap.mp hextent
  exact Extent.proper_of_mem_ofRange (hrun.address_lt space_pos span hspan) hextent

/-- The extents of a layout contain the addresses that its statements need. -/
theorem taken_iff (hplaced : ofStatements store config statements = .ok layout) {address : Nat}
    (haddress : address < space) :
    Extent.Taken layout.extents.toList address ↔ layout.Taken store address := by
  have hrun := run_of_ofStatements hplaced
  have hextents : layout.extents.toList =
      (spans store 0 layout.lowered.toList).flatMap Span.extents := hrun.extents_eq space_pos
  unfold Extent.Taken Taken
  rw [hextents]
  constructor
  · rintro ⟨extent, hextent, hin⟩
    obtain ⟨span, hspan, hextent⟩ := List.mem_flatMap.mp hextent
    exact ⟨span, hspan, (Extent.contains_ofRange_iff
      (hrun.address_lt space_pos span hspan) haddress).mp ⟨extent, hextent, hin⟩⟩
  · rintro ⟨span, hspan, hcovers⟩
    obtain ⟨extent, hextent, hin⟩ := (Extent.contains_ofRange_iff
      (hrun.address_lt space_pos span hspan) haddress).mpr hcovers
    exact ⟨extent, List.mem_flatMap.mpr ⟨span, hspan, hextent⟩, hin⟩

theorem isFree_taken_iff (hplaced : ofStatements store config statements = .ok layout)
    {size start : Nat} :
    IsFree (Extent.Taken layout.extents.toList) size start ↔
      IsFree (layout.Taken store) size start := by
  refine and_congr_right fun hbelow => forall_congr' fun i => imp_congr_right fun hi => ?_
  exact not_congr (taken_iff hplaced (by omega))

end Layout

end VectorStack
