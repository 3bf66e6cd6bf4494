import Mathlib.Data.List.Nodup
import VectorStack.Program
import VectorStack.Proofs.Layout.Placement
/-!
What loading a program leaves in memory. Writing bytes is setting one byte after another, and
neither joining segments nor sorting them loses, adds or moves one, so memory holds every byte that
was written to the program, as long as no two of them share an address, and nothing else changes.
-/

namespace VectorStack

open Address (space wrap wrap_eq_self)

/-- Main memory covers the address space and nothing is mapped over it. -/
structure Memory.Plain (memory : Memory) : Prop where
  mappings_eq : memory.mappings = []
  size_eq : memory.ram.size = space

theorem Memory.plain_full : (ofRam .full).Plain := ⟨rfl, rfl⟩

/-- Memory holds bytes from an address on. -/
def Memory.Holds (memory : Memory) (address : Nat) (bytes : Bytes) : Prop :=
  ∀ (index : Nat) (hindex : index < bytes.length),
    memory.get (wrap (address + index)) = bytes[index]

/-- The single bytes of a write and their places. -/
def placeBytes (address : Nat) : Bytes → List (Nat × UInt8)
  | [] => []
  | byte :: rest => (address, byte) :: placeBytes (address + 1) rest

theorem placeBytes_append (address : Nat) (bytes more : Bytes) :
    placeBytes address (bytes ++ more) =
      placeBytes address bytes ++ placeBytes (address + bytes.length) more := by
  induction bytes generalizing address with
  | nil => rfl
  | cons byte rest ih =>
      have hnext : address + 1 + rest.length = address + (rest.length + 1) := by omega
      rw [List.cons_append, placeBytes, ih, hnext]
      rfl

theorem length_placeBytes (address : Nat) (bytes : Bytes) :
    (placeBytes address bytes).length = bytes.length := by
  induction bytes generalizing address with
  | nil => rfl
  | cons byte rest ih => simp [placeBytes, ih]

theorem getElem?_placeBytes (address : Nat) (bytes : Bytes) (index : Nat) :
    (placeBytes address bytes)[index]? = bytes[index]?.map fun byte => (address + index, byte) := by
  induction bytes generalizing address index with
  | nil => rfl
  | cons byte rest ih =>
      cases index with
      | zero => rfl
      | succ index =>
          have hnext : address + 1 + index = address + (index + 1) := by omega
          rw [placeBytes, List.getElem?_cons_succ, ih, hnext]
          rfl

theorem mem_placeBytes (address : Nat) {bytes : Bytes} {index : Nat}
    (hindex : index < bytes.length) :
    (address + index, bytes[index]) ∈ placeBytes address bytes := by
  refine List.mem_of_getElem? (i := index) ?_
  rw [getElem?_placeBytes, List.getElem?_eq_getElem hindex]
  rfl

/-- Memory holds bytes if it has each of them at its place. -/
theorem Memory.holds_iff_places {memory : Memory} {address : Nat} {bytes : Bytes} :
    memory.Holds address bytes ↔
      ∀ place ∈ placeBytes address bytes, memory.get (wrap place.1) = place.2 := by
  constructor
  · intro hholds place hplace
    obtain ⟨index, hindex⟩ := List.mem_iff_getElem?.mp hplace
    rw [getElem?_placeBytes, Option.map_eq_some_iff] at hindex
    obtain ⟨byte, hbyte, rfl⟩ := hindex
    obtain ⟨hlt, rfl⟩ := List.getElem?_eq_some_iff.mp hbyte
    exact hholds index hlt
  · intro hplaces index hindex
    exact hplaces (address + index, bytes[index]) (mem_placeBytes address hindex)

/-- The addresses at which the bytes of a write end up. -/
def addressesOf (write : Nat × Bytes) : List Nat :=
  (placeBytes write.1 write.2).map fun place => wrap place.1

theorem mem_addressesOf {write : Nat × Bytes} {address : Nat} :
    address ∈ addressesOf write ↔ Span.Covers ⟨write.1, write.2.length⟩ address := by
  rw [addressesOf, List.mem_map]
  constructor
  · rintro ⟨place, hplace, rfl⟩
    obtain ⟨index, hindex⟩ := List.mem_iff_getElem?.mp hplace
    rw [getElem?_placeBytes, Option.map_eq_some_iff] at hindex
    obtain ⟨byte, hbyte, rfl⟩ := hindex
    exact ⟨index, (List.getElem?_eq_some_iff.mp hbyte).1, rfl⟩
  · rintro ⟨index, hindex, rfl⟩
    exact ⟨_, mem_placeBytes write.1 hindex, rfl⟩

/-- Bytes that fit the address space get addresses of their own. -/
theorem nodup_addressesOf {write : Nat × Bytes} (hlength : write.2.length ≤ space) :
    (addressesOf write).Nodup := by
  rw [addressesOf, List.nodup_iff_getElem?_ne_getElem?]
  intro first second hlt hsecond heq
  rw [List.length_map, length_placeBytes] at hsecond
  simp only [List.getElem?_map, getElem?_placeBytes] at heq
  rw [List.getElem?_eq_getElem (Nat.lt_trans hlt hsecond), List.getElem?_eq_getElem hsecond] at heq
  simp only [Option.map_some, Option.some.injEq] at heq
  unfold wrap space at *
  omega

namespace Memory

variable {memory : Memory}

theorem Plain.isEmpty_mappings (hplain : memory.Plain) : memory.mappings.isEmpty = true := by
  rw [hplain.mappings_eq]
  rfl

theorem Plain.set (hplain : memory.Plain) (address : Nat) (value : UInt8) :
    (memory.set address value).Plain := by
  have hempty := hplain.isEmpty_mappings
  refine ⟨by rw [mappings_set, hplain.mappings_eq], ?_⟩
  rw [Memory.set, if_pos hempty]
  exact hplain.size_eq

theorem Plain.write (hplain : memory.Plain) (address : Nat) (bytes : Bytes) :
    (memory.write address bytes).Plain := by
  induction bytes generalizing memory address with
  | nil =>
      rw [write_nil]
      exact hplain
  | cons byte rest ih =>
      rw [write_cons]
      exact ih (hplain.set address byte) (address + 1)

theorem Plain.get_set (hplain : memory.Plain) (address other : Nat) (value : UInt8) :
    (memory.set address value).get other =
      if wrap other = wrap address then value else memory.get other := by
  have hempty := hplain.isEmpty_mappings
  rw [get, mappings_set, if_pos hempty, get, if_pos hempty, Memory.set, if_pos hempty]
  dsimp only
  rw [Ram.get_set, hplain.size_eq]
  rfl

/-- Set single bytes in order. -/
def setAll (memory : Memory) (places : List (Nat × UInt8)) : Memory :=
  places.foldl (fun memory place => memory.set place.1 place.2) memory

theorem write_eq_setAll (memory : Memory) (address : Nat) (bytes : Bytes) :
    memory.write address bytes = memory.setAll (placeBytes address bytes) := by
  induction bytes generalizing memory address with
  | nil => exact memory.write_nil address
  | cons byte rest ih =>
      rw [write_cons, ih]
      rfl

theorem get_setAll_of_not_mem {places : List (Nat × UInt8)} {address : Nat}
    (hplain : memory.Plain)
    (hfree : wrap address ∉ places.map fun place => wrap place.1) :
    (memory.setAll places).get address = memory.get address := by
  induction places generalizing memory with
  | nil => rfl
  | cons place rest ih =>
      rw [List.map_cons, List.mem_cons, not_or] at hfree
      have hrest := ih (hplain.set place.1 place.2) hfree.2
      rw [hplain.get_set, if_neg hfree.1] at hrest
      exact hrest

/-- Of bytes with addresses of their own, memory holds each one afterwards. -/
theorem get_setAll_of_mem {places : List (Nat × UInt8)} {place : Nat × UInt8}
    (hplain : memory.Plain) (hnodup : (places.map fun place => wrap place.1).Nodup)
    (hmem : place ∈ places) :
    (memory.setAll places).get (wrap place.1) = place.2 := by
  induction places generalizing memory with
  | nil => cases hmem
  | cons first rest ih =>
      obtain ⟨hfirst, hrest⟩ := List.nodup_cons.mp hnodup
      rcases List.mem_cons.mp hmem with rfl | hlater
      · have hfree : wrap (wrap place.1) ∉ rest.map fun place => wrap place.1 := by
          rw [Address.wrap_wrap]
          exact hfirst
        have hkept := get_setAll_of_not_mem (hplain.set place.1 place.2) hfree
        rw [hplain.get_set, if_pos (Address.wrap_wrap _)] at hkept
        exact hkept
      · exact ih (hplain.set first.1 first.2) hrest hlater

/-- Memory holds what was written to it last. -/
theorem holds_write (hplain : memory.Plain) {address : Nat} {bytes : Bytes}
    (hlength : bytes.length ≤ space) : (memory.write address bytes).Holds address bytes := by
  intro index hindex
  have hnodup : (addressesOf (address, bytes)).Nodup := nodup_addressesOf hlength
  have hheld := get_setAll_of_mem hplain hnodup (mem_placeBytes address hindex)
  rw [write_eq_setAll]
  exact hheld

end Memory

namespace Program

/-- The single bytes of segments and their places. -/
def places (segments : List Segment) : List (Nat × UInt8) :=
  segments.flatMap fun segment => placeBytes segment.address segment.bytes

theorem load_eq_setAll (program : Program) (memory : Memory) :
    program.load memory = memory.setAll (places program.segments) := by
  obtain ⟨segments⟩ := program
  unfold load places Memory.setAll
  dsimp only
  induction segments generalizing memory with
  | nil => rfl
  | cons segment rest ih =>
      rw [List.foldl_cons, ih, List.flatMap_cons, List.foldl_append, Memory.write_eq_setAll]
      rfl

theorem length_eq (program : Program) : program.length = (places program.segments).length := by
  obtain ⟨segments⟩ := program
  unfold length places
  dsimp only
  induction segments with
  | nil => rfl
  | cons segment rest ih =>
      rw [List.foldr_cons, ih, List.flatMap_cons, List.length_append, length_placeBytes]

theorem places_join (address : Nat) (bytes : Bytes) (segments : List Segment) :
    places (join address bytes segments) = placeBytes address bytes ++ places segments := by
  cases segments with
  | nil => simp [join, places]
  | cons next rest =>
      rw [join]
      split
      · next hleads => simp [places, placeBytes_append, hleads]
      · rfl

/-- Joining bytes that lead up to each other keeps every byte where it belongs. -/
theorem places_ofWrites (writes : List (Nat × Bytes)) :
    places (ofWrites writes).segments = writes.flatMap fun write => placeBytes write.1 write.2 := by
  induction writes with
  | nil => rfl
  | cons write rest ih =>
      rw [List.flatMap_cons, ← ih]
      exact places_join _ _ _

/-- What memory holds once a program is loaded that has the bytes of writes, in any order. -/
theorem get_load {program : Program} {memory : Memory} {writes : List (Nat × Bytes)}
    (hplain : memory.Plain)
    (hplaces : (places program.segments).Perm
      (writes.flatMap fun write => placeBytes write.1 write.2))
    (hlength : ∀ write ∈ writes, write.2.length ≤ space)
    (hapart : writes.Pairwise fun first second => ∀ address,
      Span.Covers ⟨first.1, first.2.length⟩ address →
        ¬ Span.Covers ⟨second.1, second.2.length⟩ address) :
    (∀ write ∈ writes, (program.load memory).Holds write.1 write.2) ∧
    ∀ address < space, (∀ write ∈ writes, ¬ Span.Covers ⟨write.1, write.2.length⟩ address) →
      (program.load memory).get address = memory.get address := by
  have haddresses : ((writes.flatMap fun write => placeBytes write.1 write.2).map
      fun place => wrap place.1) = writes.flatMap addressesOf := List.map_flatMap ..
  have hmap := hplaces.map fun place => wrap place.1
  rw [haddresses] at hmap
  rw [load_eq_setAll]
  constructor
  · intro write hwrite index hindex
    have hnodup : (writes.flatMap addressesOf).Nodup := by
      rw [List.nodup_flatMap]
      refine ⟨fun write hmem => nodup_addressesOf (hlength write hmem), hapart.imp ?_⟩
      intro first second hdisjoint address hfirst hsecond
      exact hdisjoint address (mem_addressesOf.mp hfirst) (mem_addressesOf.mp hsecond)
    have hmem := hplaces.mem_iff.mpr
      (List.mem_flatMap.mpr ⟨write, hwrite, mem_placeBytes write.1 hindex⟩)
    have hheld := Memory.get_setAll_of_mem hplain (hmap.nodup_iff.mpr hnodup) hmem
    exact hheld
  · intro address haddress hfree
    refine Memory.get_setAll_of_not_mem hplain ?_
    rw [hmap.mem_iff, wrap_eq_self haddress, List.mem_flatMap]
    rintro ⟨write, hwrite, hmem⟩
    exact hfree write hwrite (mem_addressesOf.mp hmem)

end Program

end VectorStack
