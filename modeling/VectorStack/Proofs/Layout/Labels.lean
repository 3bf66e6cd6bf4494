import Mathlib.Data.List.Nodup
import VectorStack.Assembly.Symbols
import VectorStack.Proofs.Layout.Agreement
/-!
Labels and their names. No two labels of a program have the same name, so a name stands for one
address, in whatever order the labels are kept: that of the place where the label is written.
-/

namespace VectorStack

open Address (wrap)

variable {store : TokenStore} {config : AssemblyConfig}

/-- Among labels with names of their own a name is found at the address of its label. -/
theorem find?_name_eq_some_iff {labels : List Label} (hnodup : (labels.map Label.name).Nodup)
    {name : String} {address : Nat} :
    (labels.find? (·.name == name)).map Label.address = some address ↔
      ∃ label ∈ labels, label.name = name ∧ label.address = address := by
  rw [Option.map_eq_some_iff]
  constructor
  · rintro ⟨label, hfind, haddress⟩
    have hname : label.name = name := by simpa using List.find?_some hfind
    exact ⟨label, List.mem_of_find?_eq_some hfind, hname, haddress⟩
  · rintro ⟨label, hmem, rfl, haddress⟩
    have hsome : (labels.find? (·.name == label.name)).isSome := by
      rw [List.find?_isSome]
      exact ⟨label, hmem, beq_self_eq_true _⟩
    obtain ⟨found, hfound⟩ := Option.isSome_iff_exists.mp hsome
    have hname : found.name = label.name := by simpa using List.find?_some hfound
    cases List.inj_on_of_nodup_map hnodup (List.mem_of_find?_eq_some hfound) hmem hname
    exact ⟨_, hfound, haddress⟩

namespace Layout

variable {layout next last : Layout} {statement : Statement} {statements : List Statement}
  {lowered : Lowered} {rows : List Lowered}

theorem addressOf?_eq_none_iff {labels : Array Label} {name : String} :
    addressOf? labels name = none ↔ name ∉ labels.toList.map Label.name := by
  rw [addressOf?, Option.map_eq_none_iff, ← Array.find?_toList, List.find?_eq_none]
  simp only [beq_iff_eq, List.mem_map, not_exists, not_and]

/-- A label is placed only if its name is new. -/
theorem Places.nodup_names (hplaces : Places store config layout statement lowered next)
    (hnodup : (layout.labels.toList.map Label.name).Nodup) :
    (next.labels.toList.map Label.name).Nodup := by
  cases hplaces with
  | label hnew =>
      rw [addressOf?_eq_none_iff] at hnew
      rw [Array.toList_push, List.map_append]
      exact List.nodup_append.mpr ⟨hnodup, List.nodup_singleton _, by simpa using hnew⟩
  | position | data | instruction => exact hnodup

theorem Run.nodup_names (hrun : Run store config layout statements rows last)
    (hnodup : (layout.labels.toList.map Label.name).Nodup) :
    (last.labels.toList.map Label.name).Nodup := by
  induction hrun with
  | nil => exact hnodup
  | cons hhead _ ih => exact ih (hhead.nodup_names hnodup)

theorem nodup_names (hplaced : ofStatements store config statements = .ok layout) :
    (layout.labels.toList.map Label.name).Nodup :=
  (run_of_ofStatements hplaced).nodup_names List.nodup_nil

theorem addressOf?_eq_some_iff (hplaced : ofStatements store config statements = .ok layout)
    {name : String} {address : Nat} :
    addressOf? layout.labels name = some address ↔
      ∃ label ∈ layout.labels.toList, label.name = name ∧ label.address = address := by
  rw [addressOf?, ← Array.find?_toList]
  exact find?_name_eq_some_iff (nodup_names hplaced)

end Layout

/-- What is known about a program has its labels at their addresses. -/
theorem Symbols.addressOf?_new {layout : Layout} {statements : List Statement}
    (hplaced : Layout.ofStatements store config statements = .ok layout) (entries : List Entry)
    (name : String) :
    (Symbols.new store layout.labels.toList entries).addressOf? name =
      VectorStack.addressOf? layout.labels name := by
  let symbols := Symbols.new store layout.labels.toList entries
  have hperm : symbols.labels.Perm layout.labels.toList := List.mergeSort_perm _ _
  have hnodup : (symbols.labels.map Label.name).Nodup :=
    (hperm.map Label.name).nodup_iff.mpr (Layout.nodup_names hplaced)
  apply Option.ext
  intro address
  rw [Layout.addressOf?_eq_some_iff hplaced]
  exact (find?_name_eq_some_iff hnodup).trans
    (exists_congr fun label => and_congr_left fun _ => hperm.mem_iff)

theorem Image.labels_eq {layout : Layout} {statements : List Statement} {image : Image}
    (hplaced : Layout.ofStatements store config statements = .ok layout)
    (himage : ofStatements store config statements = .ok image) :
    image.labels = layout.labels.toList := by
  obtain ⟨found, hfound, himage⟩ := bind_eq_ok.mp himage
  obtain ⟨pool, -, himage⟩ := bind_eq_ok.mp himage
  obtain ⟨entries, -, himage⟩ := bind_eq_ok.mp himage
  cases himage
  rw [hplaced] at hfound
  cases hfound
  rfl

namespace LaidOut

variable {layout : Layout} {pool : ConstantPool} {cursor stop : Nat}
  {statements before after : List Statement} {labels : List Label} {entries : List Entry}

/-- A label among the statements stands where the statements before it end. -/
theorem exists_label {token : TokenId}
    (hlaidOut : LaidOut store config layout pool cursor (before ++ .label token :: after) labels
      entries stop) :
    ∃ first second earlier later place, entries = earlier ++ later ∧
      LaidOut store config layout pool cursor before first earlier place ∧
      LaidOut store config layout pool place after second later stop ∧
      ⟨store.text token, place, token⟩ ∈ labels := by
  obtain ⟨first, second, earlier, later, place, rfl, rfl, hbefore, hrest⟩ := hlaidOut.split
  cases hrest with
  | cons hhead htail =>
      cases hhead with
      | label =>
          exact ⟨first, _, earlier, _, place, rfl, hbefore, htail,
            List.mem_append_right _ List.mem_cons_self⟩

end LaidOut

end VectorStack
