import Mathlib.Data.List.DropRight
import VectorStack.Token.Store
/-!
Lines of a text. The line that a place is on goes from behind the last line end before the place to
the next line end, and it is the one that the line ends before the place count to.
-/

namespace VectorStack

namespace TokenStore

section Lines

variable {before behind front : List Char}

/-- The last line of a text ends no line. -/
theorem notMem_rtakeWhile (before : List Char) : '\n' ∉ before.rtakeWhile (· != '\n') := by
  intro hmem
  have hpass := List.mem_rtakeWhile_imp hmem
  cases hpass

/-- What is before the last line of a text ends with a line end. -/
theorem rdropWhile_eq_nil_or (before : List Char) :
    before.rdropWhile (· != '\n') = [] ∨
      ∃ front, before.rdropWhile (· != '\n') = front ++ ['\n'] := by
  by_cases hnil : before.rdropWhile (· != '\n') = []
  · exact .inl hnil
  · have hlast := List.rdropWhile_last_not (· != '\n') before hnil
    rw [bne_iff_ne, not_not] at hlast
    refine .inr ⟨(before.rdropWhile (· != '\n')).dropLast, ?_⟩
    nth_rewrite 1 [← List.dropLast_append_getLast hnil]
    rw [hlast]

theorem head?_splitOn (text : List Char) :
    (text.splitOn '\n')[0]? = some (text.takeWhile (· != '\n')) := by
  induction text with
  | nil => rfl
  | cons c rest ih =>
      rw [List.splitOn_cons_eq_if_modifyHead]
      by_cases hc : c = '\n'
      · simp [hc]
      · simp [hc, List.getElem?_modifyHead, ih]

theorem length_splitOn (text : List Char) : (text.splitOn '\n').length = text.count '\n' + 1 := by
  induction text with
  | nil => rfl
  | cons c rest ih =>
      rw [List.splitOn_cons_eq_if_modifyHead]
      by_cases hc : c = '\n'
      · simp [hc, ih]
      · simp [hc, ih]

/-- The line ends before a place count to the line of the place. -/
theorem getElem?_splitOn_count (before behind : List Char) :
    ((before ++ behind).splitOn '\n')[before.count '\n']? =
      some (before.rtakeWhile (· != '\n') ++ behind.takeWhile (· != '\n')) := by
  have hlast := notMem_rtakeWhile before
  have hfirst : (before.rtakeWhile (· != '\n') ++ behind).takeWhile (· != '\n') =
      before.rtakeWhile (· != '\n') ++ behind.takeWhile (· != '\n') :=
    List.takeWhile_append_of_pos fun c hmem => @List.mem_rtakeWhile_imp _ (· != '\n') _ c hmem
  have hsplit := @List.rdropWhile_append_rtakeWhile _ (· != '\n') before
  rw [← hfirst, ← head?_splitOn]
  rcases rdropWhile_eq_nil_or before with hnil | ⟨front, hfront⟩
  · rw [hnil, List.nil_append] at hsplit
    rw [hsplit] at hlast ⊢
    rw [List.count_eq_zero.mpr hlast]
  · have hcount : before.count '\n' = (front.splitOn '\n').length := by
      rw [← hsplit, hfront, List.count_append, List.count_append, List.count_eq_zero.mpr hlast,
        length_splitOn]
      rfl
    have htext : before ++ behind = front ++ '\n' :: (before.rtakeWhile (· != '\n') ++ behind) := by
      nth_rewrite 1 [← hsplit]
      rw [hfront, List.append_assoc, List.append_assoc]
      rfl
    rw [htext, List.splitOn_append_cons_self, hcount,
      List.getElem?_append_right (Nat.le_refl _), Nat.sub_self]

/-- Dropping from the end of a text keeps what does not end with what is dropped. -/
theorem prefix_rdropWhile {test : Char → Bool} {piece text : List Char} (hpiece : piece <+: text)
    (hlast : ∀ c ∈ piece.getLast?, test c = false) : piece <+: text.rdropWhile test := by
  obtain ⟨more, rfl⟩ := hpiece
  induction more using List.reverseRecOn with
  | nil =>
      have hself : piece.rdropWhile test = piece := by
        rw [List.rdropWhile_eq_self_iff]
        intro hne
        rw [hlast _ (List.getLast?_eq_some_getLast hne)]
        exact Bool.false_ne_true
      rw [List.append_nil]
      exact ⟨[], (List.append_nil piece).trans hself.symm⟩
  | append_singleton more c ih =>
      rw [← List.append_assoc, List.rdropWhile_concat]
      split
      · exact ih
      · rw [List.append_assoc]
        exact List.prefix_append piece _

end Lines

/-- A line ends in front of the first line end behind its place. -/
theorem lineEnd_eq {text : Array Char} {place : Nat} (hplace : place ≤ text.size) :
    lineEnd text place = place + ((text.toList.drop place).takeWhile (· != '\n')).length := by
  fun_induction lineEnd text place with
  | case1 place hlt hends =>
      rw [List.drop_eq_getElem_cons (by simpa only [Array.length_toList] using hlt),
        Array.getElem_toList]
      simp [hends]
  | case2 place hlt hends ih =>
      have hlength : place < text.toList.length := by simpa only [Array.length_toList] using hlt
      rw [ih hlt, List.drop_eq_getElem_cons hlength, Array.getElem_toList]
      simp [hends]
      omega
  | case3 place hlt =>
      have hnil : text.toList.drop place = [] := List.drop_eq_nil_of_le (Nat.le_of_not_lt hlt)
      rw [hnil]
      rfl

/-- The line of a place, as what is on it before the place and what is behind. -/
theorem extract_line {text : Array Char} {place : Nat} (hplace : place ≤ text.size) :
    (text.extract (lineStart text place) (lineEnd text place)).toList =
      (text.toList.take place).rtakeWhile (· != '\n') ++
        (text.toList.drop place).takeWhile (· != '\n') := by
  let front := (text.toList.take place).rdropWhile (· != '\n')
  let last := (text.toList.take place).rtakeWhile (· != '\n')
  let more := (text.toList.drop place).takeWhile (· != '\n')
  let rest := (text.toList.drop place).dropWhile (· != '\n')
  have hbefore : front ++ last = text.toList.take place := List.rdropWhile_append_rtakeWhile
  have hbehind : more ++ rest = text.toList.drop place := List.takeWhile_append_dropWhile
  have htext : front ++ (last ++ more ++ rest) = text.toList := by
    rw [List.append_assoc, hbehind, ← List.append_assoc, hbefore, List.take_append_drop]
  have hlast : place - lineStart text place = last.length := by
    rw [lineStart_eq hplace]
    exact List.length_reverse.symm
  have hle := lineStart_le text place
  have hlength : front.length + last.length = place := by
    rw [← List.length_append, hbefore]
    exact List.length_take_of_le hplace
  have hstart : lineStart text place = front.length := by omega
  have hsize : place + more.length - front.length = (last ++ more).length := by
    rw [List.length_append]
    omega
  have hdrop : text.toList.drop front.length = last ++ more ++ rest := by
    rw [← htext]
    exact List.drop_left
  rw [lineEnd_eq hplace, hstart, Array.toList_extract, List.extract_eq_take_drop, hsize, hdrop]
  exact List.take_left

/-- The line of a token is what is on it before the token and from there on, without carriage
returns at its end. -/
theorem lineText_eq (store : TokenStore) (id : TokenId)
    (hplace : (store.token id).start ≤ (store.sourceOf id).text.size) :
    store.lineText id =
      ((store.before id).rtakeWhile (· != '\n') ++
        ((store.sourceOf id).text.toList.drop (store.token id).start).takeWhile
          (· != '\n')).rdropWhile (· == '\r') := by
  rw [before, ← extract_line hplace]
  rfl

/-- The line of a token is the one that its location counts to. -/
theorem lineText_eq_splitOn (store : TokenStore) (id : TokenId)
    (hplace : (store.token id).start ≤ (store.sourceOf id).text.size) :
    ∃ line, ((store.sourceOf id).text.toList.splitOn '\n')[(store.location id).line - 1]? =
      some line ∧ store.lineText id = line.rdropWhile (· == '\r') := by
  have hline := getElem?_splitOn_count (store.before id)
    ((store.sourceOf id).text.toList.drop (store.token id).start)
  rw [before, List.take_append_drop] at hline
  refine ⟨_, ?_, store.lineText_eq id hplace⟩
  rw [location_eq store id hplace, Nat.add_sub_cancel, before, hline]

/-- What starts at the place of a token on its line is found in the text of the line behind as many
characters as the column says, if no carriage return ends it. -/
theorem prefix_drop_lineText (store : TokenStore) (id : TokenId)
    (hplace : (store.token id).start ≤ (store.sourceOf id).text.size) {piece : List Char}
    (hpiece : piece <+: ((store.sourceOf id).text.toList.drop (store.token id).start).takeWhile
      (· != '\n'))
    (hlast : piece.getLast? ≠ some '\r') :
    piece <+: (store.lineText id).drop ((store.location id).column - 1) := by
  by_cases hnil : piece = []
  · rw [hnil]
    exact List.nil_prefix
  have hcolumn : (store.location id).column - 1 =
      ((store.before id).rtakeWhile (· != '\n')).length := by
    rw [location_eq store id hplace]
    exact List.length_reverse.symm
  have hfront : (store.before id).rtakeWhile (· != '\n') ++ piece <+: store.lineText id := by
    rw [lineText_eq store id hplace]
    apply prefix_rdropWhile ((List.prefix_append_right_inj _).mpr hpiece)
    rw [List.getLast?_append_of_ne_nil _ hnil]
    intro c hc
    rw [beq_eq_false_iff_ne]
    rintro rfl
    exact hlast hc
  obtain ⟨more, hmore⟩ := hfront
  rw [hcolumn, ← hmore, List.append_assoc, List.drop_left]
  exact List.prefix_append piece more

end TokenStore

end VectorStack
