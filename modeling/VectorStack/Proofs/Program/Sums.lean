import VectorStack.Proofs.Expansion.Sums
import VectorStack.Proofs.Program.Regions
/-!
Sums in programs. The number that a sum leaves is one token of the program, and it stands for the
sum of the numbers in the list modulo `2 ^ 64` wherever it is read: as an operand or a data item, in
an expression, and in a sum around it.
-/

namespace VectorStack

variable {store later : TokenStore} {number : TokenId} {value : Int} {cell : Cell}

/-- A number stands for a cell wherever it is read, and for the cell with its sign turned behind a
minus sign. -/
structure TokenStore.ReadsAs (store : TokenStore) (number : TokenId) (cell : Cell) : Prop where
  readWritten_eq (cause : TokenId) (rest : List TokenId) :
    store.readWritten cause (number :: rest) = .ok (.literal number false, rest)
  readWritten_minus {sign : TokenId} (hsign : store.kind sign = .minus) (cause : TokenId)
    (rest : List TokenId) :
    store.readWritten cause (sign :: number :: rest) = .ok (.literal number true, rest)
  termNumber_eq (layout : Layout) (negative : Bool) (first : TokenId) (copies : Nat) :
    layout.termNumber store ⟨.literal number negative, first, copies⟩ =
      .ok (.integer (if negative then 0 - cell else cell))
  operandAddress_eq (layout : Layout) (pool : ConstantPool) (negative : Bool) (first : TokenId)
    (copies : Nat) :
    Image.operandAddress layout store pool (.inlined ⟨.literal number negative, first, copies⟩) =
      .ok (some (Address.wrap (if negative then 0 - cell else cell).toNat))
  encodeTerm_eq (layout : Layout) (type : DataType) (negative : Bool) (first : TokenId)
    (copies : Nat) (lengthFirst : Bool) :
    layout.encodeTerm store type ⟨.literal number negative, first, copies⟩ lengthFirst =
      .ok (type.encodeLane (type.mode.convert (if negative then 0 - cell else cell) .signed))
  leafValue_eq (labels : String → Option Nat) :
    Expression.leafValue store labels number = .ok (.integer cell)
  literal_eq {s : Expansion} (hstore : s.store = store) : s.literal number = .ok (.integer cell)

/-- A whole number is read as its cell everywhere. -/
theorem TokenStore.IsWhole.readsAs (hwhole : store.IsWhole number value) :
    store.ReadsAs number (Cell.ofInt value) := by
  obtain ⟨hkind, hparse⟩ := hwhole
  have hterm (layout : Layout) (negative : Bool) (first : TokenId) (copies : Nat) :
      layout.termNumber store ⟨.literal number negative, first, copies⟩ =
        .ok (.integer (if negative then 0 - Cell.ofInt value else Cell.ofInt value)) := by
    rw [Layout.termNumber]
    dsimp only
    rw [hparse]
    cases negative <;> rfl
  refine ⟨fun cause rest => ?_, fun hsign cause rest => ?_, hterm, fun layout pool negative first
    copies => ?_, fun layout type negative first copies lengthFirst => ?_, fun labels => ?_,
    fun {s} hstore => ?_⟩
  · unfold readWritten
    dsimp only
    rw [hkind]
  · unfold readWritten
    dsimp only
    rw [hsign]
    exact if_pos hkind
  · rw [Image.operandAddress, hterm]
    rfl
  · rw [Layout.encodeTerm]
    dsimp only
    rw [hterm]
    exact congrArg Except.ok (List.append_nil _)
  · rw [Expression.leafValue, hkind, if_neg (by decide), hparse]
  · subst hstore
    exact Expansion.literal_of_isWhole ⟨hkind, hparse⟩

namespace Expansion

variable {s after : Expansion} {pending next : Pending} {directive opening : TokenId}
  {tokens more expanded : List TokenId} {summands : Summands}

/-- A number outside of argument lists goes to the output. -/
theorem step_number (hcaptures : s.captures = []) (hkind : s.store.kind number = .number)
    (htokens : pending.tokens = number :: more) :
    ∃ next, s.step pending = .ok ({ s with lastTaken := none }.emit [number], some next) ∧
      next.tokens = more := by
  obtain ⟨left, hread, hleft⟩ := Pending.exists_read?_of_tokens htokens
  have hreact : s.react number pending.last left =
      ({ s with lastTaken := none }.emit [number]).settle number := by
    rw [react_eq_process hcaptures, process, hkind]
  obtain ⟨next, hstep, hnext⟩ := exists_step_of_react hread hreact
  exact ⟨next, hstep, hnext.trans hleft⟩

/-- A number that comes next outside of argument lists stays in its place of the output. -/
theorem exists_number_of_run (hcaptures : s.captures = [])
    (hkind : s.store.kind number = .number) (htokens : pending.tokens = number :: more)
    (hrun : s.run pending = .ok (expanded, store)) :
    s.store.Extends store ∧ ∃ back, expanded = s.output.toList ++ number :: back := by
  obtain ⟨next, hstep, -⟩ := step_number hcaptures hkind htokens
  rw [Expansion.run_eq, hstep] at hrun
  obtain ⟨hextends, back, rfl⟩ := grows_run hrun
  exact ⟨hextends, back, by simp [emit]⟩

/-- A sum of whole numbers and of such sums becomes one number, in place of the directive and its
list, and nothing else changes. Its text is that of the sum of all numbers modulo `2 ^ 64`, whatever
their order and groups, and it stands for that sum wherever it is read later. Outside of argument
lists it is one token of the output. Only where the stack is full behind one of the lists there is
no number but a fault. -/
theorem sum_folds (hkind : s.store.kind directive = .directive)
    (hname : s.store.directiveName directive = "add")
    (hopening : s.store.kind opening = .openParen)
    (hwritten : s.store.Written .opened summands tokens)
    (htokens : pending.tokens = directive :: opening :: (tokens ++ more)) :
    (pending.Fits s.store (directive :: opening :: tokens) →
      ∃ number later next, s.store.Extends later ∧
        Reaches s pending { s with
          lastTaken := if s.captures.isEmpty then none else s.lastTaken, store := later } next ∧
        next.frames = [number] :: (pending.drop (tokens.length + 2)).frames ∧
        next.tokens = number :: more ∧ later.kind number = .number ∧
        ∃ cell : Cell, Number.parse? (later.chars number) = some (.integer cell) ∧
          cell.signed = Int.bmod summands.leaves.sum (2 ^ 64) ∧
          (∀ store, later.Extends store → store.ReadsAs number cell) ∧
          (∀ other : Summands, other.leaves.Perm summands.leaves →
            later.text number = Int.repr (Int.bmod other.total (2 ^ 64))) ∧
          (s.captures = [] → ∀ expanded store, s.run pending = .ok (expanded, store) →
            store.ReadsAs number cell ∧ ∃ back, expanded = s.output.toList ++ number :: back)) ∧
    (¬ pending.Fits s.store (directive :: opening :: tokens) →
      ∃ producer later, s.store.Extends later ∧ s.run pending =
        .error (later.expansionFault producer "macro expansion nested too deeply")) := by
  obtain ⟨afterStar, hstep⟩ := step_sum hkind hname hopening htokens
  have hlist : (pending.drop 2).tokens = tokens ++ more := by
    rw [Pending.tokens_drop, htokens]
    rfl
  have hsums := @folds_of_written _ _ _ _ hwritten
    { s with
      lastTaken := if s.captures.isEmpty then none else s.lastTaken
      captures := ⟨.sum, directive, opening, afterStar, .start⟩ :: s.captures }
    (pending.drop 2) ⟨.sum, directive, opening, afterStar, .start⟩ s.captures [] more
    ⟨.refl _, rfl, rfl, .opened, hlist⟩
  have hfits : pending.Fits s.store ([directive, opening] ++ tokens) ↔
      (pending.drop 2).Fits s.store tokens :=
    Pending.fits_append_iff_of_kind_ne fun token hmem => by
      rcases List.mem_pair.mp hmem with rfl | rfl <;> simp [hkind, hopening]
  rw [List.sum_nil, zero_add, Pending.drop_drop, Nat.add_comm, ← hfits] at hsums
  refine ⟨fun hroom => ?_, fun hfull => ?_⟩
  · obtain ⟨number, later, next, hadds, hreaches, hnext⟩ := hsums.exists_number hroom
    have hwhole := hadds.isWhole
    have hafter := Reaches.head hstep hreaches
    have hbehind : next.tokens = number :: more := by
      have hleft : (pending.drop (tokens.length + 2)).tokens = more := by
        rw [Nat.add_comm, ← Pending.drop_drop, Pending.tokens_drop, hlist, List.drop_left]
      rw [← hleft, Pending.tokens, Pending.join_eq, hnext, Pending.tokens, Pending.join_eq]
      rfl
    refine ⟨number, later, next, hadds.extends_store, hafter, hnext, hbehind, hadds.kind_eq,
      Cell.ofInt summands.total, hwhole.parse?_eq, ?_, ?_, ?_, ?_⟩
    · rw [Cell.signed_ofInt_eq_bmod, Summands.sum_leaves]
    · exact fun store hextends => (hwhole.extend hextends).readsAs
    · intro other hperm
      rw [Summands.total_eq_of_perm hperm, TokenStore.text, hadds.chars_eq, String.ofList_toList,
        Number.literal, Cell.signed_ofInt_eq_bmod]
    · intro hcaptures expanded store hrun
      rw [hafter.run_eq] at hrun
      obtain ⟨hextends, back, hback⟩ := exists_number_of_run
        (s := { s with lastTaken := _, store := later }) hcaptures hadds.kind_eq hbehind hrun
      exact ⟨(hwhole.extend hextends).readsAs, back, hback⟩
  · obtain ⟨producer, later, hextends, hfault⟩ := hsums.exists_fault hfull
    exact ⟨producer, later, hextends, (Reaches.head hstep .refl).run_eq.trans hfault⟩

/-- The largest signed number, and a sum with a minus sign before it. -/
def wrappedSum : TokenStore :=
  (TokenStore.empty.load "main" ".add(0x7fffffffffffffff, -.add(3, -4))".toList).2

/-- The sum is one more than the largest signed number and thus the smallest one. On a full stack
there is no room for the number of the inner sum. -/
theorem sum_folds_wrapped :
    let s : Expansion := start .standard (fun _ _ => none) wrappedSum
    let summands : Summands :=
      .number false (2 ^ 63 - 1) (.sum true (.number false 3 (.number true 4 .none)) .none)
    let room : Pending := .ofTokens (List.range 13)
    let full : Pending :=
      ⟨List.range 13 :: List.replicate 255 [], none,
        by rw [List.length_cons, List.length_replicate]⟩
    s.store.kind 0 = .directive ∧ s.store.directiveName 0 = "add" ∧
      s.store.kind 1 = .openParen ∧ s.store.Written .opened summands (List.range' 2 11) ∧
      room.Fits s.store (List.range 13) ∧ ¬ full.Fits s.store (List.range 13) ∧
      (∃ number later next, Reaches s room { s with lastTaken := none, store := later } next ∧
        next.tokens = [number] ∧ later.text number = "-9223372036854775808") ∧
      ∃ (producer : TokenId) (later : TokenStore), s.run full =
        .error (later.expansionFault producer "macro expansion nested too deeply") := by
  intro s summands room full
  have hkind : s.store.kind 0 = .directive := by decide +kernel
  have hname : s.store.directiveName 0 = "add" := by decide +kernel
  have hopening : s.store.kind 1 = .openParen := by decide +kernel
  have hspells : Number.Spells (s.store.chars 2) (.whole (2 ^ 63 - 1)) ∧
      Number.Spells (s.store.chars 7) (.whole 3) ∧ Number.Spells (s.store.chars 10) (.whole 4) := by
    have hmask : s.store.chars 2 = '0' :: 'x' :: '7' :: List.replicate 15 'f' := by decide +kernel
    have hthree : s.store.chars 7 = ['3'] := by decide +kernel
    have hfour : s.store.chars 10 = ['4'] := by decide +kernel
    rw [hmask, hthree, hfour]
    refine ⟨?_, ?_, ?_⟩
    · exact @Number.Spells.hexadecimal _ ('7' :: List.replicate 15 'f') (.inl rfl)
        ⟨by decide, by simp; decide⟩
    · exact @Number.Spells.decimal ['3'] ⟨by decide, by simp; decide⟩
    · exact @Number.Spells.decimal ['4'] ⟨by decide, by simp; decide⟩
  obtain ⟨hmask, hthree, hfour⟩ := hspells
  have hinner : s.store.Written .opened (.number false 3 (.number true 4 .none))
      [7, 8, 9, 10, 11] := by
    have hsecond : s.store.Written .separated (.number true 4 .none) [9, 10, 11] :=
      @TokenStore.Written.number _ _ true [9] 10 _ _ _ nofun (.minus (by decide +kernel))
        (by decide +kernel) hfour (by decide) (.closed nofun (by decide +kernel))
    exact @TokenStore.Written.number _ _ false [] 7 _ _ _ nofun .none (by decide +kernel) hthree
      (by decide) (.comma (by decide +kernel) hsecond)
  have hwritten : s.store.Written .opened summands (List.range' 2 11) := by
    have hsecond : s.store.Written .separated
        (.sum true (.number false 3 (.number true 4 .none)) .none) (List.range' 4 9) :=
      @TokenStore.Written.sum _ _ true [4] [7, 8, 9, 10, 11] 5 6 _ _ [12] nofun
        (.minus (by decide +kernel)) (by decide +kernel) (by decide +kernel) (by decide +kernel)
        hinner (.closed nofun (by decide +kernel))
    exact @TokenStore.Written.number _ _ false [] 2 _ _ _ nofun .none (by decide +kernel) hmask
      (by decide) (.comma (by decide +kernel) hsecond)
  have hroom : room.Fits s.store (List.range 13) := fun index _ _ _ =>
    Nat.lt_of_le_of_lt (room.length_frames_drop_le (index + 1)) (by decide)
  have hfull : ¬ full.Fits s.store (List.range 13) := fun hfits =>
    absurd (hfits 11 11 rfl (by decide +kernel)) (by decide +kernel)
  obtain ⟨hfolds, -⟩ := @sum_folds s room 0 1 (List.range' 2 11) [] summands hkind hname hopening
    hwritten rfl
  obtain ⟨number, later, next, -, hreaches, -, hnext, -, -, -, -, -, htext, -⟩ := hfolds hroom
  obtain ⟨-, hfaults⟩ := @sum_folds s full 0 1 (List.range' 2 11) _ summands hkind hname hopening
    hwritten rfl
  obtain ⟨producer, after, -, hfault⟩ := hfaults hfull
  exact ⟨hkind, hname, hopening, hwritten, hroom, hfull,
    ⟨number, later, next, hreaches, hnext, (htext summands (.refl _)).trans (by decide +kernel)⟩,
    producer, after, hfault⟩

end Expansion

end VectorStack
