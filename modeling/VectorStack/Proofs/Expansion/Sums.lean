import Mathlib.Algebra.BigOperators.Group.List.Basic
import Mathlib.Algebra.Group.Int.Defs
import VectorStack.Proofs.Expansion.QualifiedNames
import VectorStack.Proofs.Token.NumberLexeme
/-!
Sums of whole numbers. The arguments of a sum are numbers in any radix and sums, each with a minus
sign before it or none. Inner sums are added up while the list is read: each becomes one number,
which is read next as if it had been written there. What a list leaves is one number, the sum of all
its numbers modulo `2 ^ 64`, in place of the directive and its list.
-/

namespace VectorStack

namespace Cell

theorem signed_ofInt_eq_bmod (n : Int) : (ofInt n).signed = Int.bmod n (2 ^ 64) := by
  rw [signed_eq_bmod, toNat_ofInt]
  exact Int.emod_bmod n (2 ^ 64)

/-- A cell is known by what it stands for modulo `2 ^ 64`. -/
theorem eq_ofInt_of_signed_eq {cell : Cell} {n : Int}
    (hsigned : cell.signed = Int.bmod n (2 ^ 64)) : cell = ofInt n := by
  rw [← ofInt_signed cell, ← ofInt_signed (ofInt n), hsigned, signed_ofInt_eq_bmod]

theorem ofInt_add (first second : Int) : ofInt (first + second) = ofInt first + ofInt second := by
  have hfirst := toNat_ofInt first
  have hsecond := toNat_ofInt second
  have hsum := toNat_ofInt (first + second)
  apply UInt64.toNat_inj.mp
  rw [UInt64.toNat_add]
  omega

theorem ofInt_neg (n : Int) : ofInt (-n) = 0 - ofInt n := by
  have hcell := toNat_ofInt n
  have hneg := toNat_ofInt (-n)
  have hlt := (ofInt n).toNat_lt
  apply UInt64.toNat_inj.mp
  rw [UInt64.toNat_sub, UInt64.toNat_zero]
  omega

end Cell

/-- A whole number that is printed as a literal is read again as the same. -/
theorem Number.parse?_literal (cell : Cell) :
    parse? (literal (.integer cell)).toList = some (.integer cell) := by
  obtain ⟨hlow, hhigh⟩ := cell.signed_bounds
  obtain ⟨found, hparse, hsigned⟩ := exists_parse?_repr hlow hhigh
  rw [literal, hparse, ← Cell.ofInt_signed found, hsigned, Cell.ofInt_signed]

/-- A list of whole numbers and of such lists, each with a minus sign before it or without. -/
inductive Summands where
  | none
  | number (negative : Bool) (n : Nat) (rest : Summands)
  | sum (negative : Bool) (inner rest : Summands)

namespace Summands

/-- Turn the sign of a number behind a minus sign. -/
def signed (negative : Bool) (n : Int) : Int := if negative then -n else n

/-- All numbers of a list, with the signs before them and before the lists that they are in. -/
def leaves : Summands → List Int
  | none => []
  | number negative n rest => signed negative n :: rest.leaves
  | sum negative inner rest => inner.leaves.map (signed negative) ++ rest.leaves

def total : Summands → Int
  | none => 0
  | number negative n rest => signed negative n + rest.total
  | sum negative inner rest => signed negative inner.total + rest.total

theorem sum_map_signed (negative : Bool) (numbers : List Int) :
    (numbers.map (signed negative)).sum = signed negative numbers.sum := by
  cases negative with
  | false =>
      have hsame : signed false = id := rfl
      rw [hsame, List.map_id]
      rfl
  | true =>
      change (numbers.map fun n => -n).sum = -numbers.sum
      exact (List.sum_neg numbers).symm

/-- However a list is grouped, its numbers are what it adds up. -/
theorem sum_leaves (summands : Summands) : summands.leaves.sum = summands.total := by
  induction summands with
  | none => rfl
  | number negative n rest ih => rw [leaves, List.sum_cons, ih, total]
  | sum negative inner rest hinner hrest =>
      rw [leaves, List.sum_append, sum_map_signed, hinner, hrest, total]

/-- Lists with the same numbers have the same sum, in whatever order and groups. -/
theorem total_eq_of_perm {first second : Summands} (hperm : first.leaves.Perm second.leaves) :
    first.total = second.total := by
  rw [← sum_leaves, ← sum_leaves, hperm.sum_eq]

/-- A stage of a list: behind the parenthesis that opens it, behind a comma, or behind an
argument. -/
inductive Stage where
  | opened
  | separated
  | filled

end Summands

namespace TokenStore

open Summands (Stage)

variable {store later : TokenStore} {id : TokenId}

/-- A token keeps its kind in a later store, unless it is a line end. -/
theorem Extends.kind_of_eq {kind : TokenKind} (hextends : store.Extends later)
    (hkind : store.kind id = kind) (hne : kind ≠ .lineEnd) : later.kind id = kind := by
  rw [← hkind] at hne ⊢
  refine hextends.kind_eq (Nat.lt_of_not_le fun hle => hne ?_)
  rw [TokenStore.kind, token_of_size_le hle]
  rfl

/-- A token with characters keeps them in a later store. -/
theorem Extends.chars_of_ne (hextends : store.Extends later) (hchars : store.chars id ≠ []) :
    later.chars id = store.chars id := by
  refine hextends.chars_eq (Nat.lt_of_not_le fun hle => hchars ?_) hchars
  rw [chars, token_of_size_le hle]
  exact congrArg Array.toList Array.extract_zero

/-- A directive that has a name keeps it in a later store. -/
theorem Extends.directiveName_of_eq {name : String} (hextends : store.Extends later)
    (hname : store.directiveName id = name) (hne : name ≠ "") : later.directiveName id = name := by
  have hchars : store.chars id ≠ [] := by
    intro hnil
    rw [directiveName, hnil] at hname
    exact hne hname.symm
  rw [← hname, directiveName, directiveName, hextends.chars_of_ne hchars]

/-- A sign before a number, or none. -/
inductive IsSign (store : TokenStore) : Bool → List TokenId → Prop
  | none : IsSign store false []
  | minus {sign : TokenId} (hkind : store.kind sign = .minus) : IsSign store true [sign]

/-- A token is read as a whole number. -/
structure IsWhole (store : TokenStore) (number : TokenId) (value : Int) : Prop where
  kind_eq : store.kind number = .number
  parse?_eq : Number.parse? (store.chars number) = some (.integer (Cell.ofInt value))

/-- An argument that is a whole number, behind a sign or none. -/
inductive IsSummand (store : TokenStore) : List TokenId → Int → Prop
  | intro {negative : Bool} {sign : List TokenId} {number : TokenId} {value : Int}
      (hsign : store.IsSign negative sign) (hwhole : store.IsWhole number value) :
      IsSummand store (sign ++ [number]) (Summands.signed negative value)

/-- The tokens from a stage of a list of summands on, with the parenthesis that closes it. -/
inductive Written (store : TokenStore) : Stage → Summands → List TokenId → Prop
  | closed {stage : Stage} {closing : TokenId} (hstage : stage ≠ .separated)
      (hclosing : store.kind closing = .closeParen) : Written store stage .none [closing]
  | comma {comma : TokenId} {rest : Summands} {tokens : List TokenId}
      (hcomma : store.kind comma = .comma) (hrest : Written store .separated rest tokens) :
      Written store .filled rest (comma :: tokens)
  | number {stage : Stage} {negative : Bool} {sign : List TokenId} {number : TokenId} {n : Nat}
      {rest : Summands} {tokens : List TokenId} (hstage : stage ≠ .filled)
      (hsign : store.IsSign negative sign) (hkind : store.kind number = .number)
      (hspells : Number.Spells (store.chars number) (.whole n)) (hlt : n < 2 ^ 64)
      (hrest : Written store .filled rest tokens) :
      Written store stage (.number negative n rest) (sign ++ number :: tokens)
  | sum {stage : Stage} {negative : Bool} {sign inner : List TokenId}
      {directive opening : TokenId} {summands rest : Summands} {tokens : List TokenId}
      (hstage : stage ≠ .filled) (hsign : store.IsSign negative sign)
      (hdirective : store.kind directive = .directive)
      (hname : store.directiveName directive = "add")
      (hopening : store.kind opening = .openParen)
      (hinner : Written store .opened summands inner)
      (hrest : Written store .filled rest tokens) :
      Written store stage (.sum negative summands rest)
        (sign ++ directive :: opening :: (inner ++ tokens))

variable {negative : Bool} {sign argument : List TokenId} {number : TokenId} {value : Int}

theorem IsSign.extend (hsign : store.IsSign negative sign) (hextends : store.Extends later) :
    later.IsSign negative sign := by
  cases hsign with
  | none => exact .none
  | minus hkind => exact .minus (hextends.kind_of_eq hkind nofun)

theorem IsWhole.extend (hwhole : store.IsWhole number value) (hextends : store.Extends later) :
    later.IsWhole number value := by
  have hchars : store.chars number ≠ [] := by
    intro hnil
    have hparse := hwhole.parse?_eq
    rw [hnil] at hparse
    cases hparse
  exact ⟨hextends.kind_of_eq hwhole.kind_eq nofun, by
    rw [hextends.chars_of_ne hchars, hwhole.parse?_eq]⟩

theorem IsSummand.extend (hsummand : store.IsSummand argument value)
    (hextends : store.Extends later) : later.IsSummand argument value := by
  cases hsummand with
  | intro hsign hwhole => exact .intro (hsign.extend hextends) (hwhole.extend hextends)

theorem IsSign.kind_eq (hsign : store.IsSign negative sign) :
    ∀ token ∈ sign, store.kind token = .minus := by
  cases hsign with
  | none => nofun
  | minus hkind => simpa using hkind

theorem IsSign.kind_append (hsign : store.IsSign negative sign)
    (hkind : store.kind number = .number) :
    ∀ token ∈ sign ++ [number], store.kind token = .minus ∨ store.kind token = .number := by
  intro token hmem
  rcases List.mem_append.mp hmem with hsigned | hlast
  · exact .inl (hsign.kind_eq token hsigned)
  · exact .inr (List.mem_singleton.mp hlast ▸ hkind)

/-- There is always a token that closes a list. -/
theorem Written.ne_nil {stage : Stage} {summands : Summands} {tokens : List TokenId}
    (hwritten : store.Written stage summands tokens) : tokens ≠ [] := by
  cases hwritten with
  | closed | comma => exact List.cons_ne_nil _ _
  | number | sum => exact List.append_ne_nil_of_right_ne_nil _ (List.cons_ne_nil _ _)

/-- A literal of at most 64 bits is a whole number in every radix. -/
theorem isWhole_of_spells {n : Nat} (hkind : store.kind number = .number)
    (hspells : Number.Spells (store.chars number) (.whole n)) (hlt : n < 2 ^ 64) :
    store.IsWhole number n := by
  have hread := hspells.readAs
  rw [Number.Spelling.ReadAs, if_pos hlt] at hread
  obtain ⟨cell, hparse, hsigned⟩ := hread
  exact ⟨hkind, by rw [hparse, Cell.eq_ofInt_of_signed_eq hsigned]⟩

/-- In a later store there is a new number that is written as the literal of a sum. -/
structure Adds (store later : TokenStore) (number : TokenId) (sum : Int) : Prop where
  extends_store : store.Extends later
  lt_size : number < later.size
  kind_eq : later.kind number = .number
  chars_eq : later.chars number = (Number.literal (.integer (Cell.ofInt sum))).toList

theorem Adds.isWhole {sum : Int} (hadds : store.Adds later number sum) :
    later.IsWhole number sum :=
  ⟨hadds.kind_eq, by rw [hadds.chars_eq, Number.parse?_literal]⟩

theorem Adds.of_extends {middle : TokenStore} {sum : Int} (hextends : store.Extends middle)
    (hadds : middle.Adds later number sum) : store.Adds later number sum :=
  ⟨hextends.trans hadds.extends_store, hadds.lt_size, hadds.kind_eq, hadds.chars_eq⟩

theorem synthesizeToken_number (store : TokenStore) (producer : TokenId) (sum : Int) :
    ∃ number later, store.synthesizeToken producer .number
        (Number.literal (.integer (Cell.ofInt sum))).toList = (number, later) ∧
      store.Adds later number sum := by
  let digits := (Number.literal (.integer (Cell.ofInt sum))).toList
  let made : Token := ⟨.number, store.sources.size, 0, digits.length, some producer⟩
  have htoken :
      (store.synthesizeToken producer .number digits).2.token store.tokens.size = made := by
    change (store.tokens.push made).getD store.tokens.size default = made
    rw [Array.getD_eq_getD_getElem?, Array.getElem?_push_size, Option.getD_some]
  have hsource : (store.synthesizeToken producer .number digits).2.source store.sources.size =
      ⟨expansionName, digits.toArray, some producer⟩ := by
    change (store.sources.push _).getD store.sources.size default = _
    rw [Array.getD_eq_getD_getElem?, Array.getElem?_push_size, Option.getD_some]
  refine ⟨_, _, rfl, ⟨⟨_, Array.push_eq_append⟩, ⟨_, Array.push_eq_append⟩⟩, ?_, ?_, ?_⟩
  · change store.tokens.size < (store.tokens.push made).size
    rw [Array.size_push]
    exact Nat.lt_succ_self _
  · change ((store.synthesizeToken producer .number digits).2.token store.tokens.size).kind = _
    rw [htoken]
  · change (store.synthesizeToken producer .number digits).2.chars store.tokens.size = digits
    rw [chars, htoken, hsource]
    simp [made]

end TokenStore

namespace Expansion

variable {s : Expansion} {arguments : List (List TokenId)} {values : List Int}
  {argument : List TokenId} {value : Int}

theorem literal_of_isWhole {number : TokenId} (hwhole : s.store.IsWhole number value) :
    s.literal number = .ok (.integer (Cell.ofInt value)) := by
  rw [literal, if_pos hwhole.kind_eq, hwhole.parse?_eq]

theorem summand_of_isSummand (hsummand : s.store.IsSummand argument value) (directive : TokenId) :
    s.summand directive argument = .ok (.integer (Cell.ofInt value), none) := by
  cases hsummand with
  | intro hsign hwhole =>
      cases hsign with
      | none =>
          change (s.literal _ >>= _) = _
          rw [literal_of_isWhole hwhole]
          rfl
      | minus hkind =>
          have hneg : Summands.signed true = fun n : Int => -n := rfl
          rw [List.singleton_append, summand, hkind]
          dsimp only
          rw [literal_of_isWhole hwhole, hneg, Cell.ofInt_neg]
          rfl

/-- Whole numbers are added up, and none of them is a width. -/
theorem sumFrom_of_isSummand (harguments : List.Forall₂ s.store.IsSummand arguments values)
    (directive : TokenId) (sum : Int) (widths : Option Bool) (hwidths : widths ≠ some true) :
    ∃ after, after ≠ some true ∧
      s.sumFrom directive (.integer (Cell.ofInt sum)) widths arguments =
        .ok (.integer (Cell.ofInt (sum + values.sum)), after) := by
  induction harguments generalizing sum widths with
  | nil => exact ⟨widths, hwidths, by rw [List.sum_nil, add_zero, sumFrom]⟩
  | @cons argument value arguments values hsummand _ ih =>
      obtain ⟨after, hafter, hrest⟩ := ih (sum + value) (some false) nofun
      have hmixed : widths.any (· != false) = false := by
        rcases widths with _ | _ | _
        · rfl
        · rfl
        · exact absurd rfl hwidths
      refine ⟨after, hafter, ?_⟩
      rw [List.sum_cons, ← add_assoc, ← hrest, sumFrom, summand_of_isSummand hsummand,
        Cell.ofInt_add]
      change (if widths.any (· != false) = true then _ else _) = _
      rw [hmixed]
      rfl

/-- A list of whole numbers leaves their sum. -/
theorem finishCapture_sum {capture : Capture} (hsplice : capture.splice = .sum)
    (harguments : List.Forall₂ s.store.IsSummand arguments values) (tokens : List TokenId) :
    ∃ number later, s.store.Adds later number values.sum ∧
      s.finishCapture capture arguments tokens =
        .ok ⟨{ s with store := later }, 0, some [number], capture.directive⟩ := by
  obtain ⟨widths, hwidths, hsum⟩ :=
    sumFrom_of_isSummand harguments capture.directive 0 none nofun
  obtain ⟨number, later, hmade, hadds⟩ :=
    s.store.synthesizeToken_number capture.directive values.sum
  have hstar : (widths == some true) = false := beq_false_of_ne hwidths
  refine ⟨number, later, hadds, ?_⟩
  rw [zero_add] at hsum
  rw [finishCapture, hsplice]
  dsimp only
  change (s.sumFrom capture.directive (.integer (Cell.ofInt 0)) none arguments >>= _) = _
  rw [hsum]
  dsimp only [bind, Except.bind]
  rw [hstar, Bool.false_and, if_neg Bool.false_ne_true, hmade]
  rfl

end Expansion

namespace ArgumentReader

open Summands (Stage)

/-- The arguments read up to a stage are whole numbers. -/
inductive Holds (store : TokenStore) : Stage → ArgumentReader → List Int → Prop
  | opened : Holds store .opened .start []
  | separated {finished : List (List TokenId)} {values : List Int}
      (hfinished : List.Forall₂ store.IsSummand finished.reverse values) :
      Holds store .separated ⟨finished, [], 0⟩ values
  | filled {finished : List (List TokenId)} {argument : List TokenId} {values : List Int}
      {value : Int} (hfinished : List.Forall₂ store.IsSummand finished.reverse values)
      (hargument : store.IsSummand argument value) :
      Holds store .filled ⟨finished, argument.reverse, 0⟩ (values ++ [value])

variable {store later : TokenStore} {stage : Stage} {reader : ArgumentReader}
  {values : List Int}

theorem Holds.extend (hholds : Holds store stage reader values) (hextends : store.Extends later) :
    Holds later stage reader values := by
  cases hholds with
  | opened => exact .opened
  | separated hfinished => exact .separated (hfinished.imp fun _ _ h => h.extend hextends)
  | filled hfinished hargument =>
      exact .filled (hfinished.imp fun _ _ h => h.extend hextends) (hargument.extend hextends)

/-- An argument comes behind those before it. -/
theorem Holds.append (hholds : Holds store stage reader values) (hstage : stage ≠ .filled)
    {argument : List TokenId} {value : Int} (hargument : store.IsSummand argument value) :
    Holds store .filled { reader with current := argument.reverse ++ reader.current }
      (values ++ [value]) := by
  cases hholds with
  | opened =>
      rw [start, List.append_nil]
      exact .filled .nil hargument
  | separated hfinished =>
      rw [List.append_nil]
      exact .filled hfinished hargument
  | filled => exact absurd rfl hstage

theorem Holds.feed_comma (hholds : Holds store .filled reader values) (comma : TokenId) :
    ∃ after, reader.feed none .comma comma = .inl after ∧ Holds store .separated after values := by
  cases hholds with
  | @filled finished argument values value hfinished hargument =>
      refine ⟨⟨argument.reverse.reverse :: finished, [], 0⟩, rfl, .separated ?_⟩
      rw [List.reverse_reverse, List.reverse_cons]
      exact List.rel_append hfinished (.cons hargument .nil)

theorem Holds.feed_closeParen (hholds : Holds store stage reader values)
    (hstage : stage ≠ .separated) (closing : TokenId) :
    ∃ arguments, reader.feed none .closeParen closing = .inr arguments ∧
      List.Forall₂ store.IsSummand arguments values := by
  cases hholds with
  | opened => exact ⟨[], rfl, .nil⟩
  | separated => exact absurd rfl hstage
  | @filled finished argument values value hfinished hargument =>
      have hsome : argument.reverse.isEmpty = false := by
        cases hargument
        simp
      refine ⟨finished.reverse ++ [argument], ?_, List.rel_append hfinished (.cons hargument .nil)⟩
      change Sum.inr (arguments ⟨finished, argument.reverse, 0⟩) = _
      rw [arguments, hsome, Bool.and_false, if_neg Bool.false_ne_true, List.reverse_reverse,
        List.reverse_cons]

end ArgumentReader

/-- The list with more tokens in the argument that is being read. -/
def Capture.append (capture : Capture) (tokens : List TokenId) : Capture :=
  { capture with
    reader := { capture.reader with current := tokens.reverse ++ capture.reader.current } }

theorem Capture.append_append (capture : Capture) (tokens more : List TokenId) :
    (capture.append tokens).append more = capture.append (tokens ++ more) := by
  simp [append]

namespace Pending

variable {pending other : Pending} {store : TokenStore} {token : TokenId}
  {tokens front more : List TokenId}

/-- The stack has room for one list more behind every closing parenthesis of the tokens that are
read next. -/
def Fits (pending : Pending) (store : TokenStore) (tokens : List TokenId) : Prop :=
  ∀ (index : Nat) (closing : TokenId), tokens[index]? = some closing →
    store.kind closing = .closeParen → (pending.drop (index + 1)).frames.length < maxFrames

theorem fits_append_iff : pending.Fits store (front ++ tokens) ↔
    pending.Fits store front ∧ (pending.drop front.length).Fits store tokens := by
  constructor
  · intro hfits
    constructor
    · intro index closing hclosing hkind
      obtain ⟨hlt, -⟩ := List.getElem?_eq_some_iff.mp hclosing
      exact hfits index closing ((List.getElem?_append_left hlt).trans hclosing) hkind
    · intro index closing hclosing hkind
      rw [drop_drop, ← Nat.add_assoc]
      refine hfits (front.length + index) closing ?_ hkind
      rw [List.getElem?_append_right (Nat.le_add_right _ _), Nat.add_sub_cancel_left, hclosing]
  · rintro ⟨hfront, hrest⟩ index closing hclosing hkind
    by_cases hlt : index < front.length
    · exact hfront index closing ((List.getElem?_append_left hlt).symm.trans hclosing) hkind
    · have hle := Nat.not_lt.mp hlt
      rw [List.getElem?_append_right hle] at hclosing
      have hroom := hrest _ closing hclosing hkind
      rw [drop_drop, ← Nat.add_assoc, Nat.add_sub_cancel' hle] at hroom
      exact hroom

/-- Tokens that close no list need no room. -/
theorem fits_append_iff_of_kind_ne (hfront : ∀ token ∈ front, store.kind token ≠ .closeParen) :
    pending.Fits store (front ++ tokens) ↔ (pending.drop front.length).Fits store tokens := by
  refine fits_append_iff.trans (and_iff_right ?_)
  intro index closing hclosing hkind
  exact absurd hkind (hfront closing (List.mem_of_getElem? hclosing))

/-- There is room for the argument that an inner sum is if there is for the list of the sum, and for
what follows this list. -/
theorem fits_sum_iff {negative : Bool} {sign inner : List TokenId} {directive opening : TokenId}
    (hsign : store.IsSign negative sign) (hdirective : store.kind directive = .directive)
    (hopening : store.kind opening = .openParen) :
    pending.Fits store (sign ++ directive :: opening :: (inner ++ tokens)) ↔
      (pending.drop (sign.length + 2)).Fits store inner ∧
        (pending.drop (sign.length + 2 + inner.length)).Fits store tokens := by
  have hfront : ∀ token ∈ sign ++ [directive, opening], store.kind token ≠ .closeParen := by
    intro token hmem
    rcases List.mem_append.mp hmem with hsigned | hopened
    · simp [hsign.kind_eq token hsigned]
    · rcases List.mem_pair.mp hopened with rfl | rfl <;> simp [hdirective, hopening]
  have hsplit : sign ++ directive :: opening :: (inner ++ tokens) =
      (sign ++ [directive, opening]) ++ (inner ++ tokens) := by simp
  rw [hsplit, fits_append_iff_of_kind_ne hfront, fits_append_iff, drop_drop, List.length_append]
  rfl

/-- Stacks from which the same is read next are the same once it is read. -/
theorem drop_succ_of_read?_eq (hread : pending.read? = other.read?)
    (htokens : pending.tokens = token :: more) (count : Nat) :
    pending.drop (count + 1) = other.drop (count + 1) := by
  obtain ⟨left, hleft, -⟩ := exists_read?_of_tokens htokens
  rw [drop_succ_of_read? hleft, drop_succ_of_read? (hread ▸ hleft)]

theorem fits_iff_of_read?_eq (hread : pending.read? = other.read?)
    (htokens : pending.tokens = token :: more) :
    pending.Fits store tokens ↔ other.Fits store tokens := by
  unfold Fits
  simp only [drop_succ_of_read?_eq hread htokens]

/-- A list that is used up does not count for what is read next. -/
theorem read?_of_used_up (hframes : pending.frames = [] :: other.frames) :
    pending.read? = other.read? := by
  have hsame : readFrames pending.frames = readFrames other.frames := by rw [hframes, readFrames]
  unfold read?
  split
  · next hnone =>
      split
      · rfl
      · next hsome => cases (hnone.symm.trans hsame).trans hsome
  · next hsome =>
      split
      · next hnone => cases (hsome.symm.trans hsame).trans hnone
      · next hother =>
          cases (hsome.symm.trans hsame).trans hother
          rfl

end Pending

namespace Expansion

open Summands (Stage)

variable {s : Expansion} {pending next : Pending} {capture : Capture} {outer : List Capture}
  {reader : ArgumentReader} {token directive opening number : TokenId}
  {tokens more : List TokenId}

/-- A token that belongs to an argument list is read as part of it. -/
theorem step_feed (hcaptures : s.captures = capture :: outer)
    (htokens : pending.tokens = token :: more) (hline : s.store.kind token ≠ .lineEnd)
    (hdirective : s.store.kind token ≠ .directive)
    (hfeed : capture.reader.feed none (s.store.kind token) token = .inl reader) :
    s.step pending =
      .ok ({ s with captures := { capture with reader } :: outer }, some (pending.drop 1)) := by
  refine @step_drop s { s with captures := { capture with reader } :: outer } pending token more 0
    0 token htokens ?_
  rw [react_eq_feedCapture hcaptures, feedCapture]
  split
  · next hkind => exact absurd hkind hline
  · next hkind => exact absurd hkind hdirective
  · rw [hfeed]
    rfl

/-- Signs and numbers are put behind what there is of an argument. -/
theorem reaches_append (hcaptures : s.captures = capture :: outer)
    (htokens : pending.tokens = tokens ++ more)
    (hkinds : ∀ token ∈ tokens, s.store.kind token = .minus ∨ s.store.kind token = .number) :
    Reaches s pending { s with captures := capture.append tokens :: outer }
      (pending.drop tokens.length) := by
  induction tokens generalizing s pending capture with
  | nil =>
      change Reaches s pending { s with captures := capture :: outer } pending
      rw [← hcaptures]
      exact .refl
  | cons token tokens ih =>
      obtain ⟨hkind, hkinds⟩ := List.forall_mem_cons.mp hkinds
      have hfeed : capture.reader.feed none (s.store.kind token) token =
          .inl (capture.append [token]).reader := by
        rcases hkind with hkind | hkind <;> rw [hkind] <;> rfl
      have hstep := step_feed hcaptures htokens (by rcases hkind with h | h <;> simp [h])
        (by rcases hkind with h | h <;> simp [h]) hfeed
      have hbehind : (pending.drop 1).tokens = tokens ++ more := by
        rw [Pending.tokens_drop, htokens]
        rfl
      have hrest := @ih { s with captures := capture.append [token] :: outer } (pending.drop 1)
        (capture.append [token]) rfl hbehind hkinds
      rw [Pending.drop_drop, Nat.add_comm, Capture.append_append] at hrest
      exact .head hstep hrest

/-- A number on top of the stack is read into the argument, and what comes next is what is below. -/
theorem reaches_pushed {below : Pending} (hcaptures : s.captures = capture :: outer)
    (hkind : s.store.kind number = .number) (hframes : pending.frames = [number] :: below.frames) :
    Reaches s pending { s with captures := capture.append [number] :: outer } (pending.drop 1) ∧
      (pending.drop 1).tokens = below.tokens ∧ (pending.drop 1).read? = below.read? := by
  have hleft : (pending.drop 1).frames = [] :: below.frames :=
    @Pending.frames_drop pending [number] [] below.frames hframes
  have htokens : pending.tokens = [number] ++ below.tokens := by
    rw [Pending.tokens, Pending.join_eq, hframes, Pending.tokens, Pending.join_eq]
    rfl
  refine ⟨?_, ?_, Pending.read?_of_used_up hleft⟩
  · exact reaches_append hcaptures htokens fun token hmem =>
      .inr (List.mem_singleton.mp hmem ▸ hkind)
  · rw [Pending.tokens_drop, htokens]
    rfl

/-- A list that there is room for comes on top of what is left. -/
theorem exists_advance {reaction : Reaction} {frame : List TokenId}
    (hframe : reaction.frame = some frame)
    (hroom : (pending.drop reaction.consumed).frames.length < Pending.maxFrames) :
    ∃ next, advance reaction pending = .ok next ∧
      next.frames = frame :: (pending.drop reaction.consumed).frames := by
  refine ⟨⟨frame :: (pending.drop reaction.consumed).frames, (pending.drop reaction.consumed).last,
    hroom⟩, ?_, rfl⟩
  rw [advance, hframe]
  dsimp only
  rw [Pending.push?, dif_pos hroom]

theorem direct_sum (hname : s.store.directiveName directive = "add")
    (hopening : s.store.kind opening = .openParen) (before : Option Bool)
    (previous : Option TokenId) :
    ∃ afterStar, s.direct directive before previous (opening :: more) =
      .ok ⟨{ s with captures := ⟨.sum, directive, opening, afterStar, .start⟩ :: s.captures }, 1,
        none, directive⟩ := by
  have hdirective : Directive.ofName? (s.store.directiveName directive) = some (.splice .sum) := by
    rw [hname]
    rfl
  have hexpect : s.store.expect directive .openParen "`(`" (opening :: more) =
      .ok (opening, more) := if_pos hopening
  rw [TokenStore.directiveName] at hdirective
  refine ⟨previous.map s.store.kind == some .star, ?_⟩
  rw [direct, hdirective]
  dsimp only
  rw [startCapture, hexpect]
  rfl

/-- A sum starts to be read with the parenthesis that opens its list. -/
theorem step_sum (hkind : s.store.kind directive = .directive)
    (hname : s.store.directiveName directive = "add")
    (hopening : s.store.kind opening = .openParen)
    (htokens : pending.tokens = directive :: opening :: more) :
    ∃ afterStar, s.step pending = .ok ({ s with
        lastTaken := if s.captures.isEmpty then none else s.lastTaken
        captures := ⟨.sum, directive, opening, afterStar, .start⟩ :: s.captures },
      some (pending.drop 2)) := by
  have hbehind : (pending.drop 1).tokens = opening :: more := by
    rw [Pending.tokens_drop, htokens]
    rfl
  cases hcaptures : s.captures with
  | nil =>
      obtain ⟨afterStar, hdirect⟩ := @direct_sum { s with lastTaken := none } directive opening more
        hname hopening s.lastTaken (pending.drop 0).last
      refine ⟨afterStar,
        @step_drop s _ pending directive (opening :: more) 0 1 directive htokens ?_⟩
      rw [react_eq_process hcaptures, process, hkind]
      change direct _ _ _ _ (pending.drop 1).tokens = _
      rw [hbehind, hdirect, hcaptures]
      rfl
  | cons capture outer =>
      obtain ⟨afterStar, hdirect⟩ :=
        @direct_sum s directive opening more hname hopening none (pending.drop 0).last
      refine ⟨afterStar,
        @step_drop s _ pending directive (opening :: more) 0 1 directive htokens ?_⟩
      rw [react_eq_feedCapture hcaptures, feedCapture, hkind]
      change direct _ _ _ _ (pending.drop 1).tokens = _
      rw [hbehind, hdirect, hcaptures]
      rfl

/-- An inner sum starts to be read behind its sign. -/
theorem reaches_opened {negative : Bool} {sign : List TokenId}
    (hcaptures : s.captures = capture :: outer) (hsign : s.store.IsSign negative sign)
    (hkind : s.store.kind directive = .directive)
    (hname : s.store.directiveName directive = "add")
    (hopening : s.store.kind opening = .openParen)
    (htokens : pending.tokens = sign ++ directive :: opening :: more) :
    ∃ afterStar, Reaches s pending { s with
        captures := ⟨.sum, directive, opening, afterStar, .start⟩ :: capture.append sign :: outer }
      (pending.drop (sign.length + 2)) ∧
      (pending.drop (sign.length + 2)).tokens = more := by
  have hsigned := reaches_append hcaptures htokens fun token hmem => .inl (hsign.kind_eq token hmem)
  have hlist : (pending.drop sign.length).tokens = directive :: opening :: more := by
    rw [Pending.tokens_drop, htokens, List.drop_left]
  obtain ⟨afterStar, hstep⟩ :=
    @step_sum { s with captures := capture.append sign :: outer } _ directive opening _ hkind hname
      hopening hlist
  refine ⟨afterStar, ?_, ?_⟩
  · rw [Pending.drop_drop] at hstep
    exact .step hsigned hstep
  · rw [← Pending.drop_drop, Pending.tokens_drop, hlist]
    rfl

/-- Reading on leads to a number for a sum on top of what is left behind its list, or to a fault if
the stack has no room on the way. -/
structure SumsTo (s : Expansion) (pending : Pending) (outer : List Capture) (sum : Int)
    (left : Pending) (fits : Prop) : Prop where
  exists_number : fits → ∃ number later next, s.store.Adds later number sum ∧
    Reaches s pending { s with captures := outer, store := later } next ∧
    next.frames = [number] :: left.frames
  exists_fault : ¬ fits → ∃ directive later, s.store.Extends later ∧
    s.run pending = .error (later.expansionFault directive "macro expansion nested too deeply")

/-- What a state on the way leads to. -/
theorem SumsTo.of_reaches {middle : Expansion} {between left : Pending} {sum : Int} {fits : Prop}
    (hsums : middle.SumsTo between outer sum left fits)
    (hreaches : Reaches s pending middle between) (hextends : s.store.Extends middle.store)
    (hsame : ∀ later, { middle with captures := outer, store := later } =
      { s with captures := outer, store := later }) :
    s.SumsTo pending outer sum left fits := by
  refine ⟨fun hfits => ?_, fun hfull => ?_⟩
  · obtain ⟨number, later, next, hadds, hnumber, hnext⟩ := hsums.exists_number hfits
    exact ⟨number, later, next, hadds.of_extends hextends, hreaches.trans (hsame later ▸ hnumber),
      hnext⟩
  · obtain ⟨directive, later, hlater, hfault⟩ := hsums.exists_fault hfull
    exact ⟨directive, later, hextends.trans hlater, hreaches.run_eq.trans hfault⟩

/-- Tokens of an argument that close no list are read before what follows them. -/
theorem SumsTo.of_front {middle : Expansion} {store : TokenStore} {front : List TokenId} {sum : Int}
    (hsums : middle.SumsTo (pending.drop front.length) outer sum
      ((pending.drop front.length).drop tokens.length)
      ((pending.drop front.length).Fits store tokens))
    (hreaches : Reaches s pending middle (pending.drop front.length))
    (hfront : ∀ token ∈ front, store.kind token ≠ .closeParen)
    (hextends : s.store.Extends middle.store)
    (hsame : ∀ later, { middle with captures := outer, store := later } =
      { s with captures := outer, store := later }) :
    s.SumsTo pending outer sum (pending.drop (front ++ tokens).length)
      (pending.Fits store (front ++ tokens)) := by
  rw [Pending.fits_append_iff_of_kind_ne hfront, List.length_append, ← Pending.drop_drop]
  exact hsums.of_reaches hreaches hextends hsame

/-- A sum in a list becomes a number of the list, and then the rest of the list is read. -/
theorem SumsTo.followed {below last : Pending} {sum total : Int} {fits rest : Prop}
    (hinner : s.SumsTo pending (capture :: outer) sum below fits)
    (hrest : ∀ number later left, s.store.Adds later number sum → left.read? = below.read? →
      left.tokens = below.tokens →
      SumsTo { s with captures := capture.append [number] :: outer, store := later } left outer
        total last rest) :
    s.SumsTo pending outer total last (fits ∧ rest) := by
  by_cases hfits : fits
  · obtain ⟨number, later, next, hadds, hreaches, hnext⟩ := hinner.exists_number hfits
    obtain ⟨hnumber, hleft, hread⟩ :=
      @reaches_pushed { s with captures := capture :: outer, store := later } next capture outer
        number below rfl hadds.kind_eq hnext
    rw [and_iff_right hfits]
    exact (hrest number later _ hadds hread hleft).of_reaches (hreaches.trans hnumber)
      hadds.extends_store fun _ => rfl
  · exact ⟨fun hall => absurd hall.1 hfits, fun _ => hinner.exists_fault hfits⟩

/-- What follows is the same for stacks from which the same is read. -/
theorem SumsTo.of_read?_eq {left below : Pending} {store : TokenStore} {sum : Int}
    (hsums : s.SumsTo left outer sum (left.drop tokens.length) (left.Fits store tokens))
    (hread : left.read? = below.read?) (hne : tokens ≠ [])
    (htokens : left.tokens = tokens ++ more) :
    s.SumsTo left outer sum (below.drop tokens.length) (below.Fits store tokens) := by
  obtain ⟨first, others, rfl⟩ := List.exists_cons_of_ne_nil hne
  rw [List.length_cons, Pending.drop_succ_of_read?_eq hread htokens,
    Pending.fits_iff_of_read?_eq hread htokens] at hsums
  exact hsums

/-- The list of a sum is being read. Whole numbers were found in it up to a stage, and these tokens
come next. -/
structure Summing (store : TokenStore) (stage : Stage) (tokens : List TokenId) (s : Expansion)
    (pending : Pending) (capture : Capture) (outer : List Capture) (values : List Int) : Prop where
  extends_store : store.Extends s.store
  captures_eq : s.captures = capture :: outer
  splice_eq : capture.splice = .sum
  holds : ArgumentReader.Holds s.store stage capture.reader values
  tokens_eq : pending.tokens = tokens

/-- Wherever a list is read at this stage, the tokens leave the sum of what was found and of their
numbers, put on top of what comes behind them. -/
def Folds (store : TokenStore) (stage : Stage) (summands : Summands) (tokens : List TokenId) :
    Prop :=
  ∀ {s : Expansion} {pending : Pending} {capture : Capture} {outer : List Capture}
    {values : List Int} {more : List TokenId},
    Summing store stage (tokens ++ more) s pending capture outer values →
    s.SumsTo pending outer (values.sum + summands.total) (pending.drop tokens.length)
      (pending.Fits store tokens)

section

variable {store : TokenStore} {stage : Stage} {summands rest : Summands} {negative : Bool}
  {sign inner : List TokenId} {n : Nat}

/-- The parenthesis that closes a list of whole numbers makes their sum. -/
theorem folds_closed {closing : TokenId} (hstage : stage ≠ .separated)
    (hclosing : store.kind closing = .closeParen) : Folds store stage .none [closing] := by
  intro s pending capture outer values more hsumming
  obtain ⟨hextends, hcaptures, hsplice, hholds, htokens⟩ := hsumming
  rw [Summands.total, add_zero]
  have hkind := hextends.kind_of_eq hclosing nofun
  obtain ⟨arguments, hfeed, harguments⟩ := hholds.feed_closeParen hstage closing
  obtain ⟨left, hread, -⟩ := Pending.exists_read?_of_tokens htokens
  obtain ⟨number, later, hadds, hfinish⟩ :=
    @finishCapture_sum { s with captures := outer } arguments values capture hsplice harguments
      left.tokens
  have hdrop : pending.drop 1 = left := Pending.drop_succ_of_read? hread 0
  let reaction : Reaction :=
    ⟨{ s with captures := outer, store := later }, 0, some [number], capture.directive⟩
  have hreact : s.react closing pending.last left = .ok reaction := by
    rw [react_eq_feedCapture hcaptures, feedCapture, hkind]
    dsimp only
    rw [hfeed]
    exact hfinish
  have hstep : s.step pending = (advance reaction left >>= fun next =>
      .ok (reaction.state, some next)) := step_of_react hread hreact
  rw [List.length_singleton, hdrop]
  refine ⟨fun hfits => ?_, fun hfull => ?_⟩
  · have hroom := hfits 0 closing rfl hclosing
    rw [hdrop] at hroom
    obtain ⟨next, hadvance, hnext⟩ := @exists_advance left reaction _ rfl hroom
    rw [hadvance] at hstep
    exact ⟨number, later, next, hadds, .step .refl hstep, hnext⟩
  · have hdeep : Pending.maxFrames ≤ left.frames.length := by
      refine Nat.le_of_not_lt fun hroom => hfull ?_
      rintro (_ | index) token htoken _
      · exact hdrop ▸ hroom
      · cases htoken
    have hfault := (@advance_eq_error_iff reaction left _).mpr ⟨⟨[number], rfl⟩, hdeep, rfl⟩
    rw [hfault] at hstep
    exact ⟨capture.directive, later, hadds.extends_store, by rw [Expansion.run_eq, hstep]; rfl⟩

theorem folds_comma {comma : TokenId} (hcomma : store.kind comma = .comma)
    (hrest : Folds store .separated rest tokens) : Folds store .filled rest (comma :: tokens) := by
  intro s pending capture outer values more hsumming
  obtain ⟨hextends, hcaptures, hsplice, hholds, htokens⟩ := hsumming
  have hkind := hextends.kind_of_eq hcomma nofun
  obtain ⟨reader, hfeed, hheld⟩ := hholds.feed_comma comma
  have hbehind : (pending.drop [comma].length).tokens = tokens ++ more := by
    rw [Pending.tokens_drop, htokens]
    rfl
  have hsums := @hrest { s with captures := { capture with reader } :: outer } _
    { capture with reader } outer values more ⟨hextends, rfl, hsplice, hheld, hbehind⟩
  have hstep := step_feed hcaptures htokens (hkind ▸ nofun) (hkind ▸ nofun) (hkind ▸ hfeed)
  have hfront : ∀ token ∈ [comma], store.kind token ≠ .closeParen :=
    List.forall_mem_singleton.mpr (hcomma ▸ nofun)
  exact hsums.of_front (.step .refl hstep) hfront (.refl _) fun _ => rfl

theorem folds_number {number : TokenId} (hstage : stage ≠ .filled)
    (hsign : store.IsSign negative sign) (hwhole : store.IsWhole number n)
    (hrest : Folds store .filled rest tokens) :
    Folds store stage (.number negative n rest) (sign ++ number :: tokens) := by
  intro s pending capture outer values more hsumming
  obtain ⟨hextends, hcaptures, hsplice, hholds, htokens⟩ := hsumming
  have hsplit : sign ++ number :: tokens = (sign ++ [number]) ++ tokens := by simp
  have hkinds := hsign.kind_append hwhole.kind_eq
  have hsummand := TokenStore.IsSummand.intro (hsign.extend hextends) (hwhole.extend hextends)
  rw [hsplit, List.append_assoc] at htokens
  have hread := reaches_append hcaptures htokens fun token hmem =>
    (hkinds token hmem).imp (hextends.kind_of_eq · nofun) (hextends.kind_of_eq · nofun)
  have hbehind : (pending.drop (sign ++ [number]).length).tokens = tokens ++ more := by
    rw [Pending.tokens_drop, htokens, List.drop_left]
  have hsums := @hrest { s with captures := capture.append (sign ++ [number]) :: outer } _
    (capture.append (sign ++ [number])) outer _ more
    ⟨hextends, rfl, hsplice, hholds.append hstage hsummand, hbehind⟩
  have hfront : ∀ token ∈ sign ++ [number], store.kind token ≠ .closeParen := by
    intro token hmem
    rcases hkinds token hmem with hminus | hnumber
    · simp [hminus]
    · simp [hnumber]
  rw [List.sum_append, List.sum_singleton, add_assoc] at hsums
  rw [hsplit]
  exact hsums.of_front hread hfront (.refl _) fun _ => rfl

/-- The inner list becomes a number first, which is a summand of the outer one then. -/
theorem folds_sum (hstage : stage ≠ .filled) (hsign : store.IsSign negative sign)
    (hdirective : store.kind directive = .directive)
    (hname : store.directiveName directive = "add") (hopening : store.kind opening = .openParen)
    (hinner : Folds store .opened summands inner) (hne : tokens ≠ [])
    (hrest : Folds store .filled rest tokens) :
    Folds store stage (.sum negative summands rest)
      (sign ++ directive :: opening :: (inner ++ tokens)) := by
  intro s pending capture outer values more hsumming
  obtain ⟨hextends, hcaptures, hsplice, hholds, htokens⟩ := hsumming
  obtain ⟨afterStar, hopened, hinside⟩ := @reaches_opened s pending capture outer directive
    opening (inner ++ (tokens ++ more)) negative sign hcaptures (hsign.extend hextends)
    (hextends.kind_of_eq hdirective nofun) (hextends.directiveName_of_eq hname (by decide))
    (hextends.kind_of_eq hopening nofun) (by rw [htokens]; simp)
  have hsums := @hinner
    { s with captures :=
      ⟨.sum, directive, opening, afterStar, .start⟩ :: capture.append sign :: outer }
    _ ⟨.sum, directive, opening, afterStar, .start⟩ (capture.append sign :: outer) [] _
    ⟨hextends, rfl, rfl, .opened, hinside⟩
  rw [List.sum_nil, zero_add, Pending.drop_drop] at hsums
  have hcount : (sign ++ directive :: opening :: (inner ++ tokens)).length =
      sign.length + 2 + inner.length + tokens.length := by
    simp only [List.length_append, List.length_cons]
    omega
  rw [Pending.fits_sum_iff hsign hdirective hopening, hcount, ← Pending.drop_drop]
  refine (hsums.followed fun number later left hadds hread hleft => ?_).of_reaches hopened
    (.refl _) fun _ => rfl
  rw [← Pending.drop_drop, Pending.tokens_drop, hinside, List.drop_left] at hleft
  have hlater := hextends.trans hadds.extends_store
  have hheld := (hholds.extend hadds.extends_store).append hstage
    (.intro (hsign.extend hlater) hadds.isWhole)
  have houter := @hrest
    { s with captures := capture.append (sign ++ [number]) :: outer, store := later } left
    (capture.append (sign ++ [number])) outer _ more ⟨hlater, rfl, hsplice, hheld, hleft⟩
  rw [List.sum_append, List.sum_singleton, add_assoc] at houter
  rw [Capture.append_append]
  exact houter.of_read?_eq hread hne hleft

end

/-- The list of a sum becomes one number, put on top of what comes behind it. -/
theorem folds_of_written {store : TokenStore} {stage : Stage} {summands : Summands}
    (hwritten : store.Written stage summands tokens) : Folds store stage summands tokens := by
  induction hwritten with
  | closed hstage hclosing => exact folds_closed hstage hclosing
  | comma hcomma _ hrest => exact folds_comma hcomma hrest
  | number hstage hsign hkind hspells hlt _ hrest =>
      exact folds_number hstage hsign (TokenStore.isWhole_of_spells hkind hspells hlt) hrest
  | sum hstage hsign hdirective hname hopening _ hbehind hinner hrest =>
      exact folds_sum hstage hsign hdirective hname hopening hinner hbehind.ne_nil hrest

end Expansion

end VectorStack
