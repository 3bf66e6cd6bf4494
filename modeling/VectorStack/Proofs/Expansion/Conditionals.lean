import VectorStack.Proofs.Expansion.Balance
import VectorStack.Proofs.Expansion.Changes
import VectorStack.Proofs.Expansion.Termination
/-!
Conditional blocks. A block that is decided against is passed over to its own closing brace,
whatever stands in it, and nothing but the memory of that decision changes. Outside of argument
lists this memory decides an `else` behind the block: it is taken exactly if the block before it was
not, also where blocks were opened, closed or skipped within that block.
-/

namespace VectorStack

namespace TokenStore

variable {store : TokenStore} {cause opening closing : TokenId}
  {gap inside inner skipped after rest : List TokenId} {taken : Nat}

/-- A block whose braces match, from behind the brace that opens it, and what comes after it. -/
def Encloses (store : TokenStore) (inside after : List TokenId) : Prop :=
  ∃ skipped closing, Balanced store .openBrace .closeBrace [] skipped ∧
    store.kind closing = .closeBrace ∧ inside = skipped ++ closing :: after

/-- Behind a gap stands an `else`, line ends and comments, and the brace that opens its block. -/
def ElseBehind (store : TokenStore) (gap : List TokenId) (opening : TokenId)
    (inside tokens : List TokenId) : Prop :=
  ∃ directive inner, store.IsGap gap ∧ store.kind directive = .directive ∧
    store.directiveName directive = "else" ∧ store.IsGap inner ∧
    store.kind opening = .openBrace ∧ tokens = gap ++ directive :: (inner ++ opening :: inside)

theorem readBlockStart_append (hgap : store.IsGap gap)
    (hopening : store.kind opening = .openBrace) :
    store.readBlockStart cause taken (gap ++ opening :: inside) =
      .ok (opening, taken + gap.length + 1) := by
  induction gap generalizing taken with
  | nil => rw [List.nil_append, readBlockStart, hopening, List.length_nil, Nat.add_zero]
  | cons token gap ih =>
      obtain ⟨hkind, hgap⟩ := List.forall_mem_cons.mp hgap
      have hlength : taken + 1 + gap.length + 1 = taken + (token :: gap).length + 1 := by
        rw [List.length_cons]
        omega
      rw [List.cons_append, readBlockStart, ← hlength, ← ih hgap]
      rcases hkind with hkind | hkind <;> rw [hkind]

theorem skipBlock_eq (hbalanced : Balanced store .openBrace .closeBrace [] skipped)
    (hclosing : store.kind closing = .closeBrace) :
    store.skipBlock opening 1 taken (skipped ++ closing :: after) =
      .ok (taken + skipped.length + 1) := by
  rw [skipBlock_append hbalanced (Nat.le_refl 1), skipBlock, hclosing]
  exact if_pos (Nat.le_refl 1)

theorem readGroup_eq {left right : TokenId} (cause : TokenId) (rest : List TokenId)
    (hleft : store.kind left = .openParen)
    (hbalanced : Balanced store .openParen .closeParen [] inner) (hline : store.IsLine inner)
    (hright : store.kind right = .closeParen) :
    store.readGroup cause (left :: (inner ++ right :: rest)) =
      .ok (left :: (store.uncommented inner ++ [right]), inner.length + 2) := by
  have hclose : store.readGroupFrom left 1 (right :: rest) = .ok ([right], 1) := by
    rw [readGroupFrom, hright]
    rfl
  have hexpect : store.expect cause .openParen "`(`" (left :: (inner ++ right :: rest)) =
      .ok (left, inner ++ right :: rest) := if_pos hleft
  rw [readGroup, hexpect]
  change (store.readGroupFrom left 1 (inner ++ right :: rest) >>= _) = _
  rw [readGroupFrom_append hbalanced hline (Nat.le_refl 1) hclose]
  rfl

end TokenStore

namespace Expansion

/-- What a directive and its condition decide: whether the block is taken, and whether it is an
`else`. An `else` has no condition of its own, and nothing to go by in an argument list. -/
inductive Decides (s : Expansion) (directive : TokenId) : List TokenId → Bool → Bool → Prop
  | value {left right : TokenId} {inner others : List TokenId} {expression : Expression}
      {value : Number} (hname : s.store.directiveName directive = "if")
      (hleft : s.store.kind left = .openParen)
      (hbalanced : Balanced s.store .openParen .closeParen [] inner) (hline : s.store.IsLine inner)
      (hright : s.store.kind right = .closeParen)
      (hparse : Expression.parse s.store (left :: (s.store.uncommented inner ++ [right])) =
        .ok (expression, others))
      (hvalue : expression.evaluate s.store (fun _ => none) = .ok value) :
    Decides s directive (left :: (inner ++ [right])) (!value.isZero) false
  | defined {wanted : Bool} {name : TokenId}
      (hname : s.store.directiveName directive = if wanted then "ifdef" else "ifndef")
      (hkind : s.store.kind name = .word) :
    Decides s directive [name] ((s.lookup? (s.store.text name)).isSome == wanted) false
  | otherwise {before : Bool} (hname : s.store.directiveName directive = "else")
      (hcaptures : s.captures = []) (hlast : s.lastTaken = some before) :
    Decides s directive [] (!before) true

/-- The tokens start with a conditional directive, its condition, line ends and comments, and the
brace that opens its block. -/
inductive Conditional (s : Expansion) (taken isElse : Bool) (opening : TokenId)
    (inside : List TokenId) : List TokenId → Prop
  | intro {directive : TokenId} {condition gap : List TokenId}
      (hkind : s.store.kind directive = .directive)
      (hdecides : Decides s directive condition taken isElse) (hgap : s.store.IsGap gap)
      (hopening : s.store.kind opening = .openBrace) :
    Conditional s taken isElse opening inside
      (directive :: (condition ++ (gap ++ opening :: inside)))

variable {s after : Expansion} {pending next left : Pending} {directive opening cause : TokenId}
  {condition gap inside behind tokens : List TokenId} {taken isElse : Bool}
  {before : Option Bool} {previous : Option TokenId}

theorem enterBlock_taken (cause : TokenId) (isElse : Bool) (count : Nat) (hgap : s.store.IsGap gap)
    (hopening : s.store.kind opening = .openBrace) :
    s.enterBlock cause true isElse count (gap ++ opening :: inside) =
      .ok ⟨{ s with blocks := ⟨opening, isElse⟩ :: s.blocks }, count + (gap.length + 1), none,
        cause⟩ := by
  rw [enterBlock, TokenStore.readBlockStart_append hgap hopening, Nat.zero_add]
  rfl

theorem enterBlock_skipped (cause : TokenId) (isElse : Bool) (count : Nat)
    (hgap : s.store.IsGap gap) (hopening : s.store.kind opening = .openBrace)
    (hencloses : s.store.Encloses inside behind) :
    ∃ ended, s.enterBlock cause false isElse count (gap ++ opening :: inside) =
        .ok ⟨{ s with lastTaken := if isElse then none else some false }, count + ended, none,
          cause⟩ ∧
      (gap ++ opening :: inside).drop ended = behind := by
  obtain ⟨skipped, closing, hbalanced, hclosing, rfl⟩ := hencloses
  refine ⟨gap.length + 1 + skipped.length + 1, ?_, ?_⟩
  · have hinside : (gap ++ opening :: (skipped ++ closing :: behind)).drop (gap.length + 1) =
        skipped ++ closing :: behind := by
      rw [List.drop_append]
      simp
    rw [enterBlock, TokenStore.readBlockStart_append hgap hopening, Nat.zero_add]
    change (s.store.skipBlock opening 1 (gap.length + 1) _ >>= _) = _
    rw [hinside, TokenStore.skipBlock_eq hbalanced hclosing]
    rfl
  · have hsplit : gap ++ opening :: (skipped ++ closing :: behind) =
        (gap ++ opening :: (skipped ++ [closing])) ++ behind := by simp
    rw [hsplit, List.drop_left']
    simp
    omega

namespace Decides

theorem captures_eq_nil (hdecides : Decides s directive condition taken true) :
    s.captures = [] := by
  cases hdecides with
  | otherwise _ hcaptures => exact hcaptures

/-- The directive opens or skips the block as it is decided. -/
theorem direct_eq (hdecides : Decides s directive condition taken isElse)
    (hbefore : isElse = true → before = s.lastTaken) (lastTaken : Option Bool) :
    direct { s with lastTaken } directive before previous (condition ++ tokens) =
      enterBlock { s with lastTaken } directive taken isElse condition.length tokens := by
  have hdirective {name : String} {meaning : Directive}
      (hname : s.store.directiveName directive = name)
      (hmeaning : Directive.ofName? name = some meaning) :
      Directive.ofName? (String.ofList ((s.store.chars directive).drop 1)) = some meaning :=
    (congrArg Directive.ofName? hname).trans hmeaning
  cases hdecides with
  | @value left right inner others expression value hname hleft hbalanced hline hright hparse
      hvalue =>
      have hgroup := TokenStore.readGroup_eq directive tokens hleft hbalanced hline hright
      have htokens : left :: (inner ++ [right]) ++ tokens = left :: (inner ++ right :: tokens) := by
        simp
      have hlength : (left :: (inner ++ [right])).length = inner.length + 2 := by simp
      have hdrop : (left :: (inner ++ right :: tokens)).drop (inner.length + 2) = tokens := by
        rw [← htokens, List.drop_left' hlength]
      rw [direct]
      dsimp only
      rw [hdirective hname rfl, htokens, hlength]
      dsimp only
      rw [condition, hgroup]
      change (Expression.parse s.store _ >>= _) = _
      rw [hparse]
      change (expression.evaluate s.store _ >>= _) = _
      rw [hvalue]
      dsimp only [bind, Except.bind]
      rw [hdrop]
  | @defined wanted name hname hkind =>
      have hexpect : s.store.expect directive .word "a macro name" (name :: tokens) =
          .ok (name, tokens) := if_pos hkind
      have hmeaning : Directive.ofName? (if wanted then "ifdef" else "ifndef") =
          some (.defined wanted) := by
        cases wanted <;> rfl
      rw [direct]
      dsimp only
      rw [hdirective hname hmeaning]
      dsimp only
      rw [conditionDefined]
      change (s.store.expect directive .word "a macro name" (name :: tokens) >>= _) = _
      rw [hexpect]
      rfl
  | @otherwise decided hname hcaptures hlast =>
      rw [direct]
      dsimp only
      rw [hdirective hname rfl]
      dsimp only
      rw [hbefore rfl, hlast]
      rfl

/-- The memory of the decision before is used up, outside of argument lists. -/
theorem react_eq (hdecides : Decides s directive condition taken isElse)
    (previous : Option TokenId) (hkind : s.store.kind directive = .directive)
    (hleft : left.tokens = condition ++ tokens) :
    ∃ lastTaken, (s.captures = [] → lastTaken = none) ∧ s.react directive previous left =
      enterBlock { s with lastTaken } directive taken isElse condition.length tokens := by
  cases hcaptures : s.captures with
  | nil =>
      refine ⟨none, fun _ => rfl, ?_⟩
      rw [react_eq_process hcaptures, process, hkind]
      dsimp only
      rw [hleft, ← hcaptures]
      exact hdecides.direct_eq (fun _ => rfl) none
  | cons capture outer =>
      have hplain : isElse = true → none = s.lastTaken := by
        rintro rfl
        rw [hdecides.captures_eq_nil] at hcaptures
        cases hcaptures
      refine ⟨s.lastTaken, nofun, ?_⟩
      rw [react_eq_feedCapture hcaptures, feedCapture, hkind]
      dsimp only
      rw [hleft, ← hcaptures]
      exact hdecides.direct_eq hplain s.lastTaken

end Decides

namespace Conditional

/-- Outside of argument lists a block that is taken is opened, and read next. -/
theorem step_taken (hconditional : Conditional s true isElse opening inside pending.tokens)
    (hcaptures : s.captures = []) :
    ∃ next, s.step pending = .ok ({ s with
        lastTaken := none, blocks := ⟨opening, isElse⟩ :: s.blocks }, some next) ∧
      next.tokens = inside := by
  generalize htokens : pending.tokens = all at hconditional
  cases hconditional with
  | @intro directive condition gap hkind hdecides hgap hopening =>
      obtain ⟨left, hread, hleft⟩ := Pending.exists_read?_of_tokens htokens
      obtain ⟨lastTaken, hfresh, hreact⟩ :=
        hdecides.react_eq pending.last hkind hleft
      rw [hfresh hcaptures] at hreact
      obtain ⟨next, hstep, hnext⟩ := exists_step_of_react hread
        (hreact.trans (enterBlock_taken (s := { s with lastTaken := none }) _ _ _ hgap hopening))
      refine ⟨next, hstep, ?_⟩
      rw [hnext, hleft, ← List.drop_drop, List.drop_left, List.drop_append]
      simp

/-- A block that is not taken is passed over, with all that stands in it. -/
theorem step_skipped (hconditional : Conditional s false isElse opening inside pending.tokens)
    (hencloses : s.store.Encloses inside behind) :
    ∃ next, s.step pending =
        .ok ({ s with lastTaken := if isElse then none else some false }, some next) ∧
      next.tokens = behind := by
  generalize htokens : pending.tokens = all at hconditional
  cases hconditional with
  | @intro directive condition gap hkind hdecides hgap hopening =>
      obtain ⟨left, hread, hleft⟩ := Pending.exists_read?_of_tokens htokens
      obtain ⟨lastTaken, -, hreact⟩ := hdecides.react_eq pending.last hkind hleft
      obtain ⟨ended, hskips, hended⟩ := enterBlock_skipped (s := { s with lastTaken })
        directive isElse condition.length hgap hopening hencloses
      obtain ⟨next, hstep, hnext⟩ := exists_step_of_react hread (hreact.trans hskips)
      refine ⟨next, hstep, ?_⟩
      rw [hnext, hleft, ← List.drop_drop, List.drop_left]
      exact hended

end Conditional

theorem Reaches.trans {middle : Expansion} {between : Pending}
    (hfirst : Reaches s pending middle between) (hsecond : Reaches middle between after next) :
    Reaches s pending after next := by
  induction hsecond with
  | refl => exact hfirst
  | step _ hstep ih => exact .step ih hstep

theorem Reaches.head {middle : Expansion} {between : Pending}
    (hstep : s.step pending = .ok (middle, some between))
    (hreaches : Reaches middle between after next) : Reaches s pending after next :=
  (Reaches.step .refl hstep).trans hreaches

@[simp] theorem emit_nil (s : Expansion) : s.emit [] = s := by
  simp [emit]

theorem emit_emit (s : Expansion) (first second : List TokenId) :
    (s.emit first).emit second = s.emit (first ++ second) := by
  have houtput : s.output ++ first ++ second = s.output ++ (first ++ second) :=
    Array.toList_inj.mp (by simp)
  rw [emit, emit, emit, houtput]

theorem step_gap {token : TokenId} (hcaptures : s.captures = [])
    (hkind : s.store.kind token = .lineEnd ∨ s.store.kind token = .comment)
    (htokens : pending.tokens = token :: tokens) :
    ∃ next, s.step pending = .ok (s.emit (s.store.lineEnds [token]), some next) ∧
      next.tokens = tokens := by
  obtain ⟨left, hread, hleft⟩ := Pending.exists_read?_of_tokens htokens
  have hreact : s.react token pending.last left =
      (s.emit (s.store.lineEnds [token])).settle token := by
    rw [react_eq_process hcaptures, process]
    rcases hkind with hkind | hkind
    · rw [TokenStore.lineEnds_cons_of_eq hkind, hkind]
      rfl
    · rw [TokenStore.lineEnds_cons_of_ne (by simp [hkind]), hkind, TokenStore.lineEnds_nil,
        emit_nil]
  obtain ⟨next, hstep, hnext⟩ := exists_step_of_react hread hreact
  exact ⟨next, hstep, hnext.trans hleft⟩

/-- Between blocks only line ends go to the output, and the last decision is not forgotten. -/
theorem reaches_gap (hcaptures : s.captures = []) (hgap : s.store.IsGap gap)
    (htokens : pending.tokens = gap ++ tokens) :
    ∃ next, Reaches s pending (s.emit (s.store.lineEnds gap)) next ∧ next.tokens = tokens := by
  induction gap generalizing s pending with
  | nil =>
      rw [TokenStore.lineEnds_nil, emit_nil]
      exact ⟨pending, .refl, htokens⟩
  | cons token gap ih =>
      obtain ⟨hkind, hgap⟩ := List.forall_mem_cons.mp hgap
      obtain ⟨between, hstep, hbetween⟩ := step_gap hcaptures hkind htokens
      obtain ⟨next, hreaches, hnext⟩ :=
        ih (s := s.emit (s.store.lineEnds [token])) hcaptures hgap hbetween
      rw [← List.singleton_append, TokenStore.lineEnds_append, ← emit_emit]
      exact ⟨next, .head hstep hreaches, hnext⟩

/-- The closing brace of a block is remembered as the end of a block that was taken. -/
theorem step_close {block : Block} {outer : List Block} {closing : TokenId}
    (hcaptures : s.captures = []) (hblocks : s.blocks = block :: outer)
    (hclosing : s.store.kind closing = .closeBrace) (htokens : pending.tokens = closing :: tokens) :
    ∃ next, s.step pending = .ok ({ s with
        blocks := outer, lastTaken := if block.isElse then none else some true }, some next) ∧
      next.tokens = tokens := by
  obtain ⟨left, hread, hleft⟩ := Pending.exists_read?_of_tokens htokens
  have hreact : s.react closing pending.last left = settle { s with
      blocks := outer, lastTaken := if block.isElse then none else some true } closing := by
    rw [react_eq_process hcaptures, process, hclosing]
    dsimp only
    rw [hblocks]
  obtain ⟨next, hstep, hnext⟩ := exists_step_of_react hread hreact
  exact ⟨next, hstep, hnext.trans hleft⟩

/-- Behind a block, an `else` is decided against that block. -/
theorem reaches_else {decided : Bool} (hcaptures : s.captures = [])
    (hlast : s.lastTaken = some decided) (helse : s.store.ElseBehind gap opening inside tokens)
    (htokens : pending.tokens = tokens) :
    ∃ next, Reaches s pending (s.emit (s.store.lineEnds gap)) next ∧
      Conditional (s.emit (s.store.lineEnds gap)) (!decided) true opening inside next.tokens := by
  obtain ⟨directive, inner, hgap, hkind, hname, hinner, hopening, rfl⟩ := helse
  obtain ⟨next, hreaches, hnext⟩ := reaches_gap hcaptures hgap htokens
  have hdecides : Decides (s.emit (s.store.lineEnds gap)) directive [] (!decided) true :=
    .otherwise hname hcaptures hlast
  refine ⟨next, hreaches, ?_⟩
  rw [hnext, ← List.nil_append (inner ++ opening :: inside)]
  exact .intro hkind hdecides hinner hopening

/-- States that are reached while more than a number of blocks are open. -/
inductive Within (depth : Nat) (s : Expansion) (pending : Pending) : Expansion → Pending → Prop
  | refl : Within depth s pending s pending
  | step {middle after : Expansion} {between next : Pending}
      (hwithin : Within depth s pending middle between)
      (hstep : middle.step between = .ok (after, some next))
      (hdepth : depth < after.blocks.length) :
    Within depth s pending after next

/-- Whatever is opened within a block, the block stays open below it. -/
theorem Within.blocks_eq {outer : List Block} {depth : Nat}
    (hwithin : Within depth s pending after next) (houter : outer.length = depth + 1)
    (hblocks : s.blocks = outer) : ∃ inner, after.blocks = inner ++ outer := by
  induction hwithin with
  | refl => exact ⟨[], hblocks⟩
  | @step middle after between next _ hstep hdepth ih =>
      obtain ⟨inner, hinner⟩ := ih
      cases changes_step hstep with
      | none _ hsame | defined _ _ hsame | undefined _ hsame => exact ⟨inner, hsame.trans hinner⟩
      | @opened block _ hopened =>
          rw [hinner] at hopened
          exact ⟨block :: inner, hopened⟩
      | @closed block _ hclosed =>
          cases inner with
          | nil =>
              have hlength := congrArg List.length (hinner.symm.trans hclosed)
              simp only [List.nil_append, List.length_cons] at hlength
              omega
          | cons innermost inner =>
              exact ⟨inner, (List.cons_eq_cons.mp (hclosed.symm.trans hinner)).2⟩

/-- Behind a block that was passed over, an `else` is taken. -/
theorem reaches_else_of_skipped {elseOpening : TokenId} {elseInside : List TokenId}
    (hcaptures : s.captures = [])
    (hconditional : Conditional s false false opening inside pending.tokens)
    (hencloses : s.store.Encloses inside behind)
    (helse : s.store.ElseBehind gap elseOpening elseInside behind) :
    ∃ next, Reaches s pending { s.emit (s.store.lineEnds gap) with
        lastTaken := none, blocks := ⟨elseOpening, true⟩ :: s.blocks } next ∧
      next.tokens = elseInside := by
  obtain ⟨between, hskip, hbetween⟩ := hconditional.step_skipped hencloses
  obtain ⟨ahead, hreaches, htaken⟩ := reaches_else
    (s := { s with lastTaken := if false then none else some false }) hcaptures rfl helse hbetween
  obtain ⟨next, hstep, hnext⟩ := htaken.step_taken hcaptures
  exact ⟨next, .step (.head hskip hreaches) hstep, hnext⟩

/-- Behind a block that was taken, an `else` is passed over, whatever happened within the block. -/
theorem reaches_else_of_taken {body : Pending} {closing elseOpening : TokenId}
    {outer : List Block} {elseInside others : List TokenId}
    (hblocks : s.blocks = ⟨opening, false⟩ :: outer)
    (hwithin : Within outer.length s body after left) (hcaptures : after.captures = [])
    (hlength : after.blocks.length = outer.length + 1)
    (hclosing : after.store.kind closing = .closeBrace) (htokens : left.tokens = closing :: others)
    (helse : after.store.ElseBehind gap elseOpening elseInside others)
    (hencloses : after.store.Encloses elseInside behind) :
    ∃ next, Reaches after left { after.emit (after.store.lineEnds gap) with
        lastTaken := none, blocks := outer } next ∧
      next.tokens = behind := by
  have hopen : after.blocks = ⟨opening, false⟩ :: outer := by
    obtain ⟨inner, hinner⟩ := hwithin.blocks_eq rfl hblocks
    have hnil : inner.length = 0 := by
      rw [hinner, List.length_append, List.length_cons] at hlength
      omega
    rwa [List.length_eq_zero_iff.mp hnil] at hinner
  obtain ⟨between, hclose, hbetween⟩ := step_close hcaptures hopen hclosing htokens
  obtain ⟨ahead, hreaches, hskipped⟩ := reaches_else
    (s := { after with blocks := outer, lastTaken := if false then none else some true })
    hcaptures rfl helse hbetween
  obtain ⟨next, hstep, hnext⟩ := hskipped.step_skipped hencloses
  exact ⟨next, .step (.head hclose hreaches) hstep, hnext⟩

/-- A block that is decided against is passed over, and only the decision is remembered. Outside of
argument lists, an `else` behind a block is taken if that block was passed over; if that block was
taken, and whatever run leads to its closing brace, the `else` is passed over. -/
theorem step_conditional :
    (∀ {s : Expansion} {pending : Pending} {isElse : Bool} {opening : TokenId}
        {inside behind : List TokenId},
      Conditional s false isElse opening inside pending.tokens → s.store.Encloses inside behind →
      ∃ next, s.step pending =
          .ok ({ s with lastTaken := if isElse then none else some false }, some next) ∧
        next.tokens = behind) ∧
    (∀ {s : Expansion} {pending : Pending} {opening elseOpening : TokenId}
        {gap inside behind elseInside : List TokenId}, s.captures = [] →
      Conditional s false false opening inside pending.tokens → s.store.Encloses inside behind →
      s.store.ElseBehind gap elseOpening elseInside behind →
      ∃ next, Reaches s pending { s.emit (s.store.lineEnds gap) with
          lastTaken := none, blocks := ⟨elseOpening, true⟩ :: s.blocks } next ∧
        next.tokens = elseInside) ∧
    ∀ {s : Expansion} {pending : Pending} {opening : TokenId} {inside : List TokenId},
      s.captures = [] → Conditional s true false opening inside pending.tokens →
      ∃ opened body, s.step pending = .ok (opened, some body) ∧ body.tokens = inside ∧
        opened = { s with lastTaken := none, blocks := ⟨opening, false⟩ :: s.blocks } ∧
        ∀ {last : Expansion} {left : Pending} {closing elseOpening : TokenId}
            {gap behind elseInside others : List TokenId},
          Within s.blocks.length opened body last left → last.captures = [] →
          last.blocks.length = s.blocks.length + 1 → last.store.kind closing = .closeBrace →
          left.tokens = closing :: others →
          last.store.ElseBehind gap elseOpening elseInside others →
          last.store.Encloses elseInside behind →
          ∃ next, Reaches last left { last.emit (last.store.lineEnds gap) with
              lastTaken := none, blocks := s.blocks } next ∧
            next.tokens = behind := by
  refine ⟨Conditional.step_skipped, reaches_else_of_skipped, fun hcaptures htaken => ?_⟩
  obtain ⟨body, hstep, hbody⟩ := htaken.step_taken hcaptures
  exact ⟨_, body, hstep, hbody, rfl, reaches_else_of_taken rfl⟩

/-- A block with a conditional in it, whose block holds a token that is none and a block, and an
`else` on the line behind. -/
def nested : TokenStore :=
  (TokenStore.empty.load "main"
    ['.', 'i', 'f', 'n', 'd', 'e', 'f', ' ', 'x', '{', '.', 'i', 'f', 'd', 'e', 'f', ' ', 'x', '{',
      '?', '{', '}', '}', '}', '\n', '.', 'e', 'l', 's', 'e', '{', 'y', '}', 'z']).2

theorem step_conditional_nested :
    let s : Expansion := start .standard (fun _ _ => none) nested
    let skips : Pending := .ofTokens [3, 4, 5, 6, 7, 8, 9, 11, 12, 13, 14, 15, 16]
    s.captures = [] ∧
      Conditional s false false 5 [6, 7, 8, 9, 11, 12, 13, 14, 15, 16] skips.tokens ∧
      nested.Encloses [6, 7, 8, 9, 11, 12, 13, 14, 15, 16] [11, 12, 13, 14, 15, 16] ∧
      nested.ElseBehind [11] 13 [14, 15, 16] [11, 12, 13, 14, 15, 16] ∧
      nested.Encloses [14, 15, 16] [16] ∧
      Conditional s true false 2 (List.range' 3 14) (List.range 17) ∧
      (∃ next, s.step skips = .ok ({ s with lastTaken := some false }, some next) ∧
        next.tokens = [11, 12, 13, 14, 15, 16]) ∧
      (∃ next, Reaches s skips { s.emit [11] with blocks := [⟨13, true⟩] } next ∧
        next.tokens = [14, 15, 16]) ∧
      ∃ next, Reaches s (.ofTokens (List.range 17)) (s.emit [11]) next ∧ next.tokens = [16] := by
  intro s skips
  have hkinds : nested.kind 0 = .directive ∧ nested.kind 1 = .word ∧ nested.kind 2 = .openBrace ∧
      nested.kind 3 = .directive ∧ nested.kind 4 = .word ∧ nested.kind 5 = .openBrace ∧
      nested.kind 6 = .invalid ∧ nested.kind 7 = .openBrace ∧ nested.kind 8 = .closeBrace ∧
      nested.kind 9 = .closeBrace ∧ nested.kind 10 = .closeBrace ∧ nested.kind 11 = .lineEnd ∧
      nested.kind 12 = .directive ∧ nested.kind 13 = .openBrace ∧ nested.kind 14 = .word ∧
      nested.kind 15 = .closeBrace := by decide +kernel
  have hnames : nested.directiveName 0 = "ifndef" ∧ nested.directiveName 3 = "ifdef" ∧
      nested.directiveName 12 = "else" := by decide +kernel
  obtain ⟨h0, h1, h2, h3, h4, h5, h6, h7, h8, h9, h10, h11, h12, h13, h14, h15⟩ := hkinds
  obtain ⟨hifndef, hifdef, helse⟩ := hnames
  have hgap (store : TokenStore) : store.IsGap [] := nofun
  -- the conditional around, the one within, and the block of the latter
  have houter : Conditional s true false 2 (List.range' 3 14) (List.range 17) := by
    have htaken : ((s.lookup? (s.store.text 1)).isSome == false) = true := by decide +kernel
    have hdecides : Decides s 0 [1] ((s.lookup? (s.store.text 1)).isSome == false) false :=
      .defined hifndef h1
    exact .intro h0 (htaken ▸ hdecides) (hgap nested) h2
  have hinner (t : Expansion) (hstore : t.store = nested)
      (hlookup : t.lookup? (t.store.text 4) = none) (inside : List TokenId) :
      Conditional t false false 5 inside (3 :: 4 :: 5 :: inside) := by
    have hdecides : Decides t 3 [4] ((t.lookup? (t.store.text 4)).isSome == true) false :=
      .defined (hstore ▸ hifdef) (hstore ▸ h4)
    rw [hlookup] at hdecides
    rw [← List.nil_append (5 :: inside)]
    exact .intro (hstore ▸ h3) hdecides (hgap t.store) (hstore ▸ h5)
  have hempty : Balanced nested .openBrace .closeBrace [] [7, 8] := .group h7 .nil h8 .nil
  have hblock (behind : List TokenId) : nested.Encloses (6 :: 7 :: 8 :: 9 :: behind) behind :=
    ⟨[6, 7, 8], 9, .cons (by rw [h6]; decide) hempty, h9, rfl⟩
  have hbehind : nested.ElseBehind [11] 13 [14, 15, 16] [11, 12, 13, 14, 15, 16] :=
    ⟨12, [], List.forall_mem_singleton.mpr (.inl h11), h12, helse, hgap nested, h13, rfl⟩
  have hend : nested.Encloses [14, 15, 16] [16] :=
    ⟨[14], 15, .cons (by rw [h14]; decide) .nil, h15, rfl⟩
  have hlineEnds : s.store.lineEnds [11] = [11] := TokenStore.lineEnds_cons_of_eq h11
  have hnone : s.lookup? (s.store.text 4) = none := by decide +kernel
  have hskips := hinner s rfl hnone [6, 7, 8, 9, 11, 12, 13, 14, 15, 16]
  obtain ⟨hinert, hskipped, htaken⟩ := step_conditional
  have hpasses := @hinert s skips false 5 _ _ hskips (hblock _)
  refine ⟨rfl, hskips, hblock _, hbehind, hend, houter, hpasses, ?_, ?_⟩
  · obtain ⟨next, hreaches, hnext⟩ :=
      @hskipped s skips 5 13 [11] _ _ _ rfl hskips (hblock _) hbehind
    rw [hlineEnds] at hreaches
    exact ⟨next, hreaches, hnext⟩
  · obtain ⟨opened, body, hopen, hbody, rfl, hrun⟩ :=
      @htaken s (.ofTokens (List.range 17)) 2 _ rfl houter
    have hwithin := hinner { s with lastTaken := none, blocks := [⟨2, false⟩] } rfl hnone
      (6 :: 7 :: 8 :: 9 :: [10, 11, 12, 13, 14, 15, 16])
    have hbody : body.tokens = 3 :: 4 :: 5 :: 6 :: 7 :: 8 :: 9 :: [10, 11, 12, 13, 14, 15, 16] :=
      hbody
    obtain ⟨left, hskip, hleft⟩ := @hinert _ body false 5 _ _ (hbody ▸ hwithin) (hblock _)
    obtain ⟨next, hreaches, hnext⟩ := hrun (.step .refl hskip (by decide)) rfl rfl h10 hleft
      hbehind hend
    rw [hlineEnds] at hreaches
    exact ⟨next, .head hopen (.head hskip hreaches), hnext⟩

end Expansion

end VectorStack
