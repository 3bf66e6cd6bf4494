import VectorStack.Proofs.Expansion.Changes
import VectorStack.Proofs.Expansion.Termination
/-!
Expansion keeps track of where its tokens come from. Whatever a token makes happen, the tokens that
are added were caused by tokens that were there, and a fault is at one of those. The same holds of a
whole run, also of one that fails.
-/

namespace VectorStack

open TokenStore

/-- The tokens of an argument list that is being read. -/
def Capture.tokens (capture : Capture) : List TokenId :=
  capture.directive :: capture.opening :: capture.reader.tokens

namespace Expansion

/-- The tokens that expansion may blame, and those that it puts out, are in its store. -/
structure Known (s : Expansion) : Prop where
  opening : ∀ block ∈ s.blocks, block.opening < s.store.size
  output : s.store.Has s.output.toList
  captures : ∀ capture ∈ s.captures, s.store.Has capture.tokens

/-- What a token makes happen adds no token without a cause, and may blame tokens of the store. -/
structure Sourced (store : TokenStore) (reaction : Reaction) : Prop where
  grows : store.Grows reaction.state.store
  known : reaction.state.Known
  frame : ∀ frame, reaction.frame = some frame → reaction.state.store.Has frame
  cause : reaction.cause < reaction.state.store.size

variable {s after : Expansion} {later : TokenStore} {token directive cause : TokenId}
  {tokens : List TokenId}

namespace Known

theorem grown (hknown : s.Known) (hgrows : s.store.Grows later) :
    ({ s with store := later } : Expansion).Known where
  opening block hmem := Nat.lt_of_lt_of_le (hknown.opening block hmem) hgrows.size_le
  output := hgrows.has hknown.output
  captures capture hmem := hgrows.has (hknown.captures capture hmem)

theorem emit (hknown : s.Known) (htokens : s.store.Has tokens) : (s.emit tokens).Known := by
  refine ⟨hknown.opening, ?_, hknown.captures⟩
  have houtput := has_append.mpr ⟨hknown.output, htokens⟩
  rwa [← Array.toList_appendList] at houtput

theorem fresh (hknown : s.Known) (lastTaken : Option Bool) :
    ({ s with lastTaken } : Expansion).Known :=
  ⟨hknown.opening, hknown.output, hknown.captures⟩

/-- A reaction that puts new tokens on top. -/
theorem sourced_push (hknown : s.Known) (consumed : Nat) (hcause : cause < s.store.size)
    (hgrows : s.store.Grows later) (htokens : later.Has tokens) :
    Sourced s.store ⟨{ s with store := later }, consumed, some tokens, cause⟩ := by
  refine ⟨hgrows, hknown.grown hgrows, ?_, Nat.lt_of_lt_of_le hcause hgrows.size_le⟩
  rintro frame ⟨⟩
  exact htokens

theorem sourced_splice (hknown : s.Known) (text : List Char) (consumed : Nat)
    (hcause : cause < s.store.size) : Sourced s.store (s.splice cause text consumed) :=
  hknown.sourced_push consumed hcause (grows_addText expansionName text hcause)
    (lt_size_addText _ _ _ _)

end Known

/-- A reaction that leaves the store alone. -/
theorem Sourced.quiet {store : TokenStore} {consumed : Nat} (hknown : after.Known)
    (hstore : after.store = store) (hcause : cause < store.size) :
    Sourced store ⟨after, consumed, none, cause⟩ := by
  subst hstore
  exact ⟨.refl _, hknown, nofun, hcause⟩

theorem traced_define (hknown : s.Known) (hdirective : directive < s.store.size)
    (htokens : s.store.Has tokens) :
    Traced s.store (Sourced s.store) (s.define directive tokens) := by
  refine (traced_expect .word "a macro name" hdirective htokens).bind fun name hname => ?_
  dsimp only
  split
  · exact .faultAt hname.1
  · refine (traced_readParameterList hdirective hname.2).andThen fun params => ?_
    have hrest : s.store.Has (name.2.drop params.2) := hname.2.subset (List.drop_subset _ _)
    refine (traced_readBody hrest).andThen fun body => ?_
    exact .ok (.quiet ⟨hknown.opening, hknown.output, hknown.captures⟩ rfl hdirective)

theorem traced_undefine (hknown : s.Known) (hdirective : directive < s.store.size)
    (htokens : s.store.Has tokens) :
    Traced s.store (Sourced s.store) (s.undefine directive tokens) := by
  refine (traced_expect .word "a macro name" hdirective htokens).bind fun name hname => ?_
  dsimp only
  split
  · exact .ok (.quiet ⟨hknown.opening, hknown.output, hknown.captures⟩ rfl hdirective)
  · exact .faultAt hname.1

theorem traced_invoke {key : String} {invoker : TokenId} (hknown : s.Known)
    (hinvoker : invoker < s.store.size) (htokens : s.store.Has tokens) :
    Traced s.store (Sourced s.store) (s.invoke key invoker tokens) := by
  unfold invoke
  split
  · exact .faultAt hinvoker
  · next definition hlookup =>
      have hcopies : ∀ templates consumed, Sourced s.store
          ⟨{ s with store := (s.store.copyAll invoker templates).2 }, consumed,
            some (s.store.copyAll invoker templates).1, invoker⟩ :=
        fun templates consumed => hknown.sourced_push consumed hinvoker
          (grows_copyAll templates hinvoker) (lt_size_copyAll s.store invoker templates)
      dsimp only
      split
      · refine (traced_readArguments _ hinvoker htokens).andThen fun read => ?_
        split
        · exact .ok (hcopies _ _)
        · exact .faultAt hinvoker
      · refine Traced.andThen (.ok trivial) fun read => ?_
        split
        · exact .ok (hcopies _ _)
        · exact .faultAt hinvoker

theorem traced_importText (hknown : s.Known) (hdirective : directive < s.store.size)
    (htokens : s.store.Has tokens) :
    Traced s.store (Sourced s.store) (s.importText directive tokens) := by
  refine (traced_require "a file name" hdirective htokens).bind fun target htarget => ?_
  dsimp only
  repeat' split
  all_goals
    refine Traced.andThen ?_ fun file => ?_
    · first
        | exact .ok trivial
        | exact .faultAt htarget.1
    · split
      · exact .faultAt hdirective
      · next name text himport =>
          exact .ok (hknown.sourced_push 1 hdirective (grows_addText name text hdirective)
            (lt_size_addText s.store name text _))

theorem traced_region (hknown : s.Known) (hdirective : directive < s.store.size)
    (htokens : s.store.Has tokens) :
    Traced s.store (Sourced s.store) (s.region directive tokens) := by
  refine (traced_expect .word "a region name" hdirective htokens).bind fun name hname => ?_
  have hrest : ∀ atEnd : Bool, s.store.Has (if atEnd then name.2.drop 1 else name.2) := by
    rintro (_ | _)
    · exact hname.2
    · exact hname.2.subset (List.drop_subset 1 name.2)
  refine (traced_expect .number "a region size" hdirective (hrest _)).bind fun size hsize => ?_
  dsimp only
  split
  · exact .faultAt hsize.1
  · next bytes hbytes =>
      split
      · exact .faultAt hsize.1
      · have hafter : ({ s with regionStart := s.regionStart - bytes } : Expansion).Known :=
          ⟨hknown.opening, hknown.output, hknown.captures⟩
        exact .ok (hafter.sourced_splice _ _ hdirective)

theorem traced_enterBlock {taken isElse : Bool} {before : Nat} (hknown : s.Known)
    (hcause : cause < s.store.size) (htokens : s.store.Has tokens) :
    Traced s.store (Sourced s.store) (s.enterBlock cause taken isElse before tokens) := by
  refine (traced_readBlockStart hcause htokens).bind fun block hopening => ?_
  dsimp only
  split
  · refine .ok (.quiet ⟨?_, hknown.output, hknown.captures⟩ rfl hcause)
    exact List.forall_mem_cons.mpr ⟨hopening, hknown.opening⟩
  · refine (traced_skipBlock hopening).andThen fun ended => ?_
    exact .ok (.quiet (hknown.fresh _) rfl hcause)

theorem traced_condition (hknown : s.Known) (hdirective : directive < s.store.size)
    (htokens : s.store.Has tokens) :
    Traced s.store (Sourced s.store) (s.condition directive tokens) := by
  refine (traced_readGroup hdirective htokens).bind fun group hgroup => ?_
  refine (Expression.traced_parse hgroup.1 hgroup.2).bind fun expression hexpression => ?_
  refine (Expression.traced_evaluate _ hexpression.1).andThen fun value => ?_
  exact traced_enterBlock hknown hdirective (htokens.subset (List.drop_subset _ _))

theorem traced_conditionDefined {wanted : Bool} (hknown : s.Known)
    (hdirective : directive < s.store.size) (htokens : s.store.Has tokens) :
    Traced s.store (Sourced s.store) (s.conditionDefined directive wanted tokens) :=
  (traced_expect .word "a macro name" hdirective htokens).bind fun _ hname =>
    traced_enterBlock hknown hdirective hname.2

theorem traced_otherwise {before : Option Bool} (hknown : s.Known)
    (hdirective : directive < s.store.size) (htokens : s.store.Has tokens) :
    Traced s.store (Sourced s.store) (s.otherwise directive before tokens) := by
  cases before with
  | none => exact .faultAt hdirective
  | some taken => exact traced_enterBlock hknown hdirective htokens

theorem traced_openNamespace (hknown : s.Known) (hdirective : directive < s.store.size)
    (htokens : s.store.Has tokens) :
    Traced s.store (Sourced s.store) (s.openNamespace directive tokens) := by
  refine (traced_expect .word "a namespace name" hdirective htokens).bind fun name _ => .ok ?_
  exact .quiet ⟨hknown.opening, hknown.output, hknown.captures⟩ rfl hdirective

theorem traced_closeNamespace (hknown : s.Known) (hdirective : directive < s.store.size) :
    Traced s.store (Sourced s.store) (s.closeNamespace directive) := by
  unfold closeNamespace
  split
  · refine .ok (.quiet ?_ rfl hdirective)
    exact ⟨hknown.opening, hknown.output, hknown.captures⟩
  · exact .faultAt hdirective

theorem traced_startCapture {kind : Splice} {afterStar : Bool} (hknown : s.Known)
    (hdirective : directive < s.store.size) (htokens : s.store.Has tokens) :
    Traced s.store (Sourced s.store) (s.startCapture kind directive afterStar tokens) := by
  refine (traced_expect .openParen "`(`" hdirective htokens).bind fun opening hopening => .ok ?_
  refine .quiet ⟨hknown.opening, hknown.output, ?_⟩ rfl hdirective
  refine List.forall_mem_cons.mpr ⟨?_, hknown.captures⟩
  exact has_cons.mpr ⟨hdirective, has_cons.mpr ⟨hopening.1, has_nil s.store⟩⟩

theorem traced_direct {before : Option Bool} {previous : Option TokenId} (hknown : s.Known)
    (hdirective : directive < s.store.size) (htokens : s.store.Has tokens) :
    Traced s.store (Sourced s.store) (s.direct directive before previous tokens) := by
  unfold direct
  dsimp only
  split
  · exact traced_define hknown hdirective htokens
  · exact traced_undefine hknown hdirective htokens
  · exact traced_importText hknown hdirective htokens
  · exact traced_region hknown hdirective htokens
  · exact traced_condition hknown hdirective htokens
  · exact traced_conditionDefined hknown hdirective htokens
  · exact traced_otherwise hknown hdirective htokens
  · exact traced_openNamespace hknown hdirective htokens
  · exact traced_closeNamespace hknown hdirective
  · exact traced_startCapture hknown hdirective htokens
  · split
    · exact traced_invoke hknown hdirective htokens
    · exact .faultAt hdirective

theorem traced_singleWord {arguments : List (List TokenId)} (hcause : cause < s.store.size)
    (harguments : ∀ argument ∈ arguments, s.store.Has argument) :
    Traced s.store (fun word => word < s.store.size) (s.singleWord cause arguments) := by
  unfold singleWord
  split
  · next word =>
      split
      · exact .ok (has_cons.mp (harguments [word] List.mem_cons_self)).1
      · exact .faultAt hcause
  · exact .faultAt hcause

theorem traced_literal (htoken : token < s.store.size) :
    Traced s.store (fun _ => True) (s.literal token) := by
  unfold literal
  split
  · split
    · exact .ok trivial
    · exact .faultAt htoken
  · exact .faultAt htoken

theorem traced_summand {argument : List TokenId} (hdirective : directive < s.store.size)
    (hargument : s.store.Has argument) :
    Traced s.store (fun summand => ∀ width, summand.2 = some width → width < s.store.size)
      (s.summand directive argument) := by
  unfold summand
  split
  · next number =>
      exact (traced_literal (has_cons.mp hargument).1).andThen fun value => .ok nofun
  · next sign number =>
      obtain ⟨hsign, hargument⟩ := has_cons.mp hargument
      have hnumber := (has_cons.mp hargument).1
      split
      · exact (traced_literal hnumber).andThen fun value => .ok nofun
      · refine (traced_literal hnumber).andThen fun value => .ok ?_
        rintro width ⟨⟩
        exact hnumber
      · exact .faultAt hsign
  · exact .faultAt hdirective

theorem traced_sumFrom {sum : Number} {widths : Option Bool} {arguments : List (List TokenId)}
    (hdirective : directive < s.store.size)
    (harguments : ∀ argument ∈ arguments, s.store.Has argument) :
    Traced s.store (fun _ => True) (s.sumFrom directive sum widths arguments) := by
  induction arguments generalizing sum widths with
  | nil => exact .ok trivial
  | cons argument rest ih =>
      obtain ⟨hargument, hrest⟩ := List.forall_mem_cons.mp harguments
      refine (traced_summand hdirective hargument).bind fun summand hwidth => ?_
      dsimp only
      split
      · exact .faultAt hdirective
      · split
        · next width hsome =>
            split
            · exact .faultAt (hwidth width hsome)
            · exact ih hrest
        · exact ih hrest

theorem traced_finishCapture {capture : Capture} {arguments : List (List TokenId)}
    (hknown : s.Known) (hcapture : s.store.Has capture.tokens)
    (harguments : ∀ argument ∈ arguments, s.store.Has argument) (htokens : s.store.Has tokens) :
    Traced s.store (Sourced s.store) (s.finishCapture capture arguments tokens) := by
  have hdirective := (has_cons.mp hcapture).1
  unfold finishCapture
  dsimp only
  split
  · refine (traced_singleWord hdirective harguments).bind fun word _ => ?_
    exact .ok (hknown.sourced_splice _ _ hdirective)
  · refine (traced_singleWord hdirective harguments).bind fun word hword => ?_
    split
    · exact traced_invoke hknown hdirective htokens
    · exact .faultAt hword
  · split
    · exact .ok (hknown.sourced_splice _ _ hdirective)
    · exact .faultAt hdirective
  · refine (traced_singleWord hdirective harguments).bind fun word _ => ?_
    exact .ok (hknown.sourced_splice _ _ hdirective)
  · refine (traced_sumFrom hdirective harguments).andThen fun sum => .ok ?_
    have hstar := grows_synthesizeToken .star ['*'] hdirective
    have hsum (store : TokenStore) : (store.synthesizeToken capture.directive .number
        sum.1.literal.toList).2.Has [(store.synthesizeToken capture.directive .number
          sum.1.literal.toList).1] :=
      List.forall_mem_singleton.mpr (store.lt_size_synthesizeToken _ _ _)
    split
    · have hnumber := grows_synthesizeToken .number sum.1.literal.toList
        (Nat.lt_of_lt_of_le hdirective hstar.size_le)
      refine hknown.sourced_push 0 hdirective (hstar.trans hnumber) (has_cons.mpr ⟨?_, hsum _⟩)
      exact Nat.lt_of_lt_of_le (s.store.lt_size_synthesizeToken _ _ _) hnumber.size_le
    · exact hknown.sourced_push 0 hdirective (grows_synthesizeToken _ _ hdirective) (hsum _)

theorem traced_feedCapture {capture : Capture} {outer : List Capture}
    {previous : Option TokenId} {pending : Pending} (hknown : s.Known)
    (hcaptures : s.captures = capture :: outer) (htoken : token < s.store.size)
    (hpending : s.store.Has pending.tokens) :
    Traced s.store (Sourced s.store) (s.feedCapture capture outer token previous pending) := by
  have hheld := hknown.captures
  rw [hcaptures] at hheld
  obtain ⟨hcapture, houter⟩ := List.forall_mem_cons.mp hheld
  obtain ⟨hdirective, hlist⟩ := has_cons.mp hcapture
  obtain ⟨hopening, hreader⟩ := has_cons.mp hlist
  unfold feedCapture
  split
  · exact .faultAt hopening
  · exact traced_direct hknown htoken hpending
  · split
    · next reader hfeed =>
        refine .ok (.quiet ⟨hknown.opening, hknown.output, ?_⟩ rfl htoken)
        refine List.forall_mem_cons.mpr ⟨?_, houter⟩
        have hread := has_cons.mpr ⟨htoken, hreader⟩
        have hnext := hread.subset (ArgumentReader.subset_of_feed_eq_inl hfeed)
        exact has_cons.mpr ⟨hdirective, has_cons.mpr ⟨hopening, hnext⟩⟩
    · next arguments hfeed =>
        have hafter : ({ s with captures := outer } : Expansion).Known :=
          ⟨hknown.opening, hknown.output, houter⟩
        have harguments := hreader.subset (ArgumentReader.subset_of_feed_eq_inr hfeed)
        exact traced_finishCapture hafter hcapture (has_flatten.mp harguments) hpending

theorem traced_emitLabel (hknown : s.Known) (htoken : token < s.store.size) :
    Traced s.store (Sourced s.store) ((s.emitLabel token).settle token) := by
  unfold emitLabel
  split
  · exact .ok (.quiet (hknown.emit (has_cons.mpr ⟨htoken, has_nil s.store⟩)) rfl htoken)
  · have hgrows := grows_addText expansionName (s.qualify (s.store.text token) ++ ":").toList htoken
    have hlabel := lt_size_addText s.store expansionName
      (s.qualify (s.store.text token) ++ ":").toList (some token)
    exact .ok ⟨hgrows, (hknown.grown hgrows).emit hlabel, nofun,
      Nat.lt_of_lt_of_le htoken hgrows.size_le⟩

theorem traced_process {previous : Option TokenId} {pending : Pending} (hknown : s.Known)
    (htoken : token < s.store.size) (hpending : s.store.Has pending.tokens) :
    Traced s.store (Sourced s.store) (s.process token previous pending) := by
  have hfresh := hknown.fresh none
  have hemitted : ({ s with lastTaken := none }.emit [token] : Expansion).Known :=
    hfresh.emit (has_cons.mpr ⟨htoken, has_nil s.store⟩)
  unfold process
  dsimp only
  split
  · exact .ok (.quiet hknown rfl htoken)
  · exact .ok (.quiet (hknown.emit (has_cons.mpr ⟨htoken, has_nil s.store⟩)) rfl htoken)
  · exact .faultAt htoken
  · exact .faultAt htoken
  · split
    · exact .faultAt htoken
    · next block outer hblocks =>
        refine .ok (.quiet ⟨?_, hknown.output, hknown.captures⟩ rfl htoken)
        intro other hmem
        exact hknown.opening other (hblocks ▸ List.mem_cons_of_mem block hmem)
  · exact traced_direct hfresh htoken hpending
  · exact traced_emitLabel hfresh htoken
  · split
    · exact traced_invoke hfresh htoken hpending
    · exact .ok (.quiet hemitted rfl htoken)
  · exact .ok (.quiet hemitted rfl htoken)

/-- Whatever a token makes happen, or where it fails, goes back to tokens that were there. -/
theorem traced_react {previous : Option TokenId} {pending : Pending} (hknown : s.Known)
    (htoken : token < s.store.size) (hpending : s.store.Has pending.tokens) :
    Traced s.store (Sourced s.store) (s.react token previous pending) := by
  unfold react
  split
  · exact traced_process hknown htoken hpending
  · next capture outer hcaptures => exact traced_feedCapture hknown hcaptures htoken hpending

theorem traced_advance {store : TokenStore} {reaction : Reaction} {pending : Pending}
    (hsourced : Sourced store reaction) (hpending : store.Has pending.tokens) :
    Traced store (fun next => reaction.state.store.Has next.tokens)
      (advance reaction pending) := by
  have hleft : reaction.state.store.Has (pending.drop reaction.consumed).tokens :=
    hsourced.grows.has (hpending.subset (pending.tokens_drop_subset reaction.consumed))
  unfold advance
  dsimp only
  split
  · exact .ok hleft
  · next frame hframe =>
      split
      · next pushed hpush =>
          refine .ok ?_
          rw [Pending.tokens_of_push? hpush]
          exact has_append.mpr ⟨hsourced.frame frame hframe, hleft⟩
      · exact .fault hsourced.grows hsourced.cause

/-- A step adds tokens with causes, and its faults are at tokens. -/
theorem traced_step {pending : Pending} (hknown : s.Known) (hpending : s.store.Has pending.tokens) :
    Traced s.store (fun stepped => s.store.Grows stepped.1.store ∧ stepped.1.Known ∧
      ∀ next, stepped.2 = some next → stepped.1.store.Has next.tokens) (s.step pending) := by
  unfold step
  split
  · exact .ok ⟨.refl _, hknown, nofun⟩
  · next token rest hread =>
      obtain ⟨htoken, hrest⟩ := Pending.mem_of_read? hread
      have hleft := hpending.subset hrest
      refine (traced_react hknown (hpending token htoken) hleft).bind fun reaction hsourced => ?_
      refine (traced_advance hsourced hleft).bind fun next hnext => .ok ?_
      refine ⟨hsourced.grows, hsourced.known, ?_⟩
      rintro other ⟨⟩
      exact hnext

theorem traced_finish (hknown : s.Known) :
    Traced s.store (fun answer => s.store.Grows answer.2 ∧ answer.2.Has answer.1) s.finish := by
  unfold finish
  split
  · next capture outer hcaptures =>
      have hcapture := hknown.captures capture (hcaptures ▸ List.mem_cons_self)
      exact .faultAt (has_cons.mp (has_cons.mp hcapture).2).1
  · next block outer _ hblocks =>
      exact .faultAt (hknown.opening block (hblocks ▸ List.mem_cons_self))
  · exact .ok ⟨.refl _, hknown.output⟩

/-- A run gives tokens of a store that grew from its first, or fails at a token of one. -/
theorem traced_run {pending : Pending} (hknown : s.Known) (hpending : s.store.Has pending.tokens) :
    Traced s.store (fun answer => s.store.Grows answer.2 ∧ answer.2.Has answer.1)
      (s.run pending) := by
  -- every step makes the stack of lists smaller, so the induction is on its rank
  induction s, pending using run.induct with
  | case1 s pending error hstep =>
      rw [run_eq, hstep]
      exact (hstep ▸ traced_step hknown hpending).error
  | case2 s pending after hstep =>
      obtain ⟨hgrows, hafter, -⟩ := (hstep ▸ traced_step hknown hpending).post_of_ok
      rw [run_eq, hstep]
      refine .of_grows hgrows ((traced_finish hafter).imp fun answer hanswer => ?_)
      exact ⟨hgrows.trans hanswer.1, hanswer.2⟩
  | case3 s pending after next hstep ih =>
      obtain ⟨hgrows, hafter, hnext⟩ := (hstep ▸ traced_step hknown hpending).post_of_ok
      rw [run_eq, hstep]
      refine .of_grows hgrows ((ih hafter (hnext next rfl)).imp fun answer hanswer => ?_)
      exact ⟨hgrows.trans hanswer.1, hanswer.2⟩

/-- The store once a token was acted on, also when that failed. Joining arguments is the only thing
that adds a text and may fail then. -/
def storeAfter (s : Expansion) (token : TokenId) (previous : Option TokenId) (pending : Pending) :
    TokenStore :=
  match s.react token previous pending, s.captures with
  | .ok reaction, _ => reaction.state.store
  | .error _, [] => s.store
  | .error _, capture :: _ =>
    match capture.splice, capture.reader.feed none (s.store.kind token) token with
    | .concat, .inr arguments =>
      (s.splice capture.directive (arguments.flatten.flatMap s.store.chars) 0).state.store
    | _, _ => s.store

/-- The store once no token is left, or at the first fault. -/
def finalStore (s : Expansion) (pending : Pending) : TokenStore :=
  match _stepped : s.step pending with
  | .error _ =>
    match pending.read? with
    | none => s.store
    | some (token, rest) => s.storeAfter token pending.last rest
  | .ok (after, none) => after.store
  | .ok (after, some next) => after.finalStore next
termination_by pending.rank
decreasing_by exact less_rank_of_step _stepped

theorem finalStore_eq (s : Expansion) (pending : Pending) :
    s.finalStore pending = match s.step pending with
      | .error _ =>
        match pending.read? with
        | none => s.store
        | some (token, rest) => s.storeAfter token pending.last rest
      | .ok (after, none) => after.store
      | .ok (after, some next) => after.finalStore next := by
  rw [finalStore]
  split <;> simp only [*]

theorem grows_storeAfter {previous : Option TokenId} {pending : Pending} (hknown : s.Known)
    (htoken : token < s.store.size) (hpending : s.store.Has pending.tokens) :
    s.store.Grows (s.storeAfter token previous pending) := by
  have hreact : Traced s.store (Sourced s.store) (s.react token previous pending) :=
    traced_react hknown htoken hpending
  unfold storeAfter
  split
  · next reaction hok => exact (hok ▸ hreact).post_of_ok.grows
  · exact .refl _
  · next capture outer _ hcaptures =>
      have hcapture := hknown.captures capture (hcaptures ▸ List.mem_cons_self)
      split
      · exact grows_addText expansionName _ (has_cons.mp hcapture).1
      · exact .refl _

theorem grows_finalStore {pending : Pending} (hknown : s.Known)
    (hpending : s.store.Has pending.tokens) : s.store.Grows (s.finalStore pending) := by
  induction s, pending using run.induct with
  | case1 s pending error hstep =>
      rw [finalStore_eq, hstep]
      dsimp only
      split
      · exact .refl _
      · next token rest hread =>
          obtain ⟨htoken, hrest⟩ := Pending.mem_of_read? hread
          exact grows_storeAfter hknown (hpending token htoken) (hpending.subset hrest)
  | case2 s pending after hstep =>
      rw [finalStore_eq, hstep]
      exact (hstep ▸ traced_step hknown hpending).post_of_ok.1
  | case3 s pending after next hstep ih =>
      obtain ⟨hgrows, hafter, hnext⟩ := (hstep ▸ traced_step hknown hpending).post_of_ok
      rw [finalStore_eq, hstep]
      exact hgrows.trans (ih hafter (hnext next rfl))

/-- A run that ends well gives the store that it leaves. -/
theorem finalStore_of_run {pending : Pending} {answer : List TokenId × TokenStore}
    (hrun : s.run pending = .ok answer) : s.finalStore pending = answer.2 := by
  induction s, pending using run.induct with
  | case1 s pending error hstep =>
      rw [run_eq, hstep] at hrun
      cases hrun
  | case2 s pending after hstep =>
      rw [run_eq, hstep] at hrun
      rw [finalStore_eq, hstep]
      unfold finish at hrun
      dsimp only at hrun ⊢
      split at hrun <;> cases hrun
      rfl
  | case3 s pending after next hstep ih =>
      rw [run_eq, hstep] at hrun
      rw [finalStore_eq, hstep]
      exact ih hrun

theorem Known.start (config : AssemblyConfig) (importer : Importer) (store : TokenStore) :
    (Expansion.start config importer store).Known :=
  ⟨nofun, nofun, nofun⟩

variable {pending next : Pending}

/-- Everything that is still to be read, or may be read again, is in the store. -/
structure Grounded (s : Expansion) (pending : Pending) : Prop where
  pending : s.store.Has pending.tokens
  bodies : ∀ entry ∈ s.macros, s.store.Has entry.2.body

theorem Grounded.start {config : AssemblyConfig} {importer : Importer} {store : TokenStore}
    (htokens : store.Has tokens) :
    (start config importer store).Grounded (.ofTokens tokens) :=
  ⟨htokens, nofun⟩

theorem Grounded.step (hgrounded : s.Grounded pending) (hknown : s.Known)
    (hstep : s.step pending = .ok (after, some next)) : after.Grounded next := by
  obtain ⟨hgrows, -, hnext⟩ := (hstep ▸ traced_step hknown hgrounded.pending).post_of_ok
  have hbodies : ∀ entry ∈ s.macros, after.store.Has entry.2.body :=
    fun entry hmem => hgrows.has (hgrounded.bodies entry hmem)
  refine ⟨hnext next rfl, ?_⟩
  cases changes_step hstep with
  | none hmacros | opened hmacros | closed hmacros => rwa [hmacros]
  | defined hmacros hbody =>
      rw [hmacros]
      have hpending := hgrows.has hgrounded.pending
      exact List.forall_mem_cons.mpr ⟨hpending.subset hbody, hbodies⟩
  | undefined hmacros =>
      rw [hmacros]
      exact fun entry hmem => hbodies entry (List.mem_of_mem_filter hmem)

theorem Reaches.grounded (hreaches : Reaches s pending after next) (hknown : s.Known)
    (hgrounded : s.Grounded pending) : after.Known ∧ after.Grounded next := by
  induction hreaches with
  | refl => exact ⟨hknown, hgrounded⟩
  | step _ hstep ih =>
      obtain ⟨hmiddle, hbetween⟩ := ih
      have hafter := (hstep ▸ traced_step hmiddle hbetween.pending).post_of_ok
      exact ⟨hafter.2.1, hbetween.step hmiddle hstep⟩

/-- Expansion that starts with tokens of a store never reads a token that is in no store. -/
theorem grounded_of_reaches {config : AssemblyConfig} {importer : Importer} {store : TokenStore}
    (htokens : store.Has tokens)
    (hreaches : Reaches (start config importer store) (.ofTokens tokens) s pending) :
    s.Grounded pending :=
  (hreaches.grounded (.start config importer store) (.start htokens)).2

end Expansion

end VectorStack
