import VectorStack.Proofs.Expansion.Conditionals
import VectorStack.Proofs.Expansion.Output
/-!
Regions. Each region is taken right below the one before it, whatever is read in between, and one
that does not fit ends the expansion. Outside of argument lists a region leaves a position and a
label behind it in the output, where they stay.
-/

namespace VectorStack

/-- What is written behind a region directive. -/
structure RegionText where
  name : TokenId
  size : TokenId
  bytes : Nat
  /-- A minus sign stands before the size. -/
  atEnd : Bool
deriving DecidableEq, Repr

/-- Read what is written behind a region directive. -/
def TokenStore.readRegion? (store : TokenStore) : List TokenId → Option RegionText
  | [] => none
  | name :: rest =>
    let atEnd := (rest.head?.map store.kind) == some .minus
    match if atEnd then rest.drop 1 else rest with
    | [] => none
    | size :: _ =>
      if store.kind name = .word ∧ store.kind size = .number then
        ((Number.parse? (store.chars size)).bind Number.natural?).map (⟨name, size, ·, atEnd⟩)
      else none

/-- A piece of memory that is taken during expansion. -/
structure Region where
  /-- The name of its label, behind the names of the namespaces that are open. -/
  label : String
  size : Nat
  /-- Where the region before it starts. -/
  stop : Nat
  /-- Its label stands for its end and not for its start. -/
  atEnd : Bool
  /-- It is taken in the argument list of another directive. -/
  inArguments : Bool
  /-- The token of its size, where it is reported that it does not fit. -/
  token : TokenId
deriving DecidableEq, Repr

namespace Region

def start (r : Region) : Nat := r.stop - r.size

/-- What its label stands for. -/
def labelled (r : Region) : Nat := if r.atEnd then r.stop else r.start

/-- The addresses of a region. -/
def Contains (r : Region) (address : Nat) : Prop := r.start ≤ address ∧ address < r.stop

/-- Bytes that regions take together. -/
def total (regions : List Region) : Nat := (regions.map size).sum

@[simp] theorem total_cons (r : Region) (rest : List Region) :
    total (r :: rest) = r.size + total rest :=
  List.sum_cons

/-- Regions one below the other, the first of them below a base. Only the last may not fit. -/
inductive Stacked : (base : Nat) → List Region → Prop
  | nil {base : Nat} : Stacked base []
  | last {r : Region} : Stacked r.stop [r]
  | cons {r : Region} {rest : List Region} (hfits : r.size ≤ r.stop)
      (hrest : Stacked r.start rest) : Stacked r.stop (r :: rest)

variable {base : Nat} {r : Region} {regions before after : List Region}

/-- A region ends below all regions before it. -/
theorem Stacked.stop_eq (hstacked : Stacked base (before ++ r :: after)) :
    r.stop + total before = base := by
  induction before generalizing base with
  | nil => cases hstacked <;> rfl
  | cons first before ih =>
      generalize hregions : first :: before ++ r :: after = regions at hstacked
      cases hstacked with
      | nil => cases hregions
      | last => exact absurd (List.cons_eq_cons.mp hregions).2 (by simp)
      | cons hfits hrest =>
          obtain ⟨rfl, rfl⟩ := List.cons_eq_cons.mp hregions
          have hstop := ih hrest
          rw [start] at hstop
          rw [total_cons]
          omega

theorem Stacked.stop_le (hstacked : Stacked base regions) : ∀ r ∈ regions, r.stop ≤ base := by
  intro r hmem
  obtain ⟨before, after, rfl⟩ := List.append_of_mem hmem
  have hstop := hstacked.stop_eq
  omega

/-- Every region lies below those before it. -/
theorem Stacked.pairwise (hstacked : Stacked base regions) :
    regions.Pairwise fun upper lower => lower.stop ≤ upper.start := by
  induction hstacked with
  | nil => exact .nil
  | last => exact List.pairwise_singleton _ _
  | cons hfits hrest ih => exact .cons hrest.stop_le ih

end Region

/-- Among tokens stands the position that a region's label stands for, and that label behind it. -/
def Region.MarkedIn (r : Region) (store : TokenStore) (ids : List TokenId) : Prop :=
  ∃ front mark label back, ids = front ++ mark :: label :: back ∧
    store.kind mark = .position ∧ store.chars mark = '@' :: (Nat.repr r.labelled).toList ∧
    store.kind label = .label ∧ store.text label = r.label

namespace Expansion

variable {s after : Expansion} {pending next left : Pending} {directive token cause : TokenId}
  {tokens : List TokenId} {text : RegionText} {r : Region} {reaction : Reaction}

/-- The region that a directive takes. -/
def regionOf (s : Expansion) (text : RegionText) : Region :=
  ⟨s.qualify (s.store.text text.name), text.bytes, s.regionStart, text.atEnd,
    !s.captures.isEmpty, text.size⟩

/-- The region that is taken in the next step, if the next token is a directive that takes one. -/
def nextRegion? (s : Expansion) (pending : Pending) : Option Region :=
  pending.read?.bind fun (directive, left) =>
    if s.store.kind directive = .directive ∧
        Directive.ofName? (s.store.directiveName directive) = some .region then
      (s.store.readRegion? left.tokens).map s.regionOf
    else none

/-- The regions that are taken from a state on, in order. The last one may not fit. -/
def regionsFrom (s : Expansion) (pending : Pending) : List Region :=
  (s.nextRegion? pending).toList ++
    match _stepped : s.step pending with
    | .ok (after, some next) => after.regionsFrom next
    | _ => []
termination_by pending.rank
decreasing_by exact less_rank_of_step _stepped

theorem regionsFrom_eq (s : Expansion) (pending : Pending) :
    s.regionsFrom pending = (s.nextRegion? pending).toList ++
      match s.step pending with
      | .ok (after, some next) => after.regionsFrom next
      | _ => [] := by
  rw [regionsFrom]
  split <;> simp only [*]

/-- The regions that a run takes, if it ends within a number of steps. -/
def regionsWithin? : Nat → Expansion → Pending → Option (List Region)
  | 0, _, _ => none
  | count + 1, s, pending =>
    let taken := (s.nextRegion? pending).toList
    match s.step pending with
    | .ok (after, some next) => (regionsWithin? count after next).map (taken ++ ·)
    | _ => some taken

theorem regionsFrom_of_regionsWithin? {count : Nat} {regions : List Region}
    (hwithin : regionsWithin? count s pending = some regions) :
    s.regionsFrom pending = regions := by
  induction count generalizing s pending regions with
  | zero => cases hwithin
  | succ count ih =>
      rw [regionsWithin?] at hwithin
      rw [regionsFrom_eq]
      split at hwithin
      · obtain ⟨others, hothers, rfl⟩ := Option.map_eq_some_iff.mp hwithin
        exact congrArg _ (ih hothers)
      · cases hwithin
        exact List.append_nil _

/-- What a region directive does, as far as its text can be read. -/
theorem region_of_readRegion? (hread : s.store.readRegion? tokens = some text) :
    s.region directive tokens =
      if s.regionStart < text.bytes then
        .error (s.fault text.size "regions do not fit below the region base")
      else
        .ok ({ s with regionStart := (s.regionOf text).start }.splice directive
          ("@" ++ Nat.repr (s.regionOf text).labelled ++ " " ++ s.store.text text.name ++
            ":").toList (if text.atEnd then 3 else 2)) := by
  cases tokens with
  | nil => cases hread
  | cons name rest =>
      rw [TokenStore.readRegion?] at hread
      split at hread
      · cases hread
      · next size behind hbehind =>
          split at hread
          · next hkinds =>
              obtain ⟨bytes, hbytes, rfl⟩ := Option.map_eq_some_iff.mp hread
              have hname : s.store.expect directive .word "a region name" (name :: rest) =
                  .ok (name, rest) := if_pos hkinds.1
              have hsize : s.store.expect directive .number "a region size" (size :: behind) =
                  .ok (size, behind) := if_pos hkinds.2
              rw [region, hname]
              dsimp only [bind, Except.bind]
              rw [hbehind, hsize]
              dsimp only
              rw [hbytes]
              rfl
          · cases hread

theorem isSome_readRegion?_of_region (hreact : s.region directive tokens = .ok reaction) :
    (s.store.readRegion? tokens).isSome = true := by
  obtain ⟨⟨name, rest⟩, hname, hreact⟩ := bind_eq_ok.mp hreact
  obtain ⟨⟨size, behind⟩, hsize, hreact⟩ := bind_eq_ok.mp hreact
  have hbehind := TokenStore.tokens_of_expect hsize
  dsimp only at hreact hbehind
  split at hreact
  · cases hreact
  · next bytes hbytes =>
      rw [TokenStore.tokens_of_expect hname, TokenStore.readRegion?]
      rw [hbehind]
      dsimp only
      rw [if_pos ⟨TokenStore.kind_of_expect hname, TokenStore.kind_of_expect hsize⟩, hbytes]
      rfl

theorem regionStart_enterBlock {taken isElse : Bool} {before : Nat}
    (hreact : s.enterBlock cause taken isElse before tokens = .ok reaction) :
    reaction.state.regionStart = s.regionStart := by
  obtain ⟨⟨opening, started⟩, -, hreact⟩ := bind_eq_ok.mp hreact
  dsimp only at hreact
  split at hreact
  · cases hreact
    rfl
  · obtain ⟨ended, -, hreact⟩ := bind_eq_ok.mp hreact
    cases hreact
    rfl

theorem regionStart_invoke {key : String} (hreact : s.invoke key cause tokens = .ok reaction) :
    reaction.state.regionStart = s.regionStart := by
  unfold invoke at hreact
  split at hreact
  · cases hreact
  · dsimp only at hreact
    split at hreact
    all_goals
      obtain ⟨⟨arguments, taken⟩, -, hreact⟩ := bind_eq_ok.mp hreact
      dsimp only at hreact
      split at hreact <;> cases hreact
      rfl

/-- No other directive takes a region. -/
theorem regionStart_direct {before : Option Bool} {previous : Option TokenId}
    (hother : Directive.ofName? (s.store.directiveName directive) ≠ some .region)
    (hreact : s.direct directive before previous tokens = .ok reaction) :
    reaction.state.regionStart = s.regionStart := by
  unfold direct at hreact
  dsimp only at hreact
  split at hreact
  -- define
  · obtain ⟨⟨name, rest⟩, -, hreact⟩ := bind_eq_ok.mp hreact
    dsimp only at hreact
    split at hreact
    · cases hreact
    · obtain ⟨⟨⟨params, restName⟩, listed⟩, -, hreact⟩ := bind_eq_ok.mp hreact
      obtain ⟨⟨body, taken⟩, -, hreact⟩ := bind_eq_ok.mp hreact
      cases hreact
      rfl
  -- undefine
  · obtain ⟨⟨name, rest⟩, -, hreact⟩ := bind_eq_ok.mp hreact
    dsimp only at hreact
    split at hreact <;> cases hreact
    rfl
  -- import
  · obtain ⟨⟨target, rest⟩, -, hreact⟩ := bind_eq_ok.mp hreact
    dsimp only at hreact
    repeat' split at hreact
    all_goals
      obtain ⟨file, -, hreact⟩ := bind_eq_ok.mp hreact
      split at hreact <;> cases hreact
      rfl
  · next hregion => exact absurd hregion hother
  · obtain ⟨⟨group, taken⟩, -, hreact⟩ := bind_eq_ok.mp hreact
    obtain ⟨⟨expression, rest⟩, -, hreact⟩ := bind_eq_ok.mp hreact
    obtain ⟨value, -, hreact⟩ := bind_eq_ok.mp hreact
    exact regionStart_enterBlock hreact
  · obtain ⟨⟨name, rest⟩, -, hreact⟩ := bind_eq_ok.mp hreact
    exact regionStart_enterBlock hreact
  · unfold otherwise at hreact
    split at hreact
    · exact regionStart_enterBlock hreact
    · cases hreact
  · obtain ⟨⟨name, rest⟩, -, hreact⟩ := bind_eq_ok.mp hreact
    cases hreact
    rfl
  · unfold closeNamespace at hreact
    split at hreact <;> cases hreact
    rfl
  · obtain ⟨⟨opening, rest⟩, -, hreact⟩ := bind_eq_ok.mp hreact
    cases hreact
    rfl
  · split at hreact
    · exact regionStart_invoke hreact
    · cases hreact

theorem regionStart_finishCapture {capture : Capture} {arguments : List (List TokenId)}
    (hreact : s.finishCapture capture arguments tokens = .ok reaction) :
    reaction.state.regionStart = s.regionStart := by
  unfold finishCapture at hreact
  dsimp only at hreact
  split at hreact
  · obtain ⟨word, -, hreact⟩ := bind_eq_ok.mp hreact
    cases hreact
    rfl
  · obtain ⟨word, -, hreact⟩ := bind_eq_ok.mp hreact
    split at hreact
    · exact regionStart_invoke hreact
    · cases hreact
  · split at hreact <;> cases hreact
    rfl
  · obtain ⟨word, -, hreact⟩ := bind_eq_ok.mp hreact
    cases hreact
    rfl
  · obtain ⟨⟨sum, widths⟩, -, hreact⟩ := bind_eq_ok.mp hreact
    cases hreact
    rfl

theorem regionStart_process {previous : Option TokenId}
    (hother : s.store.kind token = .directive →
      Directive.ofName? (s.store.directiveName token) ≠ some .region)
    (hreact : s.process token previous left = .ok reaction) :
    reaction.state.regionStart = s.regionStart := by
  unfold process at hreact
  dsimp only at hreact
  split at hreact
  · cases hreact
    rfl
  · cases hreact
    rfl
  · cases hreact
  · cases hreact
  · split at hreact <;> cases hreact
    rfl
  · next hkind => exact regionStart_direct (s := { s with lastTaken := none }) (hother hkind) hreact
  · cases hreact
    unfold emitLabel
    split <;> rfl
  · split at hreact
    · exact regionStart_invoke (s := { s with lastTaken := none }) hreact
    · cases hreact
      rfl
  · cases hreact
    rfl

theorem regionStart_react {previous : Option TokenId}
    (hother : s.store.kind token = .directive →
      Directive.ofName? (s.store.directiveName token) ≠ some .region)
    (hreact : s.react token previous left = .ok reaction) :
    reaction.state.regionStart = s.regionStart := by
  unfold react at hreact
  split at hreact
  · exact regionStart_process hother hreact
  · next capture outer hcaptures =>
      unfold feedCapture at hreact
      split at hreact
      · cases hreact
      · next hkind => exact regionStart_direct (hother hkind) hreact
      · split at hreact
        · cases hreact
          rfl
        · exact regionStart_finishCapture (s := { s with captures := outer }) hreact

theorem direct_of_region {before : Option Bool} {previous : Option TokenId}
    (hname : Directive.ofName? (s.store.directiveName directive) = some .region) :
    s.direct directive before previous tokens = s.region directive tokens := by
  rw [TokenStore.directiveName] at hname
  rw [direct, hname]

/-- A region directive is acted on wherever it stands. -/
theorem exists_react_of_region {previous : Option TokenId}
    (hkind : s.store.kind directive = .directive)
    (hname : Directive.ofName? (s.store.directiveName directive) = some .region) :
    ∃ lastTaken, s.react directive previous left =
      ({ s with lastTaken } : Expansion).region directive left.tokens := by
  by_cases hcaptures : s.captures = []
  · refine ⟨none, ?_⟩
    rw [react_eq_process hcaptures, process, hkind]
    exact direct_of_region (s := { s with lastTaken := none }) hname
  · obtain ⟨capture, outer, hsome⟩ := List.exists_cons_of_ne_nil hcaptures
    refine ⟨s.lastTaken, ?_⟩
    rw [react_eq_feedCapture hsome, feedCapture, hkind]
    exact direct_of_region hname

/-- What happens when a region is to be taken. -/
theorem exists_react_of_nextRegion? (hnext : s.nextRegion? pending = some r) :
    ∃ directive left text lastTaken, pending.read? = some (directive, left) ∧
      s.store.readRegion? left.tokens = some text ∧ r = s.regionOf text ∧
      s.react directive pending.last left =
        if s.regionStart < r.size then
          .error (s.fault r.token "regions do not fit below the region base")
        else
          .ok (({ s with lastTaken, regionStart := r.start } : Expansion).splice directive
            ("@" ++ Nat.repr r.labelled ++ " " ++ s.store.text text.name ++ ":").toList
            (if r.atEnd then 3 else 2)) := by
  obtain ⟨⟨directive, left⟩, hread, hnext⟩ := Option.bind_eq_some_iff.mp hnext
  dsimp only at hnext
  split at hnext
  · next hregion =>
      obtain ⟨text, htext, rfl⟩ := Option.map_eq_some_iff.mp hnext
      obtain ⟨lastTaken, hreact⟩ := @exists_react_of_region s left directive pending.last
        hregion.1 hregion.2
      refine ⟨directive, left, text, lastTaken, hread, htext, rfl, hreact.trans ?_⟩
      exact region_of_readRegion? (s := { s with lastTaken }) htext
  · cases hnext

theorem stop_of_nextRegion? (hnext : s.nextRegion? pending = some r) : r.stop = s.regionStart := by
  obtain ⟨-, -, text, -, -, -, rfl, -⟩ := exists_react_of_nextRegion? hnext
  rfl

/-- A region that does not fit is a fault at its size. -/
theorem step_of_region_lt (hnext : s.nextRegion? pending = some r) (hlt : r.stop < r.size) :
    s.step pending = .error (s.fault r.token "regions do not fit below the region base") := by
  obtain ⟨directive, left, text, lastTaken, hread, -, -, hreact⟩ :=
    exists_react_of_nextRegion? hnext
  rw [stop_of_nextRegion? hnext] at hlt
  rw [step_of_react hread (hreact.trans (if_pos hlt))]
  rfl

/-- A region that is taken lies right below those before it. -/
theorem regionStart_of_nextRegion? (hnext : s.nextRegion? pending = some r)
    (hstep : s.step pending = .ok (after, some next)) :
    r.size ≤ r.stop ∧ after.regionStart = r.start := by
  have hfits : ¬ r.stop < r.size := by
    intro hlt
    cases (step_of_region_lt hnext hlt).symm.trans hstep
  obtain ⟨directive, left, text, lastTaken, hread, -, -, hreact⟩ :=
    exists_react_of_nextRegion? hnext
  rw [stop_of_nextRegion? hnext] at hfits
  rw [step_of_react hread (hreact.trans (if_neg hfits))] at hstep
  obtain ⟨reaction, hok, hstep⟩ := bind_eq_ok.mp hstep
  obtain ⟨moved, -, hsame⟩ := bind_eq_ok.mp hstep
  cases hok
  cases hsame
  refine ⟨?_, rfl⟩
  rw [stop_of_nextRegion? hnext]
  exact Nat.not_lt.mp hfits

/-- Without a region to be taken the lowest one stays where it is. -/
theorem regionStart_of_nextRegion?_eq_none (hnext : s.nextRegion? pending = none)
    (hstep : s.step pending = .ok (after, some next)) : after.regionStart = s.regionStart := by
  unfold step at hstep
  split at hstep
  · cases hstep
  · next token left hread =>
      obtain ⟨reaction, hreact, hstep⟩ := bind_eq_ok.mp hstep
      obtain ⟨moved, -, hsame⟩ := bind_eq_ok.mp hstep
      cases hsame
      refine regionStart_react (fun hkind hname => ?_) hreact
      -- the text of a region directive that is acted on can be read
      obtain ⟨lastTaken, hregion⟩ := @exists_react_of_region s left token pending.last hkind hname
      have hsome := isSome_readRegion?_of_region (hregion.symm.trans hreact)
      obtain ⟨text, htext⟩ := Option.isSome_iff_exists.mp hsome
      have hsecond : s.nextRegion? pending = some (s.regionOf text) := by
        rw [nextRegion?, hread, Option.bind_some]
        exact (if_pos ⟨hkind, hname⟩).trans (congrArg (Option.map s.regionOf) htext)
      cases hnext.symm.trans hsecond

/-- From any state on, regions are taken one below the other. -/
theorem stacked_regionsFrom (s : Expansion) (pending : Pending) :
    Region.Stacked s.regionStart (s.regionsFrom pending) := by
  induction s, pending using run.induct with
  | case1 s pending error hstep =>
      rw [regionsFrom_eq, hstep, List.append_nil]
      cases hnext : s.nextRegion? pending with
      | none => exact .nil
      | some r => exact stop_of_nextRegion? hnext ▸ .last
  | case2 s pending after hstep =>
      rw [regionsFrom_eq, hstep, List.append_nil]
      cases hnext : s.nextRegion? pending with
      | none => exact .nil
      | some r => exact stop_of_nextRegion? hnext ▸ .last
  | case3 s pending after next hstep ih =>
      rw [regionsFrom_eq, hstep]
      cases hnext : s.nextRegion? pending with
      | none => exact regionStart_of_nextRegion?_eq_none hnext hstep ▸ ih
      | some r =>
          obtain ⟨hfits, hstart⟩ := regionStart_of_nextRegion? hnext hstep
          rw [hstart] at ih
          exact stop_of_nextRegion? hnext ▸ .cons hfits ih

/-- Expansion fails where a region does not fit. -/
theorem run_of_region_lt (hmem : r ∈ s.regionsFrom pending) (hlt : r.stop < r.size) :
    ∃ middle between, Reaches s pending middle between ∧
      middle.nextRegion? between = some r ∧
      s.run pending =
        .error (middle.fault r.token "regions do not fit below the region base") := by
  induction s, pending using run.induct with
  | case1 s pending error hstep =>
      rw [regionsFrom_eq, hstep, List.append_nil] at hmem
      have hnext := Option.mem_toList.mp hmem
      have hfault := step_of_region_lt hnext hlt
      refine ⟨s, pending, .refl, hnext, ?_⟩
      rw [run_eq, hfault]
  | case2 s pending after hstep =>
      rw [regionsFrom_eq, hstep, List.append_nil] at hmem
      cases (step_of_region_lt (Option.mem_toList.mp hmem) hlt).symm.trans hstep
  | case3 s pending after next hstep ih =>
      rw [regionsFrom_eq, hstep] at hmem
      rcases List.mem_append.mp hmem with hmem | hmem
      · cases (step_of_region_lt (Option.mem_toList.mp hmem) hlt).symm.trans hstep
      · obtain ⟨middle, between, hreaches, hnext, hrun⟩ := ih hmem
        refine ⟨middle, between, .head hstep hreaches, hnext, ?_⟩
        rw [run_eq, hstep]
        exact hrun

theorem name_of_readRegion? {store : TokenStore} (hread : store.readRegion? tokens = some text) :
    text.name ∈ tokens ∧ store.kind text.name = .word := by
  unfold TokenStore.readRegion? at hread
  split at hread
  · cases hread
  · dsimp only at hread
    split at hread
    · cases hread
    · split at hread
      · next hkinds =>
          obtain ⟨bytes, -, rfl⟩ := Option.map_eq_some_iff.mp hread
          exact ⟨List.mem_cons_self, hkinds.1⟩
      · cases hread

/-- A region that is taken outside of argument lists puts a position and a label on top. -/
theorem exists_step_of_nextRegion? (hsound : s.Sound pending)
    (hnext : s.nextRegion? pending = some r) (hstep : s.step pending = .ok (after, some next)) :
    ∃ name more, next.tokens = s.store.size :: (s.store.size + 1) :: more ∧
      after.captures = s.captures ∧ after.namespaces = s.namespaces ∧
      s.store.size + 1 < after.store.size ∧
      after.store.kind s.store.size = .position ∧
      after.store.chars s.store.size = '@' :: (Nat.repr r.labelled).toList ∧
      after.store.kind (s.store.size + 1) = .label ∧
      after.store.text (s.store.size + 1) = name ∧ r.label = s.qualify name ∧
      Lexer.IsWord name.toList := by
  have hfits := (regionStart_of_nextRegion? hnext hstep).1
  obtain ⟨directive, left, text, lastTaken, hread, htext, hregion, hreact⟩ :=
    exists_react_of_nextRegion? hnext
  rw [stop_of_nextRegion? hnext] at hfits
  obtain ⟨hname, hkind⟩ := name_of_readRegion? htext
  have hspelled := hsound.spelled_pending _ ((Pending.mem_of_read? hread).2 hname)
  have hword := hspelled.isWord_text (.inl hkind)
  obtain ⟨later, hmade, -, hlt, hposition, hnumber, hlabel, hname⟩ :=
    @TokenStore.synthesize_position_label s.store directive r.labelled _ hword
  rw [step_of_react hread (hreact.trans (if_neg (Nat.not_lt.mpr hfits))), splice, hmade] at hstep
  obtain ⟨reaction, hok, hstep⟩ := bind_eq_ok.mp hstep
  obtain ⟨pushed, hpushed, hsame⟩ := bind_eq_ok.mp hstep
  cases hok
  cases hsame
  exact ⟨_, _, tokens_of_advance hpushed rfl, rfl, rfl, hlt, hposition, hnumber, hlabel, hname,
    hregion ▸ rfl, hword⟩

/-- The position and the label of a region that is taken outside of argument lists stay in the
output. -/
theorem markedIn_of_nextRegion? {ids : List TokenId} {store : TokenStore}
    (hsound : s.Sound pending) (hnext : s.nextRegion? pending = some r)
    (houtside : s.captures = []) (hstep : s.step pending = .ok (after, some next))
    (hrun : after.run next = .ok (ids, store)) : r.MarkedIn store ids := by
  obtain ⟨name, more, htokens, hcaptures, hnamespaces, hlt, hposition, hnumber, hlabel, hname,
    hregion, hword⟩ := exists_step_of_nextRegion? hsound hnext hstep
  have hafter := hsound.step hstep
  -- the position goes to the output, and then the label
  obtain ⟨behind, hmark, hbehind⟩ :=
    step_position (hcaptures.trans houtside) hposition htokens
  obtain ⟨last, hnamed, -⟩ := @step_label
    ({ after with lastTaken := none }.emit [s.store.size]) behind _ _
    (hcaptures.trans houtside) hlabel hbehind
  obtain ⟨label, later, hemit, hlater, hnew, hkind, htext⟩ := @exists_emitLabel
    { ({ after with lastTaken := none }.emit [s.store.size]) with lastTaken := none } _
    hafter.namespaces_isWord hlt hlabel (hname ▸ hword)
  rw [run_eq, hmark] at hrun
  dsimp only at hrun
  rw [run_eq, hnamed] at hrun
  dsimp only at hrun
  rw [hemit] at hrun
  obtain ⟨hgrown, back, hids⟩ := grows_run hrun
  have hextends : later.Extends store := hgrown
  have hall : after.store.Extends store := hlater.trans hextends
  have hmarked : store.chars s.store.size = '@' :: (Nat.repr r.labelled).toList := by
    rw [hall.chars_eq (Nat.lt_of_succ_lt hlt) (by simp [hnumber]), hnumber]
  have hlabelled : later.text label = r.label := by
    rw [hregion, ← hname]
    exact htext.trans (congrArg (qualifyIn · _) hnamespaces)
  have hspelled : Lexer.IsWord (later.text label).toList := by
    rw [htext]
    exact isWord_qualifyIn hafter.namespaces_isWord (hname ▸ hword)
  refine ⟨after.output.toList, s.store.size, label, back, ?_, ?_, hmarked, ?_, ?_⟩
  · rw [hids]
    simp [emit]
  · rw [hall.kind_eq (Nat.lt_of_succ_lt hlt), hposition]
  · rw [hextends.kind_eq hnew, hkind]
  · rw [hextends.text_eq hnew hspelled, hlabelled]

/-- All regions that are taken outside of argument lists are marked in what a run ends with. -/
theorem markedIn_of_run {ids : List TokenId} {store : TokenStore} (hsound : s.Sound pending)
    (hrun : s.run pending = .ok (ids, store)) (hmem : r ∈ s.regionsFrom pending)
    (houtside : r.inArguments = false) : r.MarkedIn store ids := by
  induction s, pending using run.induct with
  | case1 s pending error hstep =>
      rw [run_eq, hstep] at hrun
      cases hrun
  | case2 s pending after hstep =>
      -- a directive that takes a region is not the end
      rw [regionsFrom_eq, hstep, List.append_nil] at hmem
      obtain ⟨directive, left, -, -, hread, -⟩ :=
        exists_react_of_nextRegion? (Option.mem_toList.mp hmem)
      rw [step, hread] at hstep
      obtain ⟨reaction, -, hstep⟩ := bind_eq_ok.mp hstep
      obtain ⟨moved, -, hsame⟩ := bind_eq_ok.mp hstep
      cases hsame
  | case3 s pending after next hstep ih =>
      rw [regionsFrom_eq, hstep] at hmem
      rw [run_eq, hstep] at hrun
      rcases List.mem_append.mp hmem with hmem | hmem
      · have hnext := Option.mem_toList.mp hmem
        have hcaptures : s.captures = [] := by
          obtain ⟨-, -, text, -, -, -, rfl, -⟩ := exists_react_of_nextRegion? hnext
          simpa [regionOf] using houtside
        exact markedIn_of_nextRegion? hsound hnext hcaptures hstep hrun
      · exact ih (hsound.step hstep) hrun hmem

end Expansion

end VectorStack
