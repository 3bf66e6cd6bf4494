import VectorStack.Proofs.Expansion.Conditionals
import VectorStack.Proofs.Expansion.Output
/-!
Labels and references to them. A label is written as such, or made by a directive from a word; a
reference is made by a directive from a word. Outside of argument lists each of them becomes one
token of the output, the word behind the names of the open namespaces. What a directive makes is
read again from a list of its own, which the stack of lists must have room for.
-/

namespace VectorStack

namespace Pending

variable {pending : Pending} {token : TokenId} {more : List TokenId}

theorem drop_succ_of_read? {left : Pending} (hread : pending.read? = some (token, left))
    (count : Nat) : pending.drop (count + 1) = left.drop count := by
  rw [drop, hread]

theorem drop_drop (pending : Pending) (first second : Nat) :
    (pending.drop first).drop second = pending.drop (first + second) := by
  induction first generalizing pending with
  | zero => rw [Nat.zero_add, drop]
  | succ first ih =>
      rw [Nat.add_right_comm]
      cases hread : pending.read? with
      | none =>
          have hstays (count : Nat) : pending.drop count = pending := by
            cases count with
            | zero => rfl
            | succ count => rw [drop, hread]
          rw [hstays, hstays, hstays]
      | some found =>
          obtain ⟨token, left⟩ := found
          rw [drop_succ_of_read? hread, drop_succ_of_read? hread]
          exact ih left

/-- Tokens are read one after another. -/
theorem read?_drop {count : Nat} (htokens : pending.tokens.drop count = token :: more) :
    (pending.drop count).read? = some (token, pending.drop (count + 1)) := by
  induction count generalizing pending with
  | zero =>
      obtain ⟨left, hread, -⟩ := exists_read?_of_tokens htokens
      rw [drop_succ_of_read? hread]
      exact hread
  | succ count ih =>
      cases hread : pending.read? with
      | none =>
          rw [tokens_of_read?_eq_none hread, List.drop_nil] at htokens
          cases htokens
      | some found =>
          obtain ⟨first, left⟩ := found
          rw [tokens_of_read? hread, List.drop_succ_cons] at htokens
          rw [drop_succ_of_read? hread, drop_succ_of_read? hread]
          exact ih htokens

/-- The list on top is read without taking a list off the stack. -/
theorem frames_drop {front rest : List TokenId} {below : List (List TokenId)}
    (hframes : pending.frames = (front ++ rest) :: below) :
    (pending.drop front.length).frames = rest :: below := by
  induction front generalizing pending with
  | nil => exact hframes
  | cons token front ih =>
      have htokens : pending.tokens = token :: (front ++ rest ++ below.flatten) := by
        rw [tokens, join_eq, hframes]
        rfl
      obtain ⟨left, hread, -⟩ := exists_read?_of_tokens htokens
      have hleft := frames_of_read? hread
      rw [hframes] at hleft
      have hrest : left.frames = (front ++ rest) :: below :=
        (Prod.mk.inj (Option.some.inj hleft)).2.symm
      rw [List.length_cons, drop_succ_of_read? hread]
      exact ih hrest

end Pending

namespace TokenStore

/-- A directive with a list of one word. -/
structure WordList (store : TokenStore) (name : String)
    (directive opening word closing : TokenId) : Prop where
  directive_kind : store.kind directive = .directive
  directiveName_eq : store.directiveName directive = name
  opening_kind : store.kind opening = .openParen
  word_kind : store.kind word = .word
  closing_kind : store.kind closing = .closeParen

instance (store : TokenStore) (name : String) (directive opening word closing : TokenId) :
    Decidable (store.WordList name directive opening word closing) :=
  decidable_of_iff (store.kind directive = .directive ∧ store.directiveName directive = name ∧
      store.kind opening = .openParen ∧ store.kind word = .word ∧ store.kind closing = .closeParen)
    ⟨fun ⟨h1, h2, h3, h4, h5⟩ => ⟨h1, h2, h3, h4, h5⟩,
      fun ⟨h1, h2, h3, h4, h5⟩ => ⟨h1, h2, h3, h4, h5⟩⟩

/-- The tokens of a label or of a reference to one, which become a token of a kind, and the word
that they name. -/
inductive Names (store : TokenStore) : TokenKind → String → List TokenId → Prop
  | label {token : TokenId} (hkind : store.kind token = .label) :
    Names store .label (store.text token) [token]
  | madeLabel {directive opening word closing : TokenId}
      (hlist : store.WordList "label" directive opening word closing) :
    Names store .label (store.text word) [directive, opening, word, closing]
  | reference {directive opening word closing : TokenId}
      (hlist : store.WordList "addns" directive opening word closing) :
    Names store .word (store.text word) [directive, opening, word, closing]

theorem Names.isWordKind {store : TokenStore} {kind : TokenKind} {word : String}
    {written : List TokenId} (hnames : store.Names kind word written) : Lexer.IsWordKind kind := by
  cases hnames with
  | label | madeLabel => exact .inr rfl
  | reference => exact .inl rfl

end TokenStore

/-- What a directive with a list makes fits on the stack, once the list is read. A label that is
written as such makes nothing. -/
def Pending.HasRoom (pending : Pending) (written : List TokenId) : Prop :=
  written.length = 1 ∨ (pending.drop written.length).frames.length < maxFrames

namespace Expansion

/-- What comes next is a label or a reference, outside of argument lists, and no macro would be used
in place of the reference. -/
structure Meets (s : Expansion) (pending : Pending) (kind : TokenKind) (word : String)
    (written more : List TokenId) : Prop where
  captures_eq : s.captures = []
  names : s.store.Names kind word written
  tokens_eq : pending.tokens = written ++ more
  lookup?_eq : kind = .word → s.lookup? (s.qualify word) = none

/-- One token more is in the output. -/
structure Puts (s after : Expansion) (kind : TokenKind) (text : String) (token : TokenId) :
    Prop where
  extends_store : s.store.Extends after.store
  output_eq : after.output.toList = s.output.toList ++ [token]
  token_lt : token < after.store.size
  kind_eq : after.store.kind token = kind
  text_eq : after.store.text token = text
  captures_eq : after.captures = s.captures
  namespaces_eq : after.namespaces = s.namespaces
  macros_eq : after.macros = s.macros

variable {s after : Expansion} {pending next : Pending}
  {token directive opening word closing : TokenId} {more written : List TokenId} {name : String}
  {kind : TokenKind}

/-- The state after a number of steps. -/
def after? : Nat → Expansion → Pending → Option (Expansion × Pending)
  | 0, s, pending => some (s, pending)
  | count + 1, s, pending =>
    match s.step pending with
    | .ok (after, some next) => after? count after next
    | _ => none

theorem reaches_of_after? {count : Nat} (hafter : after? count s pending = some (after, next)) :
    Reaches s pending after next := by
  induction count generalizing s pending with
  | zero =>
      cases hafter
      exact .refl
  | succ count ih =>
      rw [after?] at hafter
      split at hafter
      · next hstep => exact .head hstep (ih hafter)
      · cases hafter

/-- What can be seen after a number of steps holds of a state that is reached. -/
theorem exists_reaches {P : Expansion × Pending → Prop} [DecidablePred P] {count : Nat}
    (hafter : (after? count s pending).any (fun found => decide (P found)) = true) :
    ∃ after next, Reaches s pending after next ∧ P (after, next) := by
  obtain ⟨⟨after, next⟩, hfound, hholds⟩ := (Option.any_eq_true _ _).mp hafter
  exact ⟨after, next, reaches_of_after? hfound, of_decide_eq_true hholds⟩

theorem Reaches.sound (hreaches : Reaches s pending after next) (hsound : s.Sound pending) :
    after.Sound next := by
  induction hreaches with
  | refl => exact hsound
  | step _ hstep ih => exact ih.step hstep

/-- Expansion ends in the same way from all states on its way. -/
theorem Reaches.run_eq (hreaches : Reaches s pending after next) :
    s.run pending = after.run next := by
  induction hreaches with
  | refl => rfl
  | step _ hstep ih => rw [ih, Expansion.run_eq, hstep]

/-- A token that makes nothing is read, and with it what it takes. -/
theorem step_drop {count consumed : Nat} {cause : TokenId}
    (htokens : pending.tokens.drop count = token :: more)
    (hreact : s.react token (pending.drop count).last (pending.drop (count + 1)) =
      .ok ⟨after, consumed, none, cause⟩) :
    s.step (pending.drop count) = .ok (after, some (pending.drop (count + 1 + consumed))) := by
  rw [step_of_react (Pending.read?_drop htokens) hreact]
  change Except.ok (after, some ((pending.drop (count + 1)).drop consumed)) = _
  rw [Pending.drop_drop]

/-- A directive with a list of one word acts on the word when its list is closed. -/
theorem reaches_wordList {kind : Splice} (hcaptures : s.captures = [])
    (hlist : s.store.WordList name directive opening word closing)
    (hname : Directive.ofName? name = some (.splice kind))
    (htokens : pending.tokens = directive :: opening :: word :: closing :: more) :
    ∃ capture middle, capture.splice = kind ∧ capture.directive = directive ∧
      Reaches s pending middle (pending.drop 3) ∧
      middle.step (pending.drop 3) =
        (finishCapture { s with lastTaken := none } capture [[word]] (pending.drop 4).tokens >>=
          fun reaction => advance reaction (pending.drop 4) >>= fun next =>
            .ok (reaction.state, some next)) := by
  have hbehind (count : Nat) := congrArg (List.drop count) htokens
  let base : Expansion := { s with lastTaken := none }
  let capture : Capture :=
    ⟨kind, directive, opening, pending.last.map s.store.kind == some .star, .start⟩
  let full : Capture := { capture with reader := capture.reader.append word }
  -- the directive and the opening parenthesis
  have hopened : s.step (pending.drop 0) =
      .ok ({ base with captures := [capture] }, some (pending.drop 2)) := by
    refine @step_drop s { base with captures := [capture] } pending directive _ 0 1 directive
      (hbehind 0) ?_
    have hexpect : base.store.expect directive .openParen "`(`" (pending.drop 1).tokens =
        .ok (opening, word :: closing :: more) := by
      rw [Pending.tokens_drop, hbehind 1]
      exact if_pos hlist.opening_kind
    rw [TokenStore.WordList.directiveName_eq hlist |>.symm, TokenStore.directiveName] at hname
    rw [react_eq_process hcaptures, process, hlist.directive_kind]
    dsimp only
    rw [direct, hname]
    dsimp only
    rw [startCapture, hexpect]
    dsimp only [bind, Except.bind]
    rw [hcaptures]
    rfl
  -- the word
  have hread : step { base with captures := [capture] } (pending.drop 2) =
      .ok ({ base with captures := [full] }, some (pending.drop 3)) := by
    refine @step_drop _ { base with captures := [full] } pending word _ 2 0 word (hbehind 2) ?_
    rw [react_eq_feedCapture rfl, feedCapture, hlist.word_kind]
    rfl
  refine ⟨full, { base with captures := [full] }, rfl, rfl,
    .head hopened (.head hread .refl), ?_⟩
  refine step_of_react (Pending.read?_drop (hbehind 3)) ?_
  have hclosed : full.reader.feed none .closeParen closing = .inr [[word]] := rfl
  rw [react_eq_feedCapture rfl, feedCapture, hlist.closing_kind]
  dsimp only
  rw [hclosed, ← hcaptures]

/-- A token that a directive makes of a list of one word is read next, if the stack has room for
it. -/
theorem reaches_made {splice : Splice} {text made : String} (hcaptures : s.captures = [])
    (hlist : s.store.WordList name directive opening word closing)
    (hname : Directive.ofName? name = some (.splice splice))
    (htokens : pending.tokens = directive :: opening :: word :: closing :: more)
    (hfinish : ∀ capture tokens, capture.splice = splice →
      finishCapture { s with lastTaken := none } capture [[word]] tokens =
        .ok (Expansion.splice { s with lastTaken := none } capture.directive made.toList 0))
    (hmade : ∃ later, s.store.synthesize directive made.toList = ([s.store.size], later) ∧
      s.store.Extends later ∧ s.store.size < later.size ∧ later.kind s.store.size = kind ∧
      later.text s.store.size = text) :
    ∃ later, s.store.Extends later ∧ s.store.size < later.size ∧
      later.kind s.store.size = kind ∧ later.text s.store.size = text ∧
      ((pending.drop 4).frames.length < Pending.maxFrames →
        ∃ next, Reaches s pending { s with lastTaken := none, store := later } next ∧
          next.tokens = s.store.size :: more) ∧
      (Pending.maxFrames ≤ (pending.drop 4).frames.length → s.run pending =
        .error (later.expansionFault directive "macro expansion nested too deeply")) := by
  obtain ⟨later, hmade, hextends, hlt, hkind, htext⟩ := hmade
  obtain ⟨capture, middle, hsplice, rfl, hreaches, hstep⟩ :=
    reaches_wordList hcaptures hlist hname htokens
  let reaction : Reaction :=
    ⟨{ s with lastTaken := none, store := later }, 0, some [s.store.size], capture.directive⟩
  have hreaction : Expansion.splice { s with lastTaken := none } capture.directive made.toList 0 =
      reaction := by
    rw [Expansion.splice, hmade]
  rw [hfinish capture _ hsplice, hreaction] at hstep
  change _ = (advance reaction (pending.drop 4) >>= _) at hstep
  refine ⟨later, hextends, hlt, hkind, htext, fun hroom => ?_, fun hfull => ?_⟩
  · cases hadvance : advance reaction (pending.drop 4) with
    | error fault =>
        obtain ⟨-, hfull, -⟩ := advance_eq_error_iff.mp hadvance
        exact absurd hroom (Nat.not_lt.mpr hfull)
    | ok next =>
        rw [hadvance] at hstep
        refine ⟨next, .step hreaches hstep, ?_⟩
        rw [tokens_of_advance hadvance rfl, Pending.tokens_drop, htokens]
        rfl
  · rw [advance_eq_error_iff.mpr ⟨⟨_, rfl⟩, hfull, rfl⟩] at hstep
    rw [hreaches.run_eq, Expansion.run_eq, hstep]
    rfl

/-- A label that comes next becomes a label of the output. -/
theorem reaches_label (hcaptures : s.captures = [])
    (hnamespaces : ∀ name ∈ s.namespaces, Lexer.IsWord name.toList)
    (hlt : token < s.store.size) (hkind : s.store.kind token = .label)
    (hword : Lexer.IsWord (s.store.text token).toList) (htokens : pending.tokens = token :: more) :
    ∃ after next label, Reaches s pending after next ∧ next.tokens = more ∧
      s.Puts after .label (s.qualify (s.store.text token)) label := by
  obtain ⟨next, hstep, hnext⟩ := step_label hcaptures hkind htokens
  obtain ⟨label, store, hemit, hextends, hlabel, hmade, htext⟩ :=
    @exists_emitLabel { s with lastTaken := none } token hnamespaces hlt hkind hword
  rw [hemit] at hstep
  refine ⟨_, next, label, .step .refl hstep, hnext, ?_⟩
  exact ⟨hextends, by simp [emit], hlabel, hmade, htext, rfl, rfl, rfl⟩

/-- A token that was made first, and not put out, does not count. -/
theorem Puts.of_made {middle : Expansion} {target : String}
    (hextends : s.store.Extends middle.store) (houtput : middle.output = s.output)
    (hcaptures : middle.captures = s.captures) (hnamespaces : middle.namespaces = s.namespaces)
    (hmacros : middle.macros = s.macros)
    (hputs : middle.Puts after kind (middle.qualify target) token) :
    s.Puts after kind (s.qualify target) token :=
  ⟨hextends.trans hputs.extends_store, houtput ▸ hputs.output_eq, hputs.token_lt, hputs.kind_eq,
    hputs.text_eq.trans (congrArg (qualifyIn · target) hnamespaces),
    hputs.captures_eq.trans hcaptures, hputs.namespaces_eq.trans hnamespaces,
    hputs.macros_eq.trans hmacros⟩

theorem singleWord_eq (hkind : s.store.kind word = .word) (cause : TokenId) :
    s.singleWord cause [[word]] = .ok word :=
  if_pos hkind

theorem Sound.isWord_of_wordList (hsound : s.Sound pending)
    (hlist : s.store.WordList name directive opening word closing)
    (htokens : pending.tokens = directive :: opening :: word :: closing :: more) :
    Lexer.IsWord (s.store.text word).toList := by
  have hmem : word ∈ pending.tokens := by
    rw [htokens]
    exact .tail directive (.tail opening (.head _))
  exact (hsound.spelled_pending word hmem).isWord_text (.inl hlist.word_kind)

/-- A label that a directive makes has the word for its text. -/
theorem reaches_madeLabel (hcaptures : s.captures = []) (hsound : s.Sound pending)
    (hlist : s.store.WordList "label" directive opening word closing)
    (htokens : pending.tokens = directive :: opening :: word :: closing :: more) :
    ∃ later, s.store.Extends later ∧ s.store.size < later.size ∧
      later.kind s.store.size = .label ∧ later.text s.store.size = s.store.text word ∧
      ((pending.drop 4).frames.length < Pending.maxFrames →
        ∃ next, Reaches s pending { s with lastTaken := none, store := later } next ∧
          next.tokens = s.store.size :: more) ∧
      (Pending.maxFrames ≤ (pending.drop 4).frames.length → s.run pending =
        .error (later.expansionFault directive "macro expansion nested too deeply")) := by
  refine reaches_made hcaptures hlist rfl htokens (fun capture tokens hsplice => ?_)
    (TokenStore.synthesize_label (hsound.isWord_of_wordList hlist htokens))
  have htext : s.store.chars word ++ [':'] = (s.store.text word ++ ":").toList := by
    simp [TokenStore.text]
  rw [finishCapture, hsplice]
  dsimp only
  rw [@singleWord_eq { s with lastTaken := none } word hlist.word_kind]
  dsimp only [bind, Except.bind]
  rw [htext]

/-- A reference has the word behind the names of the open namespaces for its text. -/
theorem reaches_reference (hcaptures : s.captures = []) (hsound : s.Sound pending)
    (hlist : s.store.WordList "addns" directive opening word closing)
    (htokens : pending.tokens = directive :: opening :: word :: closing :: more) :
    ∃ later, s.store.Extends later ∧ s.store.size < later.size ∧
      later.kind s.store.size = .word ∧
      later.text s.store.size = s.qualify (s.store.text word) ∧
      ((pending.drop 4).frames.length < Pending.maxFrames →
        ∃ next, Reaches s pending { s with lastTaken := none, store := later } next ∧
          next.tokens = s.store.size :: more) ∧
      (Pending.maxFrames ≤ (pending.drop 4).frames.length → s.run pending =
        .error (later.expansionFault directive "macro expansion nested too deeply")) := by
  refine reaches_made hcaptures hlist rfl htokens (fun capture tokens hsplice => ?_)
    (TokenStore.synthesize_word (isWord_qualifyIn hsound.namespaces_isWord
      (hsound.isWord_of_wordList hlist htokens)))
  rw [finishCapture, hsplice]
  dsimp only
  rw [@singleWord_eq { s with lastTaken := none } word hlist.word_kind]
  rfl

variable {target : String}

/-- A label or a reference that comes next becomes one token of the output, behind the names of the
open namespaces. -/
theorem Meets.exists_puts (hmeets : s.Meets pending kind target written more)
    (hsound : s.Sound pending) (hroom : pending.HasRoom written) :
    ∃ after next token, Reaches s pending after next ∧ next.tokens = more ∧
      s.Puts after kind (s.qualify target) token := by
  obtain ⟨hcaptures, hnames, htokens, hlookup⟩ := hmeets
  cases hnames with
  | @label token hkind =>
      have hmem : token ∈ pending.tokens := by
        rw [htokens]
        exact List.mem_cons_self
      have htoken := hsound.spelled_pending token hmem
      exact reaches_label hcaptures hsound.namespaces_isWord htoken.lt_size hkind
        (htoken.isWord_text (.inr hkind)) htokens
  | @madeLabel directive opening word closing hlist =>
      obtain ⟨later, hextends, hlt, hkind, htext, hfits, -⟩ :=
        reaches_madeLabel hcaptures hsound hlist htokens
      obtain ⟨between, hreaches, hbetween⟩ := hfits (hroom.resolve_left nofun)
      obtain ⟨after, next, label, hlabel, hnext, hputs⟩ :=
        @reaches_label { s with lastTaken := none, store := later } _ _ _ hcaptures
          hsound.namespaces_isWord hlt hkind
          (htext ▸ hsound.isWord_of_wordList hlist htokens) hbetween
      dsimp only at hputs
      rw [htext] at hputs
      exact ⟨after, next, label, hreaches.trans hlabel, hnext,
        @Puts.of_made s after label .label { s with lastTaken := none, store := later } _ hextends
          rfl rfl rfl rfl hputs⟩
  | @reference directive opening word closing hlist =>
      obtain ⟨later, hextends, hlt, hkind, htext, hfits, -⟩ :=
        reaches_reference hcaptures hsound hlist htokens
      obtain ⟨between, hreaches, hbetween⟩ := hfits (hroom.resolve_left nofun)
      have hnone : lookup? { s with lastTaken := none, store := later }
          (later.text s.store.size) = none := by
        rw [htext]
        exact hlookup rfl
      obtain ⟨next, hstep, hnext⟩ :=
        @step_word { s with lastTaken := none, store := later } _ _ _ hcaptures hkind hnone hbetween
      exact ⟨_, next, s.store.size, .step hreaches hstep, hnext,
        hextends, by simp [emit], hlt, hkind, htext, rfl, rfl, rfl⟩

/-- Without room for what the directive makes, expansion fails. -/
theorem Meets.run_eq_error (hmeets : s.Meets pending kind target written more)
    (hsound : s.Sound pending) (hfull : ¬ pending.HasRoom written) :
    ∃ directive later, written.head? = some directive ∧ s.store.Extends later ∧
      s.run pending =
        .error (later.expansionFault directive "macro expansion nested too deeply") := by
  obtain ⟨hcaptures, hnames, htokens, -⟩ := hmeets
  have hdeep := Nat.le_of_not_lt (not_or.mp hfull).2
  cases hnames with
  | label => exact absurd (.inl rfl) hfull
  | madeLabel hlist =>
      obtain ⟨later, hextends, -, -, -, -, hfails⟩ :=
        reaches_madeLabel hcaptures hsound hlist htokens
      exact ⟨_, later, rfl, hextends, hfails hdeep⟩
  | reference hlist =>
      obtain ⟨later, hextends, -, -, -, -, hfails⟩ :=
        reaches_reference hcaptures hsound hlist htokens
      exact ⟨_, later, rfl, hextends, hfails hdeep⟩

end Expansion

end VectorStack
