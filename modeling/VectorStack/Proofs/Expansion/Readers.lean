import VectorStack.Assembly.Macro
import VectorStack.Proofs.Traced
/-!
What the macro language reads from the tokens behind a directive. Nothing is read that was not
there, and where reading fails, a token is to blame that was read or made the reading start.
-/

namespace VectorStack

open TokenStore

/-- The tokens of all arguments, also of the one being read. -/
def ArgumentReader.tokens (reader : ArgumentReader) : List TokenId :=
  reader.current ++ reader.finished.flatten

variable {store : TokenStore} {cause opening token : TokenId} {tokens body : List TokenId}
  {depth taken : Nat}

namespace ArgumentReader

variable {reader next : ArgumentReader} {restFrom : Option Nat} {kind : TokenKind}
  {arguments : List (List TokenId)}

theorem flatten_arguments_subset (reader : ArgumentReader) :
    reader.arguments.flatten ⊆ reader.tokens := by
  rw [ArgumentReader.arguments]
  split
  · exact List.nil_subset _
  · intro id hmem
    obtain ⟨argument, hargument, hid⟩ := List.mem_flatten.mp hmem
    rcases List.mem_cons.mp (List.mem_reverse.mp hargument) with rfl | hargument
    · exact List.mem_append_left _ (List.mem_reverse.mp hid)
    · exact List.mem_append_right _ (List.mem_flatten.mpr ⟨argument, hargument, hid⟩)

/-- A list goes on with no more than the token that was read. -/
theorem subset_of_feed_eq_inl (hfeed : reader.feed restFrom kind token = .inl next) :
    next.tokens ⊆ token :: reader.tokens := by
  have happend : (reader.append token).tokens ⊆ token :: reader.tokens := List.Subset.refl _
  unfold feed at hfeed
  dsimp only at hfeed
  split at hfeed
  · cases hfeed
    exact List.subset_cons_self token reader.tokens
  · cases hfeed
    exact happend
  · split at hfeed <;> cases hfeed
    exact happend
  · split at hfeed <;> cases hfeed
    · intro id hmem
      refine List.mem_cons_of_mem token ?_
      have hmem : id ∈ reader.current.reverse ++ reader.finished.flatten := hmem
      rcases List.mem_append.mp hmem with hmem | hmem
      · exact List.mem_append_left _ (List.mem_reverse.mp hmem)
      · exact List.mem_append_right _ hmem
    · exact happend
  · cases hfeed
    exact happend

theorem subset_of_feed_eq_inr (hfeed : reader.feed restFrom kind token = .inr arguments) :
    arguments.flatten ⊆ reader.tokens := by
  unfold feed at hfeed
  dsimp only at hfeed
  split at hfeed
  · cases hfeed
  · cases hfeed
  · split at hfeed <;> cases hfeed
    exact reader.flatten_arguments_subset
  · split at hfeed <;> cases hfeed
  · cases hfeed

/-- Arguments are made of tokens that were read. -/
theorem subset_readFrom {taken count : Nat}
    (hread : readFrom store opening restFrom reader taken tokens = .ok (arguments, count)) :
    arguments.flatten ⊆ reader.tokens ++ tokens := by
  induction tokens generalizing reader taken with
  | nil => cases hread
  | cons token rest ih =>
      rw [readFrom] at hread
      split at hread
      · cases hread
      · split at hread
        · next next hfeed =>
            intro id hmem
            rcases List.mem_append.mp (ih hread hmem) with hmem | hmem
            · rcases List.mem_cons.mp (subset_of_feed_eq_inl hfeed hmem) with rfl | hmem
              · exact List.mem_append_right _ List.mem_cons_self
              · exact List.mem_append_left _ hmem
            · exact List.mem_append_right _ (List.mem_cons_of_mem _ hmem)
        · next found hfeed =>
            cases hread
            exact List.Subset.trans (subset_of_feed_eq_inr hfeed) (List.subset_append_left _ _)

theorem traced_readFrom {taken : Nat} (hopening : opening < store.size) :
    Traced store (fun _ => True) (readFrom store opening restFrom reader taken tokens) := by
  induction tokens generalizing reader taken with
  | nil => exact .faultAt hopening
  | cons token rest ih =>
      rw [readFrom]
      split
      · exact .faultAt hopening
      · split
        · exact ih
        · exact .ok trivial

end ArgumentReader

namespace TokenStore

theorem kind_of_expect {kind : TokenKind} {what : String} {found : TokenId} {rest : List TokenId}
    (hexpect : store.expect cause kind what tokens = .ok (found, rest)) :
    store.kind found = kind := by
  unfold expect at hexpect
  obtain ⟨⟨next, others⟩, hrequire, hexpect⟩ := bind_eq_ok.mp hexpect
  dsimp only at hexpect
  split at hexpect
  · next hkind =>
      cases hexpect
      exact hkind
  · cases hexpect

theorem tokens_of_expect {kind : TokenKind} {what : String} {found : TokenId}
    {rest : List TokenId} (hexpect : store.expect cause kind what tokens = .ok (found, rest)) :
    tokens = found :: rest := by
  obtain ⟨⟨next, others⟩, hrequire, hkind⟩ := bind_eq_ok.mp hexpect
  dsimp only at hkind
  split at hkind
  · cases hkind
    cases tokens with
    | nil => cases hrequire
    | cons =>
        cases hrequire
        rfl
  · cases hkind

theorem subset_readArguments {restFrom : Option Nat} {arguments : List (List TokenId)}
    {taken : Nat} (hread : store.readArguments cause restFrom tokens = .ok (arguments, taken)) :
    arguments.flatten ⊆ tokens := by
  obtain ⟨⟨opening, rest⟩, hexpect, hread⟩ := bind_eq_ok.mp hread
  rw [tokens_of_expect hexpect]
  exact List.Subset.trans (ArgumentReader.subset_readFrom hread)
    (List.subset_cons_self opening rest)

theorem subset_readBracedBody
    (hread : store.readBracedBody opening depth tokens = .ok (body, taken)) : body ⊆ tokens := by
  induction tokens generalizing depth body taken with
  | nil => cases hread
  | cons token rest ih =>
      have hkeep {depth : Nat}
          (hread : (store.readBracedBody opening depth rest).map
            (fun read => (token :: read.1, read.2 + 1)) = .ok (body, taken)) :
          body ⊆ token :: rest := by
        obtain ⟨⟨inner, count⟩, hinner, hsame⟩ := map_eq_ok.mp hread
        cases hsame
        exact List.cons_subset_cons token (ih hinner)
      rw [readBracedBody] at hread
      dsimp only at hread
      split at hread
      · obtain ⟨⟨inner, count⟩, hinner, hsame⟩ := map_eq_ok.mp hread
        cases hsame
        exact List.Subset.trans (ih hinner) (List.subset_cons_self token rest)
      · exact hkeep hread
      · split at hread
        · cases hread
          exact List.nil_subset _
        · exact hkeep hread
      · exact hkeep hread

/-- The body of a macro is part of what it is read from. -/
theorem subset_readBody (hread : store.readBody tokens = .ok (body, taken)) : body ⊆ tokens := by
  unfold readBody at hread
  dsimp only at hread
  split at hread
  · next opening rest =>
      split at hread
      · obtain ⟨⟨inner, count⟩, hinner, hsame⟩ := map_eq_ok.mp hread
        cases hsame
        exact List.Subset.trans (subset_readBracedBody hinner) (List.subset_cons_self opening rest)
      · cases hread
        exact List.Subset.trans (List.filter_subset_self _) (List.takeWhile_subset _)
  · cases hread
    exact List.nil_subset _

theorem traced_require (what : String) (hcause : cause < store.size)
    (htokens : store.Has tokens) :
    Traced store (fun read => read.1 < store.size ∧ store.Has read.2)
      (store.require cause what tokens) := by
  cases tokens with
  | nil => exact .faultAt hcause
  | cons token rest => exact .ok (has_cons.mp htokens)

theorem traced_expect (kind : TokenKind) (what : String) (hcause : cause < store.size)
    (htokens : store.Has tokens) :
    Traced store (fun read => read.1 < store.size ∧ store.Has read.2)
      (store.expect cause kind what tokens) := by
  refine (traced_require what hcause htokens).bind fun read hread => ?_
  dsimp only
  split
  · exact .ok hread
  · exact .faultAt hread.1

theorem traced_readArguments (restFrom : Option Nat) (hcause : cause < store.size)
    (htokens : store.Has tokens) :
    Traced store (fun _ => True) (store.readArguments cause restFrom tokens) :=
  (traced_expect .openParen "`(`" hcause htokens).bind fun _ hread =>
    ArgumentReader.traced_readFrom hread.1

theorem traced_readGroupFrom {depth : Nat} (hopening : opening < store.size)
    (htokens : store.Has tokens) :
    Traced store (fun read => store.Has read.1) (store.readGroupFrom opening depth tokens) := by
  induction tokens generalizing depth with
  | nil => exact .faultAt hopening
  | cons token rest ih =>
      obtain ⟨htoken, hrest⟩ := has_cons.mp htokens
      have hkeep : ∀ read : WithCount (List TokenId), store.Has read.1 →
          store.Has (token :: read.1) := fun _ hread => has_cons.mpr ⟨htoken, hread⟩
      rw [readGroupFrom]
      dsimp only
      split
      · exact .faultAt hopening
      · exact (ih hrest).map fun _ hread => hread
      · split
        · exact .ok (has_cons.mpr ⟨htoken, has_nil store⟩)
        · exact (ih hrest).map hkeep
      · exact (ih hrest).map hkeep
      · exact (ih hrest).map hkeep

theorem traced_readGroup (hcause : cause < store.size) (htokens : store.Has tokens) :
    Traced store (fun read => read.1 ≠ [] ∧ store.Has read.1) (store.readGroup cause tokens) := by
  refine (traced_expect .openParen "`(`" hcause htokens).bind fun read hread => ?_
  refine (traced_readGroupFrom hread.1 hread.2).bind fun group hgroup => ?_
  exact .ok ⟨nofun, has_cons.mpr ⟨hread.1, hgroup⟩⟩

theorem traced_readBlockStart {taken : Nat} (hcause : cause < store.size)
    (htokens : store.Has tokens) :
    Traced store (fun read => read.1 < store.size) (store.readBlockStart cause taken tokens) := by
  induction tokens generalizing taken with
  | nil => exact .faultAt hcause
  | cons token rest ih =>
      obtain ⟨htoken, hrest⟩ := has_cons.mp htokens
      rw [readBlockStart]
      split
      · exact ih hrest
      · exact ih hrest
      · exact .ok htoken
      · exact .faultAt htoken

theorem traced_skipBlock {depth taken : Nat} (hopening : opening < store.size) :
    Traced store (fun _ => True) (store.skipBlock opening depth taken tokens) := by
  induction tokens generalizing depth taken with
  | nil => exact .faultAt hopening
  | cons token rest ih =>
      rw [skipBlock]
      split
      · exact ih
      · split
        · exact .ok trivial
        · exact ih
      · exact ih

theorem traced_readSeparator (afterRest : Bool) (hcause : cause < store.size)
    (htokens : store.Has tokens) :
    Traced store (fun _ => True) (store.readSeparator cause afterRest tokens) := by
  refine (traced_require "`,` or `)`" hcause htokens).bind fun read hread => ?_
  dsimp only
  split
  · exact .ok trivial
  · exact .ok trivial
  · exact .faultAt hread.1

theorem traced_readParameters {params : List String} {taken : Nat} (hcause : cause < store.size)
    (htokens : store.Has tokens) :
    Traced store (fun _ => True) (store.readParameters cause params taken tokens) := by
  fun_induction readParameters store cause params taken tokens with
  | case1 => exact .faultAt hcause
  | case2 => exact (traced_readSeparator false hcause (has_nil store)).map fun _ _ => trivial
  | case3 _ _ _ _ separator rest fault hfault =>
      obtain ⟨hseparator, hrest⟩ := has_cons.mp (has_cons.mp htokens).2
      have hread := traced_readSeparator false hcause (has_cons.mpr ⟨hseparator, has_nil store⟩)
      exact (hfault ▸ hread).error
  | case4 => exact .ok trivial
  | case5 _ _ _ _ separator rest _ ih => exact ih (has_cons.mp (has_cons.mp htokens).2).2
  | case6 params taken token rest =>
      obtain ⟨htoken, hrest⟩ := has_cons.mp htokens
      refine (traced_expect .word "a name after `...`" htoken hrest).bind fun read hread => ?_
      exact (traced_readSeparator true hcause hread.2).andThen fun _ => .ok trivial
  | case7 => exact .faultAt (has_cons.mp htokens).1

theorem traced_readParameterList (hcause : cause < store.size) (htokens : store.Has tokens) :
    Traced store (fun _ => True) (store.readParameterList cause tokens) := by
  unfold readParameterList
  split
  · next opening rest =>
      have hrest := (has_cons.mp htokens).2
      split
      · split
        · split
          · exact .ok trivial
          · exact traced_readParameters hcause hrest
        · exact traced_readParameters hcause hrest
      · exact .ok trivial
  · exact .ok trivial

theorem traced_readBracedBody {depth : Nat} (hopening : opening < store.size) :
    Traced store (fun _ => True) (store.readBracedBody opening depth tokens) := by
  induction tokens generalizing depth with
  | nil => exact .faultAt hopening
  | cons token rest ih =>
      rw [readBracedBody]
      dsimp only
      split
      · exact ih.map fun _ _ => trivial
      · exact ih.map fun _ _ => trivial
      · split
        · exact .ok trivial
        · exact ih.map fun _ _ => trivial
      · exact ih.map fun _ _ => trivial

theorem traced_readBody (htokens : store.Has tokens) :
    Traced store (fun _ => True) (store.readBody tokens) := by
  unfold readBody
  dsimp only
  split
  · next opening rest =>
      split
      · exact (traced_readBracedBody (has_cons.mp htokens).1).map fun _ _ => trivial
      · exact .ok trivial
  · exact .ok trivial

end TokenStore

end VectorStack
