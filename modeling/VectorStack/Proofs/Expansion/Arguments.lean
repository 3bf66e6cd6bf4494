import VectorStack.Proofs.Expansion.Balance
/-!
Argument lists. Where the parentheses of a list match, its arguments end at the commas outside of
inner parentheses, or only at the first of these where the last argument takes what is left;
comments belong to no argument. The main statements are that every such list has arguments, and that
reading the list gives them.
-/

namespace VectorStack

/-- The parts of a list between its commas outside of parentheses, without comments. With a limit
only that many commas count. -/
inductive Separates (store : TokenStore) : Option Nat → List TokenId → List (List TokenId) → Prop
  | last {limit : Option Nat} {tokens : List TokenId}
      (hone : Balanced store .openParen .closeParen [.comma] tokens) :
    Separates store limit tokens [store.uncommented tokens]
  | rest {tokens : List TokenId} (hbalanced : Balanced store .openParen .closeParen [] tokens) :
    Separates store (some 0) tokens [store.uncommented tokens]
  | comma {limit : Option Nat} {first others : List TokenId} {comma : TokenId}
      {arguments : List (List TokenId)} (hlimit : limit ≠ some 0)
      (hone : Balanced store .openParen .closeParen [.comma] first)
      (hcomma : store.kind comma = .comma)
      (hothers : Separates store (limit.map (· - 1)) others arguments) :
    Separates store limit (first ++ comma :: others) (store.uncommented first :: arguments)

/-- The arguments that a list stands for. A list of nothing but comments has none. -/
inductive ArgumentList (store : TokenStore) (limit : Option Nat) (tokens : List TokenId) :
    List (List TokenId) → Prop
  | none (hempty : store.uncommented tokens = []) : ArgumentList store limit tokens []
  | some {arguments : List (List TokenId)} (hsome : store.uncommented tokens ≠ [])
      (hseparates : Separates store limit tokens arguments) :
    ArgumentList store limit tokens arguments

variable {store : TokenStore} {limit : Option Nat} {tokens first : List TokenId}
  {arguments : List (List TokenId)}

namespace Separates

/-- More tokens in front belong to the first part. -/
theorem exists_append (hfirst : Balanced store .openParen .closeParen [.comma] first)
    (hseparates : Separates store limit tokens arguments) :
    ∃ longer, Separates store limit (first ++ tokens) longer := by
  cases hseparates with
  | last hone => exact ⟨_, .last (hfirst.append hone)⟩
  | rest hbalanced => exact ⟨_, .rest (hfirst.free.append hbalanced)⟩
  | comma hlimit hone hcomma hothers =>
      rw [← List.append_assoc]
      exact ⟨_, .comma hlimit (hfirst.append hone) hcomma hothers⟩

theorem exists_of_balanced {excluded : List TokenKind} (limit : Option Nat)
    (hbalanced : Balanced store .openParen .closeParen excluded tokens) :
    ∃ arguments, Separates store limit tokens arguments := by
  induction hbalanced generalizing limit with
  | nil => exact ⟨_, .last .nil⟩
  | @cons _ token rest hkind hrest ih =>
      by_cases hcomma : store.kind token = .comma
      · by_cases hlimit : limit = some 0
        · subst hlimit
          exact ⟨_, .rest (Balanced.cons hkind hrest).free⟩
        · obtain ⟨arguments, hothers⟩ := ih (limit.map (· - 1))
          exact ⟨_, .comma hlimit .nil hcomma hothers⟩
      · obtain ⟨arguments, hothers⟩ := ih limit
        have hplain : store.kind token ∉ [.openParen, .closeParen, .comma] := by
          obtain ⟨hopening, hclosing, -⟩ := TokenStore.ne_of_not_mem hkind
          simp [hopening, hclosing, hcomma]
        exact exists_append (.cons hplain .nil) hothers
  | group hleft hinner hright _ _ ih =>
      obtain ⟨arguments, hothers⟩ := ih limit
      have hgroup := exists_append (.group hleft hinner hright .nil) hothers
      rw [List.cons_append, List.append_assoc] at hgroup
      exact hgroup

/-- The parts are tokens of the list. -/
theorem subset (hseparates : Separates store limit tokens arguments) :
    ∀ argument ∈ arguments, argument ⊆ tokens := by
  induction hseparates with
  | last | rest => exact List.forall_mem_singleton.mpr List.filter_sublist.subset
  | @comma _ _ _ comma _ _ _ _ _ ih =>
      refine List.forall_mem_cons.mpr ⟨?_, fun argument hmem => ?_⟩
      · exact List.Subset.trans List.filter_sublist.subset (List.subset_append_left _ _)
      · have hothers := List.Subset.trans (ih argument hmem) (List.subset_cons_self comma _)
        exact List.Subset.trans hothers (List.subset_append_right _ _)

theorem ne_nil (hseparates : Separates store limit tokens arguments) : arguments ≠ [] := by
  cases hseparates <;> exact List.cons_ne_nil _ _

/-- Only a list of nothing but comments is a single part without tokens. -/
theorem eq_singleton_nil_iff (hseparates : Separates store limit tokens arguments) :
    arguments = [[]] ↔ store.uncommented tokens = [] := by
  cases hseparates with
  | last | rest => rw [List.singleton_inj]
  | @comma _ first others comma _ _ _ hcomma hothers =>
      have hkept : store.uncommented (first ++ comma :: others) ≠ [] := by
        rw [TokenStore.uncommented_append,
          TokenStore.uncommented_cons_of_ne (by rw [hcomma]; decide)]
        exact List.append_ne_nil_of_right_ne_nil _ (List.cons_ne_nil _ _)
      refine iff_of_false (fun hsame => hothers.ne_nil ?_) hkept
      exact (List.cons_eq_cons.mp hsame).2

end Separates

theorem ArgumentList.exists_of_balanced (limit : Option Nat)
    (hbalanced : Balanced store .openParen .closeParen [] tokens) :
    ∃ arguments, ArgumentList store limit tokens arguments := by
  by_cases hempty : store.uncommented tokens = []
  · exact ⟨[], .none hempty⟩
  · obtain ⟨arguments, hseparates⟩ := Separates.exists_of_balanced limit hbalanced
    exact ⟨arguments, .some hempty hseparates⟩

theorem ArgumentList.subset (harguments : ArgumentList store limit tokens arguments) :
    ∀ argument ∈ arguments, argument ⊆ tokens := by
  cases harguments with
  | none => nofun
  | some _ hseparates => exact hseparates.subset

namespace ArgumentReader

variable {reader next : ArgumentReader} {restFrom : Option Nat} {kind : TokenKind}
  {opening token left right : TokenId} {taken : Nat} {inner rest : List TokenId}
  {excluded : List TokenKind}

/-- Commas belong to the argument that is being read. -/
def Joins (reader : ArgumentReader) (restFrom : Option Nat) : Prop :=
  0 < reader.depth ∨ ∃ limit, restFrom = some limit ∧ limit ≤ reader.finished.length

/-- What the argument that is being read becomes with more tokens. -/
def extend (store : TokenStore) (reader : ArgumentReader) (tokens : List TokenId) :
    ArgumentReader :=
  { reader with current := (store.uncommented tokens).reverse ++ reader.current }

theorem joins_extend : (reader.extend store tokens).Joins restFrom ↔ reader.Joins restFrom := .rfl

theorem extend_extend (store : TokenStore) (reader : ArgumentReader)
    (first second : List TokenId) :
    (reader.extend store first).extend store second = reader.extend store (first ++ second) := by
  simp [extend]

theorem feed_eq_append (hopen : kind ≠ .openParen) (hclose : kind ≠ .closeParen)
    (hcomment : kind ≠ .comment) (hcomma : kind = .comma → reader.Joins restFrom) :
    reader.feed restFrom kind token = .inl (reader.append token) := by
  unfold feed
  split
  · contradiction
  · contradiction
  · contradiction
  · have hjoins : (reader.depth == 0 &&
        restFrom.all fun rest => decide (reader.finished.length < rest)) = false := by
      rcases hcomma rfl with hdepth | ⟨limit, rfl, hlimit⟩
      · rw [beq_false_of_ne (Nat.ne_of_gt hdepth)]
        rfl
      · rw [Option.all_some, decide_eq_false (Nat.not_lt.mpr hlimit), Bool.and_false]
    rw [hjoins]
    rfl
  · rfl

theorem readFrom_cons (hline : store.kind token ≠ .lineEnd)
    (hfeed : reader.feed restFrom (store.kind token) token = .inl next) :
    readFrom store opening restFrom reader taken (token :: rest) =
      readFrom store opening restFrom next (taken + 1) rest := by
  rw [readFrom, if_neg hline, hfeed]

/-- A token that is no parenthesis and separates nothing. -/
theorem readFrom_plain (hline : store.kind token ≠ .lineEnd)
    (hopen : store.kind token ≠ .openParen) (hclose : store.kind token ≠ .closeParen)
    (hcomma : store.kind token = .comma → reader.Joins restFrom) :
    readFrom store opening restFrom reader taken (token :: rest) =
      readFrom store opening restFrom (reader.extend store [token]) (taken + 1) rest := by
  by_cases hcomment : store.kind token = .comment
  · rw [readFrom_cons hline (by rw [hcomment]; rfl), extend,
      TokenStore.uncommented_cons_of_eq hcomment]
    rfl
  · rw [readFrom_cons hline (feed_eq_append hopen hclose hcomment hcomma), extend,
      TokenStore.uncommented_cons_of_ne hcomment]
    rfl

/-- A group is read into the argument if what stands in it is. -/
theorem readFrom_group (hleft : store.kind left = .openParen)
    (hright : store.kind right = .closeParen)
    (hinner : ∀ {reader : ArgumentReader} {taken : Nat} {rest : List TokenId}, 0 < reader.depth →
      readFrom store opening restFrom reader taken (inner ++ rest) =
        readFrom store opening restFrom (reader.extend store inner) (taken + inner.length) rest) :
    readFrom store opening restFrom reader taken (left :: (inner ++ right :: rest)) =
      readFrom store opening restFrom (reader.extend store (left :: (inner ++ [right])))
        (taken + (inner.length + 2)) rest := by
  have hopens : reader.feed restFrom (store.kind left) left =
      .inl { reader.append left with depth := reader.depth + 1 } := by
    rw [hleft]
    rfl
  have hcloses : (extend store { reader.append left with depth := reader.depth + 1 } inner).feed
      restFrom (store.kind right) right =
        .inl (reader.extend store (left :: (inner ++ [right]))) := by
    have hclosed : left :: (inner ++ [right]) = [left] ++ inner ++ [right] := by simp
    rw [hright, hclosed, ← extend_extend, ← extend_extend]
    simp [feed, extend, append, TokenStore.uncommented, hleft, hright]
  rw [readFrom_cons (by rw [hleft]; decide) hopens, hinner (Nat.succ_pos _),
    readFrom_cons (by rw [hright]; decide) hcloses]
  congr 1
  omega

/-- What is balanced belongs to the argument, if the commas in it do. -/
theorem readFrom_balanced (hbalanced : Balanced store .openParen .closeParen excluded inner)
    (hline : store.IsLine inner) (hcommas : .comma ∈ excluded ∨ reader.Joins restFrom) :
    readFrom store opening restFrom reader taken (inner ++ rest) =
      readFrom store opening restFrom (reader.extend store inner) (taken + inner.length) rest := by
  induction hbalanced generalizing reader taken rest with
  | nil => rfl
  | @cons excluded token inner hkind _ ih =>
      obtain ⟨hopening, hclosing, hkind⟩ := TokenStore.ne_of_not_mem hkind
      obtain ⟨hfirst, hline⟩ := TokenStore.isLine_cons.mp hline
      have hcomma (heq : store.kind token = .comma) : reader.Joins restFrom :=
        hcommas.resolve_left (heq ▸ hkind)
      rw [List.cons_append, readFrom_plain hfirst hopening hclosing hcomma,
        ih hline (hcommas.imp_right joins_extend.mpr), extend_extend, List.singleton_append,
        List.length_cons, Nat.add_assoc, Nat.add_comm 1]
  | @group _ left right inner others hleft _ hright _ ihInner ihRest =>
      obtain ⟨hinner, hothers⟩ := hline.group
      rw [List.cons_append, List.append_assoc, List.cons_append,
        readFrom_group hleft hright fun hdepth => ihInner hinner (.inr (.inl hdepth)),
        ihRest hothers (hcommas.imp_right joins_extend.mpr), extend_extend]
      simp only [List.cons_append, List.append_assoc, List.nil_append, List.length_cons,
        List.length_append]
      congr 1
      omega

theorem arguments_eq (reader : ArgumentReader) :
    reader.arguments = if (reader.current.reverse :: reader.finished).reverse = [[]] then []
      else (reader.current.reverse :: reader.finished).reverse := by
  have hempty : (reader.finished.isEmpty && reader.current.isEmpty) = true ↔
      (reader.current.reverse :: reader.finished).reverse = [[]] := by
    rw [List.reverse_eq_iff, List.reverse_singleton, List.cons_eq_cons, Bool.and_eq_true,
      List.isEmpty_iff, List.isEmpty_iff, List.reverse_eq_nil_iff, and_comm]
  simp only [arguments, hempty]

/-- Behind finished arguments, reading a list to its end adds the parts of the list. -/
theorem readFrom_separates {closing : TokenId} {finished : List (List TokenId)} {limit : Option Nat}
    (hseparates : Separates store limit tokens arguments) (hline : store.IsLine tokens)
    (hclosing : store.kind closing = .closeParen)
    (hlimit : limit = restFrom.map (· - finished.length)) :
    readFrom store opening restFrom ⟨finished, [], 0⟩ taken (tokens ++ closing :: rest) =
      .ok (if finished.reverse ++ arguments = [[]] then [] else finished.reverse ++ arguments,
        taken + tokens.length + 1) := by
  have hclose (reader : ArgumentReader) (taken : Nat) (hdepth : reader.depth = 0) :
      readFrom store opening restFrom reader taken (closing :: rest) =
        .ok (reader.arguments, taken + 1) := by
    rw [readFrom, if_neg (by rw [hclosing]; decide), hclosing, feed, if_pos hdepth]
  induction hseparates generalizing finished taken with
  | last hone =>
      rw [readFrom_balanced hone hline (.inl List.mem_cons_self), hclose _ _ rfl, arguments_eq]
      simp [extend]
  | @rest tokens hbalanced =>
      have hjoins : (ArgumentReader.mk finished [] 0).Joins restFrom := by
        obtain ⟨count, rfl, hcount⟩ := Option.map_eq_some_iff.mp hlimit.symm
        exact .inr ⟨count, rfl, Nat.le_of_sub_eq_zero hcount⟩
      rw [readFrom_balanced hbalanced hline (.inr hjoins), hclose _ _ rfl, arguments_eq]
      simp [extend]
  | @comma limit first others comma arguments hpositive hone hcomma _ ih =>
      obtain ⟨hfirst, hline⟩ := List.forall_mem_append.mp hline
      obtain ⟨-, hothers⟩ := TokenStore.isLine_cons.mp hline
      have hsplits : (restFrom.all fun rest => decide (finished.length < rest)) = true := by
        cases restFrom with
        | none => rfl
        | some count =>
            rw [hlimit] at hpositive
            simp at hpositive ⊢
            omega
      have hnext : limit.map (· - 1) =
          restFrom.map (· - (store.uncommented first :: finished).length) := by
        rw [hlimit, Option.map_map]
        rfl
      have hfeed : ((ArgumentReader.mk finished [] 0).extend store first).feed restFrom
          (store.kind comma) comma = .inl ⟨store.uncommented first :: finished, [], 0⟩ := by
        simp [hcomma, feed, extend, hsplits]
      rw [List.append_assoc, List.cons_append,
        readFrom_balanced hone hfirst (.inl List.mem_cons_self),
        readFrom_cons (by rw [hcomma]; decide) hfeed, ih hothers hnext]
      simp only [List.reverse_cons, List.append_assoc, List.singleton_append, List.length_append,
        List.length_cons]
      congr 2
      omega

end ArgumentReader

/-- Reading an argument list whose parentheses match gives its arguments, and takes the list. -/
theorem TokenStore.readArguments_eq {cause opening closing : TokenId} {rest : List TokenId}
    (harguments : ArgumentList store limit tokens arguments) (hline : store.IsLine tokens)
    (hopening : store.kind opening = .openParen) (hclosing : store.kind closing = .closeParen) :
    store.readArguments cause limit (opening :: (tokens ++ closing :: rest)) =
      .ok (arguments, tokens.length + 2) := by
  have hexpect : store.expect cause .openParen "`(`" (opening :: (tokens ++ closing :: rest)) =
      .ok (opening, tokens ++ closing :: rest) := by
    simp [TokenStore.expect, TokenStore.require, bind, Except.bind, hopening]
  have hread {parts : List (List TokenId)} (hseparates : Separates store limit tokens parts) :
      ArgumentReader.readFrom store opening limit .start 1 (tokens ++ closing :: rest) =
        .ok (if parts = [[]] then [] else parts, 1 + tokens.length + 1) :=
    ArgumentReader.readFrom_separates hseparates hline hclosing (by simp)
  have htaken : 1 + tokens.length + 1 = tokens.length + 2 := by omega
  rw [TokenStore.readArguments, hexpect]
  change ArgumentReader.readFrom store opening limit .start 1 (tokens ++ closing :: rest) = _
  cases harguments with
  | none hempty =>
      have hseparates : Separates store limit tokens [store.uncommented tokens] :=
        .last (.of_uncommented (by decide) hempty)
      rw [hread hseparates, hempty, if_pos rfl, htaken]
  | some hsome hseparates =>
      rw [hread hseparates, if_neg (mt hseparates.eq_singleton_nil_iff.mp hsome), htaken]

end VectorStack
