import VectorStack.Token.Store
/-!
Tokens told apart by their kinds. A line holds no line end; a gap holds nothing but line ends and
comments, of which only the former are put out; and whatever takes a list of tokens for its own use
leaves the comments out.
-/

namespace VectorStack.TokenStore

variable {store : TokenStore} {token left right : TokenId} {line inner rest : List TokenId}

/-- No token of a line ends it. -/
def IsLine (store : TokenStore) (line : List TokenId) : Prop :=
  ∀ token ∈ line, store.kind token ≠ .lineEnd

theorem isLine_cons : store.IsLine (token :: line) ↔
    store.kind token ≠ .lineEnd ∧ store.IsLine line :=
  List.forall_mem_cons

/-- A line that starts with a group goes on in the group and behind it. -/
theorem IsLine.group (hline : store.IsLine (left :: (inner ++ right :: rest))) :
    store.IsLine inner ∧ store.IsLine rest := by
  obtain ⟨hinner, hright⟩ := List.forall_mem_append.mp (isLine_cons.mp hline).2
  exact ⟨hinner, (isLine_cons.mp hright).2⟩

/-- What is left without comments. -/
def uncommented (store : TokenStore) (tokens : List TokenId) : List TokenId :=
  tokens.filter fun token => store.kind token != .comment

@[simp] theorem uncommented_nil (store : TokenStore) : store.uncommented [] = [] := rfl

@[simp] theorem uncommented_append (store : TokenStore) (first second : List TokenId) :
    store.uncommented (first ++ second) = store.uncommented first ++ store.uncommented second :=
  List.filter_append ..

theorem uncommented_cons_of_eq (hkind : store.kind token = .comment) :
    store.uncommented (token :: rest) = store.uncommented rest :=
  List.filter_cons_of_neg (by simp [hkind])

theorem uncommented_cons_of_ne (hkind : store.kind token ≠ .comment) :
    store.uncommented (token :: rest) = token :: store.uncommented rest :=
  List.filter_cons_of_pos (bne_iff_ne.mpr hkind)

/-- Line ends and comments. -/
def IsGap (store : TokenStore) (tokens : List TokenId) : Prop :=
  ∀ token ∈ tokens, store.kind token = .lineEnd ∨ store.kind token = .comment

/-- What of a gap goes to the output. -/
def lineEnds (store : TokenStore) (gap : List TokenId) : List TokenId :=
  gap.filter fun token => store.kind token = .lineEnd

@[simp] theorem lineEnds_nil (store : TokenStore) : store.lineEnds [] = [] := rfl

@[simp] theorem lineEnds_append (store : TokenStore) (first second : List TokenId) :
    store.lineEnds (first ++ second) = store.lineEnds first ++ store.lineEnds second :=
  List.filter_append ..

theorem lineEnds_cons_of_eq (hkind : store.kind token = .lineEnd) :
    store.lineEnds (token :: rest) = token :: store.lineEnds rest :=
  List.filter_cons_of_pos (decide_eq_true hkind)

theorem lineEnds_cons_of_ne (hkind : store.kind token ≠ .lineEnd) :
    store.lineEnds (token :: rest) = store.lineEnds rest :=
  List.filter_cons_of_neg (by simp [hkind])

end VectorStack.TokenStore
