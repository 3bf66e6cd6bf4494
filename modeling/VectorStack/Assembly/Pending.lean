import VectorStack.Token.Store
/-!
The tokens that expansion still has to read: a stack of at most 256 lists, read from the top. A
used-up list stays until something below it is read. The main statements are that reading moves
along the joined lists, and that reading a token and then putting one list on top makes the stack
smaller in an order without infinite descent, which is why expansion ends.
-/

namespace VectorStack

/-- Tuples of numbers, compared by their first difference. -/
def Rank : Nat → Type
  | 0 => Unit
  | n + 1 => Nat × Rank n

namespace Rank

/-- One tuple is smaller where the two first differ. -/
def Less : (n : Nat) → Rank n → Rank n → Prop
  | 0, _, _ => False
  | n + 1, a, b => a.1 < b.1 ∨ a.1 = b.1 ∧ Less n a.2 b.2

theorem less_wellFounded (n : Nat) : WellFounded (Less n) := by
  induction n with
  | zero => exact ⟨fun a => ⟨a, fun _ hless => hless.elim⟩⟩
  | succ n ih =>
      constructor
      rintro ⟨first, rest⟩
      induction first using Nat.strongRecOn generalizing rest with
      | ind first houter =>
          induction rest using ih.induction with
          | _ rest hinner =>
              constructor
              rintro ⟨k, other⟩ (hlt | ⟨hsame, hless⟩)
              · exact houter k hlt other
              · dsimp only at hsame hless
                subst hsame
                exact hinner other hless

instance (n : Nat) : WellFoundedRelation (Rank n) := ⟨Less n, less_wellFounded n⟩

theorem less_trans {n : Nat} {a b c : Rank n} (hfirst : Less n a b) (hsecond : Less n b c) :
    Less n a c := by
  induction n with
  | zero => exact hfirst
  | succ n ih =>
      rcases hfirst with hfirst | ⟨hsame, hfirst⟩ <;>
        rcases hsecond with hsecond | ⟨hequal, hsecond⟩
      · exact .inl (Nat.lt_trans hfirst hsecond)
      · exact .inl (hequal ▸ hfirst)
      · exact .inl (hsame ▸ hsecond)
      · exact .inr ⟨hsame.trans hequal, ih hfirst hsecond⟩

/-- The first `n` numbers of a list, padded with zeros. -/
def ofList : (n : Nat) → List Nat → Rank n
  | 0, _ => ()
  | n + 1, [] => (0, ofList n [])
  | n + 1, k :: rest => (k, ofList n rest)

/-- A smaller number behind the same start makes the tuple smaller, whatever follows. -/
theorem less_ofList {n : Nat} {start a b : List Nat} {j k : Nat} (hlength : start.length < n)
    (hlt : j < k) : Less n (ofList n (start ++ j :: a)) (ofList n (start ++ k :: b)) := by
  obtain ⟨n, rfl⟩ := Nat.exists_eq_add_one_of_ne_zero (Nat.ne_zero_of_lt hlength)
  induction start generalizing n with
  | nil => exact .inl hlt
  | cons first rest ih =>
      have hrest : rest.length < n := Nat.lt_of_succ_lt_succ hlength
      obtain ⟨n, rfl⟩ := Nat.exists_eq_add_one_of_ne_zero (Nat.ne_zero_of_lt hrest)
      exact .inr ⟨rfl, ih n hrest⟩

end Rank

/-- The tokens still to be read. -/
structure Pending where
  /-- Lists of tokens, the one to read first on top. -/
  frames : List (List TokenId)
  /-- The token read last. -/
  last : Option TokenId
  length_le : frames.length ≤ 256

namespace Pending

/-- Lists deeper than this are taken for expansion without end. -/
def maxFrames : Nat := 256

/-- A single list, nothing read. -/
def ofTokens (tokens : List TokenId) : Pending := ⟨[tokens], none, by simp⟩

/-- Lists joined in order; the last one is not copied. -/
def join : List (List TokenId) → List TokenId
  | [] => []
  | [bottom] => bottom
  | frame :: below => frame ++ join below

/-- All tokens in the order in which they will be read. -/
def tokens (pending : Pending) : List TokenId := join pending.frames

theorem join_eq (frames : List (List TokenId)) : join frames = frames.flatten := by
  fun_induction join frames with
  | case1 => rfl
  | case2 => simp
  | case3 _ _ _ ih => rw [ih, List.flatten_cons]

/-- The first token of a stack of lists and the stack behind it; used-up lists above it go. -/
def readFrames : List (List TokenId) → Option (TokenId × List (List TokenId))
  | [] => none
  | [] :: below => readFrames below
  | (token :: rest) :: below => some (token, rest :: below)

/-- Reading leaves the lists below some list alone, shortens that one and removes those above. -/
theorem eq_of_readFrames {frames left : List (List TokenId)} {token : TokenId}
    (hread : readFrames frames = some (token, left)) :
    ∃ above rest below, frames = above ++ (token :: rest) :: below ∧ left = rest :: below := by
  fun_induction readFrames frames with
  | case1 => cases hread
  | case2 below ih =>
      obtain ⟨above, rest, lower, rfl, rfl⟩ := ih hread
      exact ⟨[] :: above, rest, lower, rfl, rfl⟩
  | case3 first rest below =>
      cases hread
      exact ⟨[], rest, below, rfl, rfl⟩

theorem length_readFrames_le {frames left : List (List TokenId)} {token : TokenId}
    (hread : readFrames frames = some (token, left)) : left.length ≤ frames.length := by
  obtain ⟨above, rest, below, rfl, rfl⟩ := eq_of_readFrames hread
  simp

/-- Read one token. -/
def read? (pending : Pending) : Option (TokenId × Pending) :=
  match _read : readFrames pending.frames with
  | none => none
  | some (token, frames) =>
    some (token, ⟨frames, some token,
      Nat.le_trans (length_readFrames_le _read) pending.length_le⟩)

theorem flatten_of_readFrames {frames left : List (List TokenId)} {token : TokenId}
    (hread : readFrames frames = some (token, left)) : frames.flatten = token :: left.flatten := by
  fun_induction readFrames frames with
  | case1 => cases hread
  | case2 below ih => rw [List.flatten_cons, List.nil_append, ih hread]
  | case3 first rest below =>
      cases hread
      rfl

/-- Read `count` tokens, or all when there are fewer. -/
def drop (pending : Pending) : (count : Nat) → Pending
  | 0 => pending
  | count + 1 =>
    match pending.read? with
    | none => pending
    | some (_, rest) => rest.drop count

/-- Put a list on top; none when the stack is full. -/
def push? (pending : Pending) (frame : List TokenId) : Option Pending :=
  if hroom : pending.frames.length < maxFrames then
    some ⟨frame :: pending.frames, pending.last, hroom⟩
  else none

/-- What every change between two reads makes smaller: the lengths of the lists, bottom first. -/
def rank (pending : Pending) : Rank maxFrames :=
  Rank.ofList maxFrames (pending.frames.map List.length).reverse

theorem frames_of_read? {pending next : Pending} {token : TokenId}
    (hread : pending.read? = some (token, next)) :
    readFrames pending.frames = some (token, next.frames) := by
  unfold read? at hread
  split at hread
  · cases hread
  · next hframes =>
      cases hread
      exact hframes

/-- Reading takes the first of the joined tokens. -/
theorem tokens_of_read? {pending next : Pending} {token : TokenId}
    (hread : pending.read? = some (token, next)) : pending.tokens = token :: next.tokens := by
  rw [tokens, tokens, join_eq, join_eq]
  exact flatten_of_readFrames (frames_of_read? hread)

/-- Reading a token and putting lists on top makes the stack smaller. -/
theorem less_rank_of_push {pending next after : Pending} {token : TokenId}
    {above : List (List TokenId)} (hread : pending.read? = some (token, next))
    (hframes : after.frames = above ++ next.frames) :
    Rank.Less maxFrames after.rank pending.rank := by
  obtain ⟨outside, rest, below, hwhole, hleft⟩ := eq_of_readFrames (frames_of_read? hread)
  have hlength : pending.frames.length ≤ maxFrames := pending.length_le
  unfold rank
  rw [hframes, hleft]
  rw [hwhole] at hlength ⊢
  simp only [List.map_append, List.map_cons, List.reverse_append, List.reverse_cons,
    List.append_assoc, List.singleton_append]
  apply Rank.less_ofList _ (by simp)
  simp only [List.length_append, List.length_cons] at hlength
  simp only [List.length_reverse, List.length_map]
  omega

theorem less_rank_of_read? {pending next : Pending} {token : TokenId}
    (hread : pending.read? = some (token, next)) : Rank.Less maxFrames next.rank pending.rank :=
  less_rank_of_push hread (List.nil_append _).symm

/-- Reading a token, reading on and putting lists on top makes the stack smaller. -/
theorem less_rank_of_read?_of_drop {pending next after : Pending} {token : TokenId} {count : Nat}
    {above : List (List TokenId)} (hread : pending.read? = some (token, next))
    (hframes : after.frames = above ++ (next.drop count).frames) :
    Rank.Less maxFrames after.rank pending.rank := by
  induction count generalizing pending next token with
  | zero => exact less_rank_of_push hread hframes
  | succ count ih =>
      unfold drop at hframes
      cases hnext : next.read? with
      | none =>
          rw [hnext] at hframes
          exact less_rank_of_push hread hframes
      | some found =>
          rw [hnext] at hframes
          exact Rank.less_trans (ih hnext hframes) (less_rank_of_read? hread)

end Pending

end VectorStack
