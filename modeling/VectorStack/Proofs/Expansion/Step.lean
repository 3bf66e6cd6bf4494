import VectorStack.Assembly.Expansion
/-!
A step taken apart: the token that it reads, the part of expansion that acts on it, and the tokens
that it leaves.
-/

namespace VectorStack

namespace Pending

/-- Reading takes a token from the front and leaves the others. -/
theorem mem_of_read? {pending next : Pending} {token : TokenId}
    (hread : pending.read? = some (token, next)) :
    token ∈ pending.tokens ∧ next.tokens ⊆ pending.tokens := by
  rw [tokens_of_read? hread]
  exact ⟨List.mem_cons_self, List.subset_cons_self token next.tokens⟩

theorem tokens_of_push? {pending pushed : Pending} {frame : List TokenId}
    (hpush : pending.push? frame = some pushed) : pushed.tokens = frame ++ pending.tokens := by
  unfold push? at hpush
  split at hpush
  · cases hpush
    rw [tokens, tokens, join_eq, join_eq, List.flatten_cons]
  · cases hpush

theorem tokens_of_read?_eq_none {pending : Pending} (hread : pending.read? = none) :
    pending.tokens = [] := by
  have hframes : readFrames pending.frames = none := by
    unfold read? at hread
    split at hread
    · assumption
    · cases hread
  rw [tokens, join_eq]
  generalize pending.frames = frames at hframes
  fun_induction readFrames frames with
  | case1 => rfl
  | case2 below ih => exact ih hframes
  | case3 => cases hframes

/-- The first token of all lists is the one to be read. -/
theorem exists_read?_of_tokens {pending : Pending} {token : TokenId} {more : List TokenId}
    (htokens : pending.tokens = token :: more) :
    ∃ left, pending.read? = some (token, left) ∧ left.tokens = more := by
  cases hread : pending.read? with
  | none =>
      rw [tokens_of_read?_eq_none hread] at htokens
      cases htokens
  | some found =>
      obtain ⟨first, left⟩ := found
      rw [tokens_of_read? hread] at htokens
      cases htokens
      exact ⟨left, rfl, rfl⟩

/-- Reading on reads through the ends of lists. -/
theorem tokens_drop (pending : Pending) (count : Nat) :
    (pending.drop count).tokens = pending.tokens.drop count := by
  induction count generalizing pending with
  | zero => rfl
  | succ count ih =>
      unfold drop
      cases hread : pending.read? with
      | none => rw [tokens_of_read?_eq_none hread, List.drop_nil]
      | some found =>
          obtain ⟨token, rest⟩ := found
          rw [tokens_of_read? hread, List.drop_succ_cons]
          exact ih rest

/-- Reading on leaves no token that was not there. -/
theorem tokens_drop_subset (pending : Pending) (count : Nat) :
    (pending.drop count).tokens ⊆ pending.tokens := by
  rw [tokens_drop]
  exact List.drop_subset _ _

end Pending

/-- The name of a directive, without the dot before it. -/
def TokenStore.directiveName (store : TokenStore) (directive : TokenId) : String :=
  String.ofList ((store.chars directive).drop 1)

namespace Expansion

variable {s : Expansion} {pending left : Pending} {token : TokenId} {previous : Option TokenId}

theorem react_eq_process (hcaptures : s.captures = []) :
    s.react token previous left = s.process token previous left := by
  rw [react, hcaptures]

theorem react_eq_feedCapture {capture : Capture} {outer : List Capture}
    (hcaptures : s.captures = capture :: outer) :
    s.react token previous left = s.feedCapture capture outer token previous left := by
  rw [react, hcaptures]

theorem step_of_react {reacted : Except AssemblyError Reaction}
    (hread : pending.read? = some (token, left))
    (hreact : s.react token pending.last left = reacted) :
    s.step pending = (reacted >>= fun reaction => advance reaction left >>= fun next =>
      .ok (reaction.state, some next)) := by
  rw [step, hread, ← hreact]

/-- A reaction that puts nothing on top leaves what it did not read. -/
theorem exists_step_of_react {after : Expansion} {consumed : Nat} {cause : TokenId}
    (hread : pending.read? = some (token, left))
    (hreact : s.react token pending.last left = .ok ⟨after, consumed, none, cause⟩) :
    ∃ next, s.step pending = .ok (after, some next) ∧
      next.tokens = left.tokens.drop consumed :=
  ⟨left.drop consumed, step_of_react hread hreact, left.tokens_drop consumed⟩

/-- Tokens that a reaction puts on top are read before what it did not read. -/
theorem tokens_of_advance {reaction : Reaction} {next : Pending} {frame : List TokenId}
    (hadvance : advance reaction left = .ok next) (hframe : reaction.frame = some frame) :
    next.tokens = frame ++ left.tokens.drop reaction.consumed := by
  unfold advance at hadvance
  rw [hframe] at hadvance
  dsimp only at hadvance
  split at hadvance
  · next pushed hpush =>
      cases hadvance
      rw [Pending.tokens_of_push? hpush, left.tokens_drop]
  · cases hadvance

/-- What is read next was put on top or was there before. -/
theorem subset_of_advance {reaction : Reaction} {next : Pending}
    (hadvance : advance reaction left = .ok next) :
    next.tokens ⊆ reaction.frame.getD [] ++ left.tokens := by
  cases hframe : reaction.frame with
  | none =>
      unfold advance at hadvance
      rw [hframe] at hadvance
      cases hadvance
      exact left.tokens_drop_subset reaction.consumed
  | some frame =>
      rw [tokens_of_advance hadvance hframe]
      exact List.append_subset.mpr ⟨List.subset_append_left _ _,
        List.subset_append_of_subset_right frame (List.drop_subset _ _)⟩

end Expansion

end VectorStack
