import VectorStack.Assembly.Expansion
import VectorStack.Proofs.Checked
/-!
Expansion ends. Whatever is defined, imported or used on the way, finitely many steps lead to the
tokens for the parser or to a fault, and no more than 256 lists of tokens ever wait to be read: a
list that does not fit on the stack any more is a fault. A run with a bound on its steps gives the
same answer wherever it gives one.
-/

namespace VectorStack

namespace Pending

theorem length_frames_of_read? {pending next : Pending} {token : TokenId}
    (hread : pending.read? = some (token, next)) :
    next.frames.length ≤ pending.frames.length :=
  length_readFrames_le (frames_of_read? hread)

/-- Reading on only takes lists off the stack. -/
theorem length_frames_drop_le (pending : Pending) (count : Nat) :
    (pending.drop count).frames.length ≤ pending.frames.length := by
  induction count generalizing pending with
  | zero => exact Nat.le_refl _
  | succ count ih =>
      unfold drop
      cases hread : pending.read? with
      | none => exact Nat.le_refl _
      | some found => exact Nat.le_trans (ih found.2) (length_frames_of_read? hread)

/-- A list fits on the stack as long as fewer than 256 are there. -/
theorem push?_isSome_iff (pending : Pending) (frame : List TokenId) :
    (pending.push? frame).isSome = true ↔ pending.frames.length < maxFrames := by
  unfold push?
  split
  · next hroom => exact ⟨fun _ => hroom, fun _ => rfl⟩
  · next hfull => exact ⟨fun hsome => (Bool.false_ne_true hsome).elim, fun hlt => absurd hlt hfull⟩

theorem length_frames_of_push? {pending pushed : Pending} {frame : List TokenId}
    (hpush : pending.push? frame = some pushed) :
    pushed.frames.length = pending.frames.length + 1 := by
  unfold push? at hpush
  split at hpush
  · cases hpush
    exact List.length_cons
  · cases hpush

end Pending

namespace Expansion

/-- A number of steps from a state to the answer. -/
inductive Ends : Nat → Expansion → Pending →
    Except AssemblyError (List TokenId × TokenStore) → Prop
  | fault {s : Expansion} {pending : Pending} {error : AssemblyError}
      (hstep : s.step pending = .error error) : Ends 1 s pending (.error error)
  | finish {s after : Expansion} {pending : Pending}
      (hstep : s.step pending = .ok (after, none)) : Ends 1 s pending after.finish
  | next {s after : Expansion} {pending rest : Pending} {count : Nat}
      {answer : Except AssemblyError (List TokenId × TokenStore)}
      (hstep : s.step pending = .ok (after, some rest)) (hends : Ends count after rest answer) :
      Ends (count + 1) s pending answer

/-- States that expansion goes through from a state on. -/
inductive Reaches (s : Expansion) (pending : Pending) : Expansion → Pending → Prop
  | refl : Reaches s pending s pending
  | step {middle after : Expansion} {between next : Pending}
      (hreaches : Reaches s pending middle between)
      (hstep : middle.step between = .ok (after, some next)) : Reaches s pending after next

theorem length_frames_advance_le {reaction : Reaction} {pending next : Pending}
    (hadvance : advance reaction pending = .ok next)
    (hle : pending.frames.length ≤ Pending.maxFrames) :
    next.frames.length ≤ Pending.maxFrames := by
  have hdrop := pending.length_frames_drop_le reaction.consumed
  unfold advance at hadvance
  cases hframe : reaction.frame with
  | none =>
      simp only [hframe, Except.ok.injEq] at hadvance
      rw [← hadvance]
      exact Nat.le_trans hdrop hle
  | some frame =>
      simp only [hframe] at hadvance
      cases hpush : (pending.drop reaction.consumed).push? frame with
      | none => simp [hpush] at hadvance
      | some pushed =>
          simp only [hpush, Except.ok.injEq] at hadvance
          have hroom := (Pending.push?_isSome_iff _ frame).mp (Option.isSome_of_eq_some hpush)
          rw [← hadvance, Pending.length_frames_of_push? hpush]
          exact hroom

/-- A reaction fails only by a list that the stack has no room for. -/
theorem advance_eq_error_iff {reaction : Reaction} {pending : Pending} {error : AssemblyError} :
    advance reaction pending = .error error ↔
      (∃ frame, reaction.frame = some frame) ∧
        Pending.maxFrames ≤ (pending.drop reaction.consumed).frames.length ∧
        error = reaction.state.fault reaction.cause "macro expansion nested too deeply" := by
  unfold advance
  cases hframe : reaction.frame with
  | none => simp
  | some frame =>
      have hroom := Pending.push?_isSome_iff (pending.drop reaction.consumed) frame
      cases hpush : (pending.drop reaction.consumed).push? frame with
      | none =>
          rw [hpush] at hroom
          simp only [Option.isSome_none, Bool.false_eq_true, false_iff, Nat.not_lt] at hroom
          simp [hpush, hroom, eq_comm]
      | some pushed =>
          rw [hpush] at hroom
          simp only [Option.isSome_some, true_iff] at hroom
          simp [hpush, Nat.not_le.mpr hroom]

theorem length_frames_step_le {s after : Expansion} {pending next : Pending}
    (hstep : s.step pending = .ok (after, some next))
    (hle : pending.frames.length ≤ Pending.maxFrames) :
    next.frames.length ≤ Pending.maxFrames := by
  unfold step at hstep
  cases hread : pending.read? with
  | none => simp [hread] at hstep
  | some found =>
      obtain ⟨token, rest⟩ := found
      simp only [hread, bind, Except.bind] at hstep
      cases hreact : s.react token pending.last rest with
      | error => simp [hreact] at hstep
      | ok reaction =>
          cases hadvance : advance reaction rest with
          | error => simp [hreact, hadvance] at hstep
          | ok moved =>
              simp only [hreact, hadvance, Except.ok.injEq, Prod.mk.injEq,
                Option.some.injEq] at hstep
              rw [← hstep.2]
              apply length_frames_advance_le hadvance
              exact Nat.le_trans (Pending.length_frames_of_read? hread) hle

theorem Reaches.length_frames_le {s after : Expansion} {pending next : Pending}
    (hreaches : Reaches s pending after next)
    (hle : pending.frames.length ≤ Pending.maxFrames) :
    next.frames.length ≤ Pending.maxFrames := by
  induction hreaches with
  | refl => exact hle
  | step _ hstep ih => exact length_frames_step_le hstep ih

theorem run_eq (s : Expansion) (pending : Pending) :
    s.run pending = match s.step pending with
      | .error fault => .error fault
      | .ok (after, none) => after.finish
      | .ok (after, some next) => after.run next := by
  rw [run]
  split <;> simp only [*]

/-- What expansion gives, if it ends within a number of steps. -/
def runWithin? : Nat → Expansion → Pending →
    Option (Except AssemblyError (List TokenId × TokenStore))
  | 0, _, _ => none
  | count + 1, s, pending =>
    match s.step pending with
    | .error fault => some (.error fault)
    | .ok (after, none) => some after.finish
    | .ok (after, some next) => runWithin? count after next

theorem run_of_runWithin? {s : Expansion} {pending : Pending} {count : Nat}
    {answer : Except AssemblyError (List TokenId × TokenStore)}
    (hwithin : runWithin? count s pending = some answer) : s.run pending = answer := by
  induction count generalizing s pending with
  | zero => cases hwithin
  | succ count ih =>
      rw [runWithin?] at hwithin
      rw [run_eq]
      split at hwithin
      · exact Option.some.inj hwithin
      · exact Option.some.inj hwithin
      · exact ih hwithin

/-- What a run ends with can be read off the steps that it takes. -/
theorem exists_answer {α : Type} {s : Expansion} {pending : Pending} {count : Nat}
    {f : List TokenId × TokenStore → α} {value : α}
    (hwithin : (runWithin? count s pending).bind (fun answer => answer.toOption.map f) =
      some value) :
    ∃ answer, s.run pending = .ok answer ∧ f answer = value := by
  obtain ⟨answer, hanswer, hvalue⟩ := Option.bind_eq_some_iff.mp hwithin
  obtain ⟨found, hfound, rfl⟩ := Option.map_eq_some_iff.mp hvalue
  exact ⟨found, (run_of_runWithin? hanswer).trans (toOption_eq_some.mp hfound), rfl⟩

/-- Finitely many steps lead from every state to what expansion from there gives. -/
theorem exists_ends (s : Expansion) (pending : Pending) :
    ∃ count, Ends count s pending (s.run pending) := by
  -- every step makes the stack of lists smaller, so the induction is on its rank
  induction s, pending using run.induct with
  | case1 s pending error hstep =>
      rw [run_eq, hstep]
      exact ⟨1, .fault hstep⟩
  | case2 s pending after hstep =>
      rw [run_eq, hstep]
      exact ⟨1, .finish hstep⟩
  | case3 s pending after next hstep ih =>
      obtain ⟨count, hends⟩ := ih
      rw [run_eq, hstep]
      exact ⟨count + 1, .next hstep hends⟩

/-- Expansion has one answer. -/
theorem Ends.unique {s : Expansion} {pending : Pending} {first second : Nat}
    {answer other : Except AssemblyError (List TokenId × TokenStore)}
    (hends : Ends first s pending answer) (hother : Ends second s pending other) :
    first = second ∧ answer = other := by
  induction hends generalizing second with
  | fault hstep =>
      cases hother with
      | fault hstep' =>
          cases hstep.symm.trans hstep'
          exact ⟨rfl, rfl⟩
      | finish hstep' => cases hstep.symm.trans hstep'
      | next hstep' hends' => cases hstep.symm.trans hstep'
  | finish hstep =>
      cases hother with
      | fault hstep' => cases hstep.symm.trans hstep'
      | finish hstep' =>
          cases hstep.symm.trans hstep'
          exact ⟨rfl, rfl⟩
      | next hstep' hends' => cases hstep.symm.trans hstep'
  | next hstep hends ih =>
      cases hother with
      | fault hstep' => cases hstep.symm.trans hstep'
      | finish hstep' => cases hstep.symm.trans hstep'
      | next hstep' hends' =>
          cases hstep.symm.trans hstep'
          obtain ⟨rfl, hsame⟩ := ih hends'
          exact ⟨rfl, hsame⟩

/-- Whatever the tokens, the files and the configuration, expansion takes a definite number of steps
to its one answer, and on the way never more than 256 lists wait to be read: not between two steps,
and not after any of the tokens that a step reads. -/
theorem expand_terminates (config : AssemblyConfig) (importer : Importer) (store : TokenStore)
    (tokens : List TokenId) :
    (∃ count, Ends count (start config importer store) (.ofTokens tokens)
        (expand config importer store tokens) ∧
      ∀ other answer, Ends other (start config importer store) (.ofTokens tokens) answer →
        other = count ∧ answer = expand config importer store tokens) ∧
    ∀ s pending, Reaches (start config importer store) (.ofTokens tokens) s pending →
      ∀ count, (pending.drop count).frames.length ≤ Pending.maxFrames := by
  constructor
  · obtain ⟨count, hends⟩ := exists_ends (start config importer store) (.ofTokens tokens)
    exact ⟨count, hends, fun _ _ hother => hother.unique hends⟩
  · intro s pending hreaches count
    have hstart : (Pending.ofTokens tokens).frames.length ≤ Pending.maxFrames := by
      change 1 ≤ 256
      omega
    exact Nat.le_trans (pending.length_frames_drop_le count) (hreaches.length_frames_le hstart)

end Expansion

end VectorStack
