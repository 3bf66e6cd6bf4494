import VectorStack.Assembly.Macro
import VectorStack.Proofs.Checked
import VectorStack.Proofs.Token.Kinds
/-!
Tokens in which openings and closings match. Every reader that counts openings and closings gets
past such tokens with the count that it had: a skipped block ends at its own brace, and a condition
or an argument list at its own parenthesis.
-/

namespace VectorStack

/-- Tokens in which openings and closings of one sort match. Outside of all groups none of them is
of an excluded kind. -/
inductive Balanced (store : TokenStore) (opening closing : TokenKind) :
    List TokenKind → List TokenId → Prop
  | nil {excluded : List TokenKind} : Balanced store opening closing excluded []
  | cons {excluded : List TokenKind} {token : TokenId} {rest : List TokenId}
      (hkind : store.kind token ∉ opening :: closing :: excluded)
      (hrest : Balanced store opening closing excluded rest) :
    Balanced store opening closing excluded (token :: rest)
  | group {excluded : List TokenKind} {left right : TokenId} {inner rest : List TokenId}
      (hleft : store.kind left = opening) (hinner : Balanced store opening closing [] inner)
      (hright : store.kind right = closing)
      (hrest : Balanced store opening closing excluded rest) :
    Balanced store opening closing excluded (left :: (inner ++ right :: rest))

namespace Balanced

variable {store : TokenStore} {opening closing : TokenKind} {excluded : List TokenKind}
  {first rest : List TokenId}

theorem append (hfirst : Balanced store opening closing excluded first)
    (hrest : Balanced store opening closing excluded rest) :
    Balanced store opening closing excluded (first ++ rest) := by
  induction hfirst with
  | nil => exact hrest
  | cons hkind _ ih => exact .cons hkind (ih hrest)
  | group hleft hinner hright _ _ ih =>
      rw [List.cons_append, List.append_assoc, List.cons_append]
      exact .group hleft hinner hright (ih hrest)

/-- Without an exclusion. -/
theorem free (hbalanced : Balanced store opening closing excluded rest) :
    Balanced store opening closing [] rest := by
  induction hbalanced with
  | nil => exact .nil
  | cons hkind _ ih =>
      refine .cons (mt (fun hmem => ?_) hkind) ih
      exact List.subset_append_left [opening, closing] _ hmem
  | group hleft hinner hright _ _ ih => exact .group hleft hinner hright ih

end Balanced

namespace TokenStore

variable {store : TokenStore} {token opening left right : TokenId}
  {inner rest : List TokenId} {excluded : List TokenKind} {depth taken : Nat}

theorem ne_of_not_mem {kind opening closing : TokenKind}
    (hkind : kind ∉ opening :: closing :: excluded) :
    kind ≠ opening ∧ kind ≠ closing ∧ kind ∉ excluded := by
  simpa only [List.mem_cons, not_or] using hkind

/-- Skipping a block gets past all blocks within it. -/
theorem skipBlock_append (hbalanced : Balanced store .openBrace .closeBrace excluded inner)
    (hdepth : 1 ≤ depth) :
    store.skipBlock opening depth taken (inner ++ rest) =
      store.skipBlock opening depth (taken + inner.length) rest := by
  induction hbalanced generalizing depth taken rest with
  | nil => rfl
  | cons hkind _ ih =>
      obtain ⟨hopening, hclosing, -⟩ := ne_of_not_mem hkind
      rw [List.cons_append, skipBlock]
      split
      · contradiction
      · contradiction
      · rw [ih hdepth, List.length_cons]
        congr 1
        omega
  | group hleft _ hright _ ihInner ihRest =>
      rw [List.cons_append, skipBlock, hleft, List.append_assoc, List.cons_append,
        ihInner (Nat.le_add_left 1 depth), skipBlock, hright]
      rw [if_neg (by omega), Nat.add_sub_cancel, ihRest hdepth]
      simp only [List.length_cons, List.length_append]
      congr 1
      omega

/-- Reading a group gets past all groups within it, and keeps them but for comments. -/
theorem readGroupFrom_append {group : List TokenId}
    (hbalanced : Balanced store .openParen .closeParen excluded inner)
    (hline : store.IsLine inner) (hdepth : 1 ≤ depth)
    (hread : store.readGroupFrom opening depth rest = .ok (group, taken)) :
    store.readGroupFrom opening depth (inner ++ rest) =
      .ok (store.uncommented inner ++ group, inner.length + taken) := by
  induction hbalanced generalizing depth rest group taken with
  | nil => rwa [List.nil_append, uncommented_nil, List.nil_append, List.length_nil, Nat.zero_add]
  | @cons _ token inner hkind _ ih =>
      obtain ⟨hopening, hclosing, -⟩ := ne_of_not_mem hkind
      obtain ⟨hfirst, hline⟩ := isLine_cons.mp hline
      have hinner := ih hline hdepth hread
      rw [List.cons_append, readGroupFrom]
      dsimp only
      split
      · contradiction
      · next hcomment =>
          rw [hinner, uncommented_cons_of_eq hcomment, List.length_cons, Nat.add_right_comm]
          rfl
      · contradiction
      · contradiction
      · next hcomment _ _ =>
          rw [hinner, uncommented_cons_of_ne hcomment, List.length_cons, Nat.add_right_comm]
          rfl
  | @group _ left right inner others hleft _ hright _ ihInner ihRest =>
      obtain ⟨hinner, hothers⟩ := hline.group
      have hcloses : store.readGroupFrom opening (depth + 1) (right :: (others ++ rest)) =
          .ok (right :: (store.uncommented others ++ group), others.length + taken + 1) := by
        rw [readGroupFrom, hright]
        dsimp only
        rw [if_neg (by omega), Nat.add_sub_cancel, ihRest hothers hdepth hread]
        rfl
      have hopens := ihInner hinner (Nat.le_add_left 1 depth) hcloses
      rw [List.cons_append, readGroupFrom, hleft, List.append_assoc, List.cons_append]
      dsimp only
      rw [hopens, uncommented_cons_of_ne (by simp [hleft]), uncommented_append,
        uncommented_cons_of_ne (by simp [hright])]
      simp [Except.map]
      omega

end TokenStore

/-- Nothing but comments is balanced. -/
theorem Balanced.of_uncommented {store : TokenStore} {opening closing : TokenKind}
    {excluded : List TokenKind} {tokens : List TokenId}
    (hcomment : .comment ∉ opening :: closing :: excluded)
    (hempty : store.uncommented tokens = []) :
    Balanced store opening closing excluded tokens := by
  induction tokens with
  | nil => exact .nil
  | cons token rest ih =>
      have hkind : store.kind token = .comment := by
        refine Decidable.byContradiction fun hother => ?_
        rw [TokenStore.uncommented_cons_of_ne hother] at hempty
        cases hempty
      rw [TokenStore.uncommented_cons_of_eq hkind] at hempty
      exact .cons (hkind ▸ hcomment) (ih hempty)

end VectorStack
