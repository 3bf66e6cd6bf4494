import VectorStack.Assembly.ConstantPool
import VectorStack.Proofs.Checked
/-!
Equal constants share a cell. Adding a constant keeps the numbers of the cells there were, and no
two cells ever hold the same constant, so two requests get one cell exactly when they ask for the
same bytes of the same type. A cell is as wide as the widest request for it.
-/

namespace VectorStack

/-- What tells cells apart. -/
def PoolCell.key (cell : PoolCell) : DataType × Bytes := (cell.type, cell.content.once)

namespace ConstantPool

variable {store : TokenStore} {layout : Layout} {type : DataType} {once : Bytes} {lanes : Nat}
  {cells : List PoolCell}

/-- No two cells hold the same constant. -/
def Distinct (cells : List PoolCell) : Prop := (cells.map PoolCell.key).Nodup

/-- Cells keep their numbers and only get wider. -/
def Widens (cells next : List PoolCell) : Prop :=
  ∀ (index : Nat) (cell : PoolCell), cells[index]? = some cell →
    ∃ copies, cell.content.copies ≤ copies ∧
      next[index]? = some ⟨cell.type, cell.content.once, copies⟩

theorem Widens.refl (cells : List PoolCell) : Widens cells cells :=
  fun _ cell hcell => ⟨cell.content.copies, Nat.le_refl _, hcell⟩

theorem Widens.trans {cells next last : List PoolCell} (hfirst : Widens cells next)
    (hsecond : Widens next last) : Widens cells last := by
  intro index cell hcell
  obtain ⟨copies, hle, hnext⟩ := hfirst index cell hcell
  obtain ⟨wider, hwider, hlast⟩ := hsecond index _ hnext
  exact ⟨wider, Nat.le_trans hle hwider, hlast⟩

/-- What adding a constant does to cells, where it gets the number `index`. -/
structure Inserted (type : DataType) (once : Bytes) (lanes : Nat) (cells : List PoolCell)
    (index : Nat) (next : List PoolCell) : Prop where
  found : ∃ copies, lanes ≤ copies ∧ next[index]? = some ⟨type, once, copies⟩
  widens : Widens cells next
  origin : ∀ (other : Nat) (cell : PoolCell), next[other]? = some cell →
    cells[other]? = some cell ∨ other = index ∧ cell.content.copies = lanes
  keys_eq : next.map PoolCell.key = cells.map PoolCell.key ∨
    (type, once) ∉ cells.map PoolCell.key ∧
      next.map PoolCell.key = cells.map PoolCell.key ++ [(type, once)]

theorem inserted_insert (type : DataType) (once : Bytes) (lanes : Nat) (cells : List PoolCell) :
    Inserted type once lanes cells (insert type once lanes cells).1
      (insert type once lanes cells).2 := by
  induction cells with
  | nil =>
      refine ⟨⟨lanes, Nat.le_refl _, rfl⟩, fun _ _ hcell => by simp at hcell, ?_,
        .inr ⟨List.not_mem_nil, rfl⟩⟩
      intro other cell hcell
      cases other with
      | zero =>
          cases hcell
          exact .inr ⟨rfl, rfl⟩
      | succ other => exact .inl hcell
  | cons cell rest ih =>
      rw [insert]
      split
      · next hsame =>
          obtain ⟨rfl, rfl⟩ := hsame
          refine ⟨⟨_, Nat.le_max_right _ _, rfl⟩, ?_, ?_, .inl rfl⟩
          · intro index other hother
            cases index with
            | zero =>
                cases hother
                exact ⟨_, Nat.le_max_left _ _, rfl⟩
            | succ index => exact Widens.refl rest index other hother
          · intro index other hother
            cases index with
            | zero =>
                cases hother
                rcases Nat.le_total lanes cell.content.copies with hnarrow | hwide
                · left
                  simp [Nat.max_eq_left hnarrow]
                · right
                  exact ⟨rfl, Nat.max_eq_right hwide⟩
            | succ index => exact .inl hother
      · next hother =>
          refine ⟨ih.found, ?_, ?_, ?_⟩
          · intro index old hold
            cases index with
            | zero => exact ⟨old.content.copies, Nat.le_refl _, hold⟩
            | succ index => exact ih.widens index old hold
          · intro index new hnew
            cases index with
            | zero => exact .inl hnew
            | succ index =>
                exact (ih.origin index new hnew).imp_right fun ⟨hindex, hcopies⟩ =>
                  ⟨congrArg (· + 1) hindex, hcopies⟩
          · rcases ih.keys_eq with hkeys | ⟨hnew, hkeys⟩
            · exact .inl (congrArg (cell.key :: ·) hkeys)
            · refine .inr ⟨?_, congrArg (cell.key :: ·) hkeys⟩
              rw [List.map_cons, List.mem_cons, not_or]
              refine ⟨fun hkey => hother ?_, hnew⟩
              rw [PoolCell.key, Prod.mk.injEq] at hkey
              exact ⟨hkey.1.symm, hkey.2.symm⟩

theorem Inserted.distinct {index : Nat} {next : List PoolCell}
    (hinserted : Inserted type once lanes cells index next) (hcells : Distinct cells) :
    Distinct next := by
  rw [Distinct]
  rcases hinserted.keys_eq with hkeys | ⟨hnew, hkeys⟩
  · rw [hkeys]
    exact hcells
  · rw [hkeys]
    rw [List.nodup_append]
    refine ⟨hcells, List.pairwise_singleton _ _, ?_⟩
    rintro key hkey other hother rfl
    exact hnew (List.mem_singleton.mp hother ▸ hkey)

/-- What adding requested constants to cells gives: the number of a cell for every request. -/
structure Collected (layout : Layout) (store : TokenStore) (cells : List PoolCell)
    (requests : List PoolRequest) (indices : List Nat) (final : List PoolCell) : Prop where
  widens : Widens cells final
  distinct : Distinct cells → Distinct final
  found : ∀ (number : Nat) (request : PoolRequest), requests[number]? = some request →
    ∃ (index : Nat) (cell : PoolCell), indices[number]? = some index ∧
      final[index]? = some cell ∧ cell.type = request.type ∧
      layout.encodeTerm store request.type request.term true = .ok cell.content.once ∧
      request.lanes ≤ cell.content.copies
  origin : ∀ (index : Nat) (cell : PoolCell), final[index]? = some cell →
    cells[index]? = some cell ∨ ∃ (number : Nat) (request : PoolRequest),
      requests[number]? = some request ∧ indices[number]? = some index ∧
        request.lanes = cell.content.copies

theorem collected_of_collect {requests : List PoolRequest} {indices : List Nat}
    {final : List PoolCell}
    (hcollect : collect layout store cells requests = .ok (indices, final)) :
    Collected layout store cells requests indices final := by
  induction requests generalizing cells indices with
  | nil =>
      cases hcollect
      exact ⟨Widens.refl _, id, fun _ _ hrequest => by simp at hrequest, fun _ _ => .inl⟩
  | cons request rest ih =>
      obtain ⟨once, hencode, hcollect⟩ := bind_eq_ok.mp hcollect
      obtain ⟨⟨others, last⟩, hothers, hcollect⟩ := bind_eq_ok.mp hcollect
      cases hcollect
      have hfirst := inserted_insert request.type once request.lanes cells
      have hrest := ih hothers
      refine ⟨hfirst.widens.trans hrest.widens,
        fun hcells => hrest.distinct (hfirst.distinct hcells), ?_, ?_⟩
      · intro number wanted hwanted
        cases number with
        | zero =>
            cases hwanted
            obtain ⟨copies, hlanes, hcell⟩ := hfirst.found
            obtain ⟨wider, hwider, hfinal⟩ := hrest.widens _ _ hcell
            exact ⟨_, _, rfl, hfinal, rfl, hencode, Nat.le_trans hlanes hwider⟩
        | succ number => exact hrest.found number wanted hwanted
      · intro index cell hcell
        rcases hrest.origin index cell hcell with hmiddle | ⟨number, wanted, hwanted⟩
        · rcases hfirst.origin index cell hmiddle with hold | ⟨hindex, hcopies⟩
          · exact .inl hold
          · exact .inr ⟨0, request, rfl, congrArg some hindex.symm, hcopies.symm⟩
        · exact .inr ⟨number + 1, wanted, hwanted⟩

/-- Constants are collected whenever each of them can be encoded. -/
theorem exists_collect (cells : List PoolCell) {requests : List PoolRequest}
    (hencode : ∀ request ∈ requests,
      ∃ once, layout.encodeTerm store request.type request.term true = .ok once) :
    ∃ indices final, collect layout store cells requests = .ok (indices, final) := by
  induction requests generalizing cells with
  | nil => exact ⟨[], cells, rfl⟩
  | cons request rest ih =>
      obtain ⟨⟨once, honce⟩, hrest⟩ := List.forall_mem_cons.mp hencode
      obtain ⟨indices, final, hcollect⟩ := ih (insert request.type once request.lanes cells).2 hrest
      refine ⟨(insert request.type once request.lanes cells).1 :: indices, final, ?_⟩
      rw [collect, honce]
      refine bind_eq_ok.mpr ⟨once, rfl, ?_⟩
      exact bind_eq_ok.mpr ⟨(indices, final), hcollect, rfl⟩

end ConstantPool

end VectorStack
