import VectorStack.Machine
import VectorStack.Proofs.Layout.Agreement
import VectorStack.Proofs.Machine.Word
import VectorStack.Proofs.Program.Loading
/-!
What the machine fetches where an instruction was written. It decodes the word that was planned, and
for every slot it finds the address that was written for it, also where the bytes go on at the
bottom of memory.
-/

namespace VectorStack

open Address (space wrap wrap_wrap wrap_wrap_add)

namespace Memory

variable {memory : Memory} {address : Nat} {bytes more : Bytes}

/-- Addresses with the same remainder are the same place, with and without ranges. -/
theorem get_wrap (hsize : memory.ram.size = space) (address : Nat) :
    memory.get (wrap address) = memory.get address := by
  have hram : memory.ram.get (wrap address) = memory.ram.get address := by
    rw [← memory.ram.get_mod_size address, hsize]
    rfl
  unfold get
  rw [wrap_wrap, hram]

theorem Holds.read_eq (hplain : memory.Plain) (hholds : memory.Holds address bytes) :
    memory.read address bytes.length = bytes := by
  rw [Memory.read_eq hplain.mappings_eq]
  refine List.ext_getElem (by simp) fun index hindex hindex' => ?_
  rw [List.getElem_map, List.getElem_range, ← get_wrap hplain.size_eq, hholds index hindex']

theorem Plain.read_write (hplain : memory.Plain) (address : Nat) (hlength : bytes.length ≤ space) :
    (memory.write address bytes).read address bytes.length = bytes :=
  (holds_write hplain hlength).read_eq (hplain.write address bytes)

theorem Holds.left (hholds : memory.Holds address (bytes ++ more)) :
    memory.Holds address bytes := by
  intro index hindex
  rw [hholds index (by rw [List.length_append]; omega), List.getElem_append_left hindex]

theorem Holds.right (hholds : memory.Holds address (bytes ++ more)) :
    memory.Holds (wrap (address + bytes.length)) more := by
  intro index hindex
  have hplace : wrap (wrap (address + bytes.length) + index) =
      wrap (address + (bytes.length + index)) := by
    rw [wrap_wrap_add, Nat.add_assoc]
  have hlength : bytes.length + index < (bytes ++ more).length := by
    rw [List.length_append]
    omega
  rw [hplace, hholds _ hlength, List.getElem_append_right (Nat.le_add_right _ _)]
  simp only [Nat.add_sub_cancel_left]

end Memory

namespace Image

variable {store : TokenStore} {layout : Layout} {pool : ConstantPool}

/-- The address of an operand stands behind those of the operands before it. -/
theorem exists_operandAddress {operands : List Addressing} {bytes : Bytes}
    (hbytes : operandBytes layout store pool operands = .ok bytes) {index : Nat}
    {addressing : Addressing} (hoperand : operands[index]? = some addressing)
    (htakes : Layout.takesAddress addressing = true) :
    ∃ address before behind,
      operandAddress layout store pool addressing = .ok (some address) ∧
      bytes = before ++ (Bytes.ofNat Address.byteCount address ++ behind) ∧
      before.length =
        (operands.take index).countP Layout.takesAddress * Address.byteCount := by
  induction operands generalizing index bytes with
  | nil => cases hoperand
  | cons first rest ih =>
      obtain ⟨firstAddress, haddress, hbytes⟩ := bind_eq_ok.mp hbytes
      obtain ⟨others, hothers, hbytes⟩ := bind_eq_ok.mp hbytes
      cases hbytes
      have hfirst := operandAddress_isSome haddress
      cases index with
      | zero =>
          cases hoperand
          rw [htakes] at hfirst
          obtain ⟨address, rfl⟩ := Option.isSome_iff_exists.mp hfirst
          exact ⟨address, [], others, haddress, rfl, rfl⟩
      | succ index =>
          obtain ⟨address, before, behind, hfound, rfl, hlength⟩ := ih hothers hoperand
          refine ⟨address,
            (firstAddress.map (Bytes.ofNat Address.byteCount)).getD [] ++ before, behind,
            hfound, by rw [List.append_assoc], ?_⟩
          rw [List.length_append, hlength, List.take_succ_cons, List.countP_cons, ← hfirst]
          cases firstAddress with
          | none => simp
          | some _ => simp [Nat.add_mul, Nat.add_comm]

end Image

/-- The number in the bytes of an address. -/
theorem Bytes.toNat_address (address : Nat) :
    Bytes.toNat (Bytes.ofNat Address.byteCount address) = wrap address :=
  Bytes.toNat_ofNat Address.byteCount address

namespace Machine

variable {store : TokenStore} {config : AssemblyConfig} {statement : InstructionStatement}
  {requests after : Array PoolRequest} {word : Instruction} {layout : Layout}
  {pool : ConstantPool} {planned : List (DataType × Addressing)} {addresses : Bytes} {m : Machine}
  {start : Nat}

/-- The machine fetches the word that was written at its program counter. -/
theorem fetch_eq (hplain : m.memory.Plain) (hfits : word.Fits)
    (hholds : m.memory.Holds m.pc
      (Bytes.ofNat Instruction.wordBytes word.encode.toNat ++ addresses)) :
    m.fetch = word := by
  have hread := hholds.left.read_eq hplain
  have hbound : word.encode.toNat < Nat.pow 256 Instruction.wordBytes := word.encode.toNat_lt
  rw [Bytes.length_ofNat] at hread
  rw [fetch, Memory.readNat, hread, Bytes.toNat_ofNat, Nat.mod_eq_of_lt hbound,
    UInt64.ofNat_toNat, Instruction.decode_encode hfits]

/-- The machine finds an operand on the stack where nothing was written for it. -/
theorem place_eq_stack
    (hplanned : Layout.Planned store config statement requests word planned after) {index : Nat}
    {type : DataType} (hoperand : planned[index]? = some (type, .stack)) :
    m.place word start index = .stack := by
  have himmediate : word.isImmediate index = false := by
    rw [hplanned.isImmediate_eq, hoperand]
    rfl
  rw [place, himmediate]
  rfl

/-- The machine finds the address that was written for an operand, and takes it for the operand
itself where that was planned. -/
theorem exists_place (hplain : m.memory.Plain)
    (hplanned : Layout.Planned store config statement requests word planned after)
    (hbytes : Image.operandBytes layout store pool (planned.map Prod.snd) = .ok addresses)
    (hholds : m.memory.Holds start
      (Bytes.ofNat Instruction.wordBytes word.encode.toNat ++ addresses))
    {index : Nat} {type : DataType} {addressing : Addressing}
    (hoperand : planned[index]? = some (type, addressing))
    (htakes : Layout.takesAddress addressing = true) :
    ∃ address field, Image.operandAddress layout store pool addressing = .ok (some address) ∧
      m.memory.read field Address.byteCount = Bytes.ofNat Address.byteCount address ∧
      m.place word start index =
        .memory (if Layout.isInlined addressing then field else wrap address) := by
  have hindex := (List.getElem?_eq_some_iff.mp hoperand).1
  have hlisted : (planned.map Prod.snd)[index]? = some addressing := by
    rw [List.getElem?_map, hoperand]
    rfl
  obtain ⟨address, before, behind, haddress, rfl, hbefore⟩ :=
    Image.exists_operandAddress hbytes hlisted htakes
  have himmediate : word.isImmediate index = true := by
    rw [hplanned.isImmediate_eq, hoperand]
    exact htakes
  have hinlined : word.isInlined index = Layout.isInlined addressing := by
    rw [hplanned.isInlined_eq, hoperand]
    rfl
  have hfield : word.addressField start index =
      wrap (wrap (start + Instruction.wordBytes) + before.length) := by
    rw [Instruction.addressField, Address.move_ofNat,
      hplanned.addressesBefore_eq index (Nat.le_of_lt hindex), ← hbefore,
      wrap_wrap_add, Nat.add_assoc]
  have hthere := hholds.right.right.left.read_eq hplain
  rw [Bytes.length_ofNat, Bytes.length_ofNat, ← hfield] at hthere
  have hnumber : m.memory.readNat (word.addressField start index) Address.byteCount =
      wrap address := by
    rw [Memory.readNat, hthere, Bytes.toNat_address]
  refine ⟨address, _, haddress, hthere, ?_⟩
  simp only [place, himmediate, hinlined, hnumber, wrap_wrap, if_true]
  cases Layout.isInlined addressing <;> rfl

end Machine

end VectorStack
