import VectorStack.Assembly.Layout
import VectorStack.ByteRun
import VectorStack.LaneVector
/-!
The constant pool: one cell for every distinct constant that operands need, laid out one after
another where a program wants them or where there is room. Operands share a cell when they have the
same type and the same bytes.
-/

namespace VectorStack

/-- A distinct constant, with a copy for every lane that its operands need. -/
structure PoolCell where
  type : DataType
  content : ByteRun
deriving DecidableEq, Repr

/-- The cells with their addresses, and the address for every request. -/
structure ConstantPool where
  cells : List (Nat × PoolCell)
  addresses : List Nat
deriving DecidableEq, Repr

namespace Layout

/-- The number that an operand stands for, once every label is placed. -/
def termNumber (layout : Layout) (store : TokenStore) (term : Term) :
    Except AssemblyError Number :=
  match term.written with
  | .literal token negative =>
    match Number.parse? (store.chars token) with
    | some number => .ok (if negative then number.neg else number)
    | none => .error (store.faultAt token (.invalidToken (store.text token)))
  | .word token =>
    match addressOf? layout.labels (store.text token) with
    | some address => .ok (.ofNat address)
    | none => .error (store.faultAt token (.unknownLabel (store.text token)))
  | .expression expression => expression.evaluate store (addressOf? layout.labels)
  | .placeholder | .string _ => .error (store.grammarFault term.token "expected a number")

/-- One copy of an operand as lanes of a type: a single lane, or a lane for every byte of a string,
which its length may come before. -/
def encodeTerm (layout : Layout) (store : TokenStore) (type : DataType) (term : Term)
    (lengthFirst : Bool) : Except AssemblyError Bytes := do
  let numbers ← match term.written with
    | .string token => do
      let text ← store.stringBytes token
      let lanes := text.map fun byte => Number.ofNat byte.toNat
      .ok (if lengthFirst then .ofNat text.length :: lanes else lanes)
    | _ => do .ok [← layout.termNumber store term]
  .ok (numbers.flatMap fun number => type.encodeLane (number.toCell type.mode))

end Layout

namespace ConstantPool

/-- Add a constant to cells, widening the cell that has it already. The result has the number of its
cell. -/
def insert (type : DataType) (once : Bytes) (lanes : Nat) : List PoolCell → Nat × List PoolCell
  | [] => (0, [⟨type, once, lanes⟩])
  | cell :: rest =>
    if cell.type = type ∧ cell.content.once = once then
      (0, ⟨type, once, max cell.content.copies lanes⟩ :: rest)
    else
      let (index, rest) := insert type once lanes rest
      (index + 1, cell :: rest)

/-- Add all requested constants to cells, and number the cell of every request. -/
def collect (layout : Layout) (store : TokenStore) (cells : List PoolCell) :
    List PoolRequest → Except AssemblyError (List Nat × List PoolCell)
  | [] => .ok ([], cells)
  | request :: rest => do
    let once ← layout.encodeTerm store request.type request.term true
    let (index, cells) := insert request.type once request.lanes cells
    let (indices, cells) ← collect layout store cells rest
    .ok (index :: indices, cells)

/-- Bytes that cells take together. -/
def totalSize : List PoolCell → Nat
  | [] => 0
  | cell :: rest => cell.content.length + totalSize rest

/-- Give cells consecutive addresses. -/
def addressFrom (start : Nat) : List PoolCell → List (Nat × PoolCell)
  | [] => []
  | cell :: rest => (Address.wrap start, cell) :: addressFrom (start + cell.content.length) rest

/-- Where a pool of `size` bytes starts. `first` is the operand that faults are reported at. -/
def base (layout : Layout) (store : TokenStore) (config : AssemblyConfig) (first : Term)
    (size : Nat) : Except AssemblyError Nat :=
  let fault (fault : AssemblyFault) : AssemblyError := store.faultAt first.token fault
  match addressOf? layout.labels config.poolLabel with
  | some address =>
    if Extent.overlaps layout.extents.toList address size then .error (fault (.poolOverlap address))
    else .ok address
  | none =>
    if config.requirePoolLabel then .error (fault (.missingPoolLabel config.poolLabel))
    else
      match Extent.free? layout.extents.toList size with
      | some address => .ok address
      | none =>
        let highest := (Extent.highest? layout.extents.toList).getD 0
        .error (fault (.poolOverlap (Address.wrap highest)))

/-- Lay out the constants that a program needs. -/
def ofLayout (layout : Layout) (store : TokenStore) (config : AssemblyConfig) :
    Except AssemblyError ConstantPool := do
  let (indices, cells) ← collect layout store [] layout.requests.toList
  match layout.requests.toList with
  | [] => .ok ⟨[], []⟩
  | first :: _ =>
    let start ← base layout store config first.term (totalSize cells)
    let placed := addressFrom start cells
    .ok ⟨placed, indices.map fun index => (placed[index]?.map Prod.fst).getD 0⟩

/-- The address of the constant that a request asks for. -/
def addressOf (pool : ConstantPool) (request : Nat) : Nat := pool.addresses.getD request 0

end ConstantPool

end VectorStack
