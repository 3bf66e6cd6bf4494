import VectorStack.Assembly.ConstantPool
import VectorStack.Program
/-!
The bytes of a program, written once every label and constant has an address. Statements are walked
through a second time, and a label that is not where it was placed is a fault.
-/

namespace VectorStack

/-- One instruction or data item: its bytes, and where they come from. -/
structure Entry where
  address : Nat
  content : ByteRun
  token : TokenId
  /-- The type of a data item, none for an instruction. -/
  type : Option DataType
deriving DecidableEq, Repr

namespace Entry

/-- The bytes of the entry. -/
def bytes (entry : Entry) : Bytes := entry.content.bytes

/-- Number of bytes of the entry. -/
def length (entry : Entry) : Nat := entry.content.length

@[simp] theorem length_bytes (entry : Entry) : entry.bytes.length = entry.length :=
  entry.content.length_bytes

end Entry

/-- What a program assembles to. -/
structure Image where
  program : Program
  /-- Labels in the order of their definitions. -/
  labels : List Label
  /-- What was written, in the order of the statements. -/
  entries : List Entry
deriving DecidableEq, Repr

namespace Image

/-- An address given by a number, which must be an integer. -/
def addressOfNumber (store : TokenStore) (token : TokenId) :
    Number → Except AssemblyError Nat
  | .integer cell => .ok (Address.wrap cell.toNat)
  | .real _ => .error (store.faultAt token (.evaluation "an address must be an integer"))

/-- The address behind the word for an operand; none for an operand on the stack. -/
def operandAddress (layout : Layout) (store : TokenStore) (pool : ConstantPool) :
    Addressing → Except AssemblyError (Option Nat)
  | .stack => .ok none
  | .inlined term => do
    let number ← layout.termNumber store term
    (addressOfNumber store term.token number).map some
  | .direct label =>
    match addressOf? layout.labels (store.text label) with
    | some address => .ok (some address)
    | none => .error (store.faultAt label (.unknownLabel (store.text label)))
  | .offset expression => do
    let number ← expression.evaluate store (addressOf? layout.labels)
    (addressOfNumber store expression.opening number).map some
  | .pooled request => .ok (some (pool.addressOf request))

/-- The addresses behind a word, in slot order. -/
def operandBytes (layout : Layout) (store : TokenStore) (pool : ConstantPool) :
    List Addressing → Except AssemblyError Bytes
  | [] => .ok []
  | addressing :: rest => do
    let address ← operandAddress layout store pool addressing
    let others ← operandBytes layout store pool rest
    .ok ((address.map (Bytes.ofNat Address.byteCount)).getD [] ++ others)

/-- The content of a statement, with its token and its data type; none where nothing is written. -/
def contentOf (layout : Layout) (store : TokenStore) (pool : ConstantPool) :
    Lowered → Except AssemblyError (Option (ByteRun × TokenId × Option DataType))
  | .label _ | .position _ => .ok none
  | .data type item => do
    let once ← layout.encodeTerm store type item false
    .ok (some (⟨once, item.copies⟩, item.token, some type))
  | .instruction token word operands => do
    let addresses ← operandBytes layout store pool operands
    let bytes := Bytes.ofNat Instruction.wordBytes word.encode.toNat ++ addresses
    .ok (some (.single bytes, token, none))

/-- A label stands where it was placed. -/
def checkLabel (layout : Layout) (store : TokenStore) (cursor : Nat) (token : TokenId) :
    Except AssemblyError Unit :=
  let name := store.text token
  let placed := (addressOf? layout.labels name).getD 0
  if placed = cursor then .ok ()
  else .error (store.faultAt token (.labelMoved name placed cursor))

/-- Where the next statement goes. -/
def nextCursor (cursor : Nat) (lowered : Lowered) (length : Nat) : Nat :=
  match lowered with
  | .position address => address
  | _ => Address.wrap (cursor + length)

/-- Write statements from a cursor on, skipping those without bytes. -/
def write (layout : Layout) (store : TokenStore) (pool : ConstantPool) (cursor : Nat) :
    List Lowered → Except AssemblyError (List Entry)
  | [] => .ok []
  | .label token :: rest => do
    checkLabel layout store cursor token
    write layout store pool cursor rest
  | lowered :: rest => do
    match ← contentOf layout store pool lowered with
    | none => write layout store pool (nextCursor cursor lowered 0) rest
    | some (content, token, type) =>
      let others ← write layout store pool (nextCursor cursor lowered content.length) rest
      .ok (if content.length = 0 then others else ⟨cursor, content, token, type⟩ :: others)

/-- The program that holds entries and then constants, with its segments in address order. -/
def assemble (entries : List Entry) (pool : ConstantPool) : Program :=
  let written := entries.map fun entry => (entry.address, entry.bytes)
  let constants := pool.cells.map fun (address, cell) => (address, cell.content.bytes)
  ⟨(Program.ofWrites (written ++ constants)).segments.mergeSort fun a b => a.address ≤ b.address⟩

/-- What statements assemble to. -/
def ofStatements (store : TokenStore) (config : AssemblyConfig) (statements : List Statement) :
    Except AssemblyError Image := do
  let layout ← Layout.ofStatements store config statements
  let pool ← ConstantPool.ofLayout layout store config
  let entries ← write layout store pool 0 layout.lowered.toList
  .ok ⟨assemble entries pool, layout.labels.toList, entries⟩

end Image

end VectorStack
