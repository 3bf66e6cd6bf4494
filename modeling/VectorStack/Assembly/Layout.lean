import VectorStack.Assembly.Config
import VectorStack.Assembly.Statement
import VectorStack.Text.Utf8
import VectorStack.Token.StringLiteral
/-!
Where everything goes. Statements are placed one after another, labels get the addresses they stand
at, and for every operand it is decided how the machine reaches it. Operands that are constants ask
for a place in the constant pool, which comes later.
-/

namespace VectorStack

/-- A label and the address it stands at. -/
structure Label where
  name : String
  address : Nat
  token : TokenId
deriving DecidableEq, Repr

/-- The address of the label with a given name. -/
def addressOf? (labels : Array Label) (name : String) : Option Nat :=
  (labels.find? (·.name == name)).map Label.address

/-- How the machine reaches an operand. -/
inductive Addressing where
  | stack
  /-- The address behind the word is the operand. -/
  | inlined (term : Term)
  /-- The operand is where a label stands. -/
  | direct (label : TokenId)
  /-- The operand is at the value of an expression. -/
  | offset (expression : Expression)
  /-- The operand is a constant; the number counts the requests for constants. -/
  | pooled (request : Nat)
deriving DecidableEq, Repr

/-- A constant that some operand needs. -/
structure PoolRequest where
  type : DataType
  lanes : Nat
  term : Term
deriving DecidableEq, Repr

/-- A statement once it is decided how its operands are reached. -/
inductive Lowered where
  | label (token : TokenId)
  | position (address : Nat)
  | data (type : DataType) (item : Term)
  | instruction (token : TokenId) (word : Instruction) (operands : List Addressing)
deriving DecidableEq, Repr

/-- Addresses from `start` up to but not including `stop`. -/
structure Extent where
  start : Nat
  stop : Nat
deriving DecidableEq, Repr

namespace Extent

/-- The ranges that `size` bytes from `start` on take; beyond the top of memory they go on at its
bottom. -/
def ofRange (start size : Nat) : List Extent :=
  if Address.space < start + size then
    [⟨start, Address.space⟩, ⟨0, start + size - Address.space⟩]
  else if size = 0 then []
  else [⟨start, start + size⟩]

/-- A range shares an address with one of the extents. -/
def hits (extents : List Extent) (start stop : Nat) : Bool :=
  extents.any fun extent => extent.start < stop && start < extent.stop

/-- `size` bytes from `start` on share an address with one of the extents. -/
def overlaps (extents : List Extent) (start size : Nat) : Bool :=
  hits extents start (min (start + size) Address.space) ||
    (Address.space < start + size && hits extents 0 (start + size - Address.space))

/-- The end of the highest extent. -/
def highest? (extents : List Extent) : Option Nat := (extents.map Extent.stop).max?

/-- Where `size` free bytes start: behind the highest extent if they fit there, else as low as
possible. -/
def free? (extents : List Extent) (size : Nat) : Option Nat :=
  let stops := (extents.map Extent.stop).mergeSort
  ((highest? extents).toList ++ 0 :: stops).find? fun start =>
    start + size ≤ Address.space && !overlaps extents start size

end Extent

/-- What is known while statements are placed. -/
structure Layout where
  /-- Where the next statement goes. -/
  cursor : Nat
  /-- Labels in the order of their definitions. -/
  labels : Array Label
  /-- Constants that operands need, in order. -/
  requests : Array PoolRequest
  /-- Addresses taken so far. -/
  extents : Array Extent
  lowered : Array Lowered
deriving DecidableEq, Repr

namespace TokenStore

/-- The address that a position names. -/
def positionAddress (store : TokenStore) (token : TokenId) : Except AssemblyError Nat :=
  match (Number.parse? ((store.chars token).drop 1)).bind Number.natural? with
  | some address => .ok (Address.wrap address)
  | none => .error (store.grammarFault token "position must be a non-negative integer")

/-- The bytes that a string literal stands for. -/
def stringBytes (store : TokenStore) (token : TokenId) : Except AssemblyError Bytes :=
  match StringLiteral.unescape? (store.chars token) with
  | some text => .ok (Text.encode text)
  | none => .error (store.faultAt token (.invalidToken (store.text token)))

/-- Number of bytes of a data item. -/
def dataSize (store : TokenStore) (type : DataType) (item : Term) : Except AssemblyError Nat := do
  let lanes ← match item.written with
    | .string token => (store.stringBytes token).map List.length
    | _ => .ok 1
  .ok (lanes * type.size * item.copies)

end TokenStore

namespace Layout

def start : Layout := ⟨0, #[], #[], #[], #[]⟩

/-- Place `size` bytes at the cursor. -/
def occupy (layout : Layout) (size : Nat) : Layout :=
  { layout with
    extents := layout.extents ++ (Extent.ofRange layout.cursor size)
    cursor := Address.wrap (layout.cursor + size) }

/-- How an operand of a known type and width is reached, and the constant it needs. The number of a
new request is that of the requests before it. -/
def reach (store : TokenStore) (requests : Array PoolRequest) (term : Term) (type : DataType)
    (width : Nat) (output : Bool) : Except AssemblyError (Addressing × Array PoolRequest) :=
  let inlines := !output && type == .p24 && width == 1 && term.copies == 1
  let constant (lanes : Nat) : Except AssemblyError (Addressing × Array PoolRequest) :=
    if output then
      .error (store.grammarFault term.token "an output must be `_`, a label or an address")
    else .ok (.pooled requests.size, requests.push ⟨type, lanes, term⟩)
  match term.written with
  | .placeholder => .ok (.stack, requests)
  | .literal _ _ =>
    if inlines then .ok (.inlined term, requests) else constant (max width term.copies)
  | .word token => .ok (if inlines then .inlined term else .direct token, requests)
  | .expression expression =>
    if inlines then .ok (.inlined term, requests)
    else if output || expression.referencesLabel store then .ok (.offset expression, requests)
    else constant (max width term.copies)
  | .string _ => constant 1

/-- The type of an operand: the one its slot forces, else the one the statement names, else the one
assumed everywhere. -/
def operandType (store : TokenStore) (config : AssemblyConfig) (statement : InstructionStatement)
    (index : Nat) (slot : Slot) : Except AssemblyError DataType :=
  match slot.type, statement.type, config.defaultType with
  | some type, _, _ | none, some type, _ | none, none, some type => .ok type
  | none, none, none =>
    .error (store.faultAt statement.token (.missingType statement.opcode.mnemonic index))

/-- Types of the operands in slots from `index` on, and how they are reached. -/
def planSlots (store : TokenStore) (config : AssemblyConfig) (statement : InstructionStatement)
    (output : Bool) (index : Nat) (requests : Array PoolRequest) :
    List Slot → List Term →
      Except AssemblyError (List (DataType × Addressing) × Array PoolRequest)
  | [], _ => .ok ([], requests)
  | slot :: slots, terms => do
    let type ← operandType store config statement index slot
    let width := slot.resolveWidth statement.width
    let (addressing, requests) ← match terms with
      | [] => .ok (.stack, requests)
      | term :: _ => reach store requests term type width output
    let (planned, requests) ←
      planSlots store config statement output (index + 1) requests slots terms.tail
    .ok ((type, addressing) :: planned, requests)

/-- The set of slots, as bits from `index` on, that a test holds of. -/
def slotMask (test : Addressing → Bool) (index : Nat) : List (DataType × Addressing) → Nat
  | [] => 0
  | (_, addressing) :: rest =>
    (if test addressing then 1 <<< index else 0) + slotMask test (index + 1) rest

/-- The operand is given by an address behind the word. -/
def takesAddress : Addressing → Bool
  | .stack => false
  | _ => true

def isInlined : Addressing → Bool
  | .inlined _ => true
  | _ => false

/-- The instruction word for planned operands. -/
def wordFor (statement : InstructionStatement) (planned : List (DataType × Addressing)) :
    Instruction where
  opcode := statement.opcode
  width := statement.width
  immediateCount := planned.countP fun operand => takesAddress operand.2
  types :=
    let type (index : Nat) : DataType := (planned[index]?.map Prod.fst).getD .u8
    (type 0, type 1, type 2)
  immediate := slotMask takesAddress 0 planned
  inlined := slotMask isInlined 0 planned

/-- Decide how the operands of an instruction are reached. -/
def plan (store : TokenStore) (config : AssemblyConfig) (requests : Array PoolRequest)
    (statement : InstructionStatement) :
    Except AssemblyError (Instruction × List Addressing × Array PoolRequest) := do
  let template := statement.opcode.template
  let (inputs, requests) ←
    planSlots store config statement false 0 requests template.inputs statement.inputs
  let (outputs, requests) ←
    planSlots store config statement true template.inputs.length requests template.outputs
      statement.outputs
  let planned := inputs ++ outputs
  .ok (wordFor statement planned, planned.map Prod.snd, requests)

/-- Place one statement. -/
def place (store : TokenStore) (config : AssemblyConfig) (layout : Layout) :
    Statement → Except AssemblyError Layout
  | .label token =>
    let name := store.text token
    if (addressOf? layout.labels name).isSome then
      .error (store.faultAt token (.duplicateLabel name))
    else
      .ok { layout with
        labels := layout.labels.push ⟨name, layout.cursor, token⟩
        lowered := layout.lowered.push (.label token) }
  | .position token => do
    let address ← store.positionAddress token
    .ok { layout with cursor := address, lowered := layout.lowered.push (.position address) }
  | .data type item => do
    let size ← store.dataSize type item
    .ok ({ layout with lowered := layout.lowered.push (.data type item) }.occupy size)
  | .instruction statement => do
    let (word, operands, requests) ← plan store config layout.requests statement
    let lowered := layout.lowered.push (.instruction statement.token word operands)
    .ok ({ layout with requests, lowered }.occupy word.size)

/-- Place statements in order. -/
def ofStatements (store : TokenStore) (config : AssemblyConfig) (statements : List Statement) :
    Except AssemblyError Layout :=
  statements.foldlM (place store config) start

end Layout

end VectorStack
