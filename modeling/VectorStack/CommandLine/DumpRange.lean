import VectorStack.Memory
import VectorStack.Text.Property
import VectorStack.Token.Number
/-!
A range of memory to show after a run, as it is written in an argument and as it is printed.
-/

namespace VectorStack

/-- `length` bytes from an address on. -/
structure DumpRange where
  address : Nat
  length : Nat
deriving DecidableEq, Repr

/-- Why a text is no range. -/
inductive DumpRangeFault where
  /-- There is no colon between an address and a length. -/
  | noColon (text : String)
  /-- One of them is no number, or is negative or has a fraction. -/
  | notCount (text : String)
deriving DecidableEq, Repr

namespace DumpRangeFault

def message : DumpRangeFault → String
  | noColon text => "expected ADDR:LEN, found `" ++ text ++ "`"
  | notCount text => "`" ++ text ++ "` is not a non-negative integer"

end DumpRangeFault

namespace DumpRange

/-- What stands before and behind the first colon. -/
def splitAtColon (text : List Char) : Option (List Char × List Char) :=
  match text.span (· != ':') with
  | (_, []) => none
  | (before, _ :: behind) => some (before, behind)

/-- A literal that is a count, with white space around it. -/
def parseCount (text : List Char) : Except DumpRangeFault Nat :=
  match (Number.parse? (Text.trim text)).bind Number.natural? with
  | some count => .ok count
  | none => .error (.notCount (String.ofList text))

/-- An address and a length with a colon between them. -/
def parse (text : String) : Except DumpRangeFault DumpRange := do
  match splitAtColon text.toList with
  | none => .error (.noColon text)
  | some (address, length) =>
    let address ← parseCount address
    let length ← parseCount length
    .ok ⟨Address.wrap address, length⟩

/-- Bytes shown on a row. -/
def rowBytes : Nat := 16

/-- Number of rows. -/
def rowCount (range : DumpRange) : Nat := (range.length + rowBytes - 1) / rowBytes

/-- A row: the address of its first byte, and its bytes. -/
def formatRow (range : DumpRange) (memory : Memory) (row : Nat) : String :=
  let shown := row * rowBytes
  let bytes := memory.read (range.address + shown) (min rowBytes (range.length - shown))
  let start := Bytes.hexNat 6 (Address.wrap (range.address + shown))
  start ++ "  " ++ String.intercalate " " (bytes.map Bytes.hexByte) ++ "\n"

/-- The rows of a range. -/
def format (range : DumpRange) (memory : Memory) : String :=
  String.join ((List.range range.rowCount).map (range.formatRow memory))

end DumpRange

end VectorStack
