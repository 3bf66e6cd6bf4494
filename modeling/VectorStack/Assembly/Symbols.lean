import VectorStack.Assembly.Image
import VectorStack.Text.Property
/-!
What is known about a program after it is assembled: its labels and what was written where, with the
text it came from. Labels and entries are in address order.
-/

namespace VectorStack

/-- Labels, entries and the tokens they came from. -/
structure Symbols where
  store : TokenStore
  /-- Labels in address order. -/
  labels : List Label
  /-- Entries in address order. -/
  entries : List Entry

namespace Entry

/-- An address lies in the entry's bytes. -/
def covers (entry : Entry) (address : Nat) : Bool :=
  entry.address ≤ address && address - entry.address < entry.length

end Entry

namespace Symbols

/-- Put labels and entries into address order; those at one address keep theirs. -/
def new (store : TokenStore) (labels : List Label) (entries : List Entry) : Symbols :=
  ⟨store, labels.mergeSort fun a b => a.address ≤ b.address,
    entries.mergeSort fun a b => a.address ≤ b.address⟩

/-- The address of a label. -/
def addressOf? (symbols : Symbols) (name : String) : Option Nat :=
  (symbols.labels.find? (·.name == name)).map Label.address

/-- The last label at or before an address. -/
def labelBefore? (symbols : Symbols) (address : Nat) : Option Label :=
  (symbols.labels.takeWhile fun label => label.address ≤ address).getLast?

/-- The entry whose bytes an address lies in. -/
def entryAt? (symbols : Symbols) (address : Nat) : Option Entry :=
  ((symbols.entries.takeWhile fun entry => entry.address ≤ address).getLast?).filter
    (·.covers address)

/-- The token of the instruction or data item at an address. -/
def tokenAt? (symbols : Symbols) (address : Nat) : Option TokenId :=
  (symbols.entryAt? address).map Entry.token

/-- The line of text that a token was cut from. -/
def sourceLine (symbols : Symbols) (token : TokenId) : List Char := symbols.store.lineText token

/-- The line that the outermost expansion of a token started on. -/
def originLine (symbols : Symbols) (token : TokenId) : List Char :=
  symbols.store.lineText (symbols.store.origin token)

/-- An address in hexadecimal behind `0x`, with all its digits. -/
def formatAddress (address : Nat) : String := "0x" ++ Bytes.hexNat 6 address

/-- An address by the last label before it. -/
def location (symbols : Symbols) (address : Nat) : String :=
  match symbols.labelBefore? address with
  | none => formatAddress address
  | some label =>
    let distance := address - label.address
    let place :=
      if distance = 0 then label.name else label.name ++ "+" ++ AssemblyFault.hex distance
    place ++ " (" ++ formatAddress address ++ ")"

/-- Bytes shown on a line of the listing. -/
def listedBytes : Nat := 8

/-- The first bytes of an entry, and dots when there are more. -/
def formatBytes (bytes : Bytes) : String :=
  let shown := String.intercalate " " ((bytes.take listedBytes).map Bytes.hexByte)
  if listedBytes < bytes.length then shown ++ " .." else shown

/-- The lines of the listing for an entry: the first label at its address, and its address, bytes
and source. -/
def listEntry (symbols : Symbols) (entry : Entry) : String :=
  let label := match symbols.labels.find? (·.address == entry.address) with
    | some label => label.name ++ ":\n"
    | none => ""
  let bytes := formatBytes entry.bytes
  let padding := String.ofList (List.replicate (26 - bytes.length) ' ')
  let source := String.ofList (Text.trim (symbols.sourceLine entry.token))
  label ++ Bytes.hexNat 6 entry.address ++ "  " ++ bytes ++ padding ++ "  " ++ source ++ "\n"

/-- A line for every entry. -/
def listing (symbols : Symbols) : String := String.join (symbols.entries.map symbols.listEntry)

end Symbols

end VectorStack
