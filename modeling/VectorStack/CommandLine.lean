import VectorStack.Assembly
import VectorStack.CommandLine.Arguments
import VectorStack.Files.Search
import VectorStack.Machine
/-!
A whole run from its arguments: a source is read and assembled, the machine runs, and what was asked
for is printed. Nothing is printed when the source does not assemble.
-/

namespace VectorStack

/-- Why a run prints nothing. -/
inductive RunFault where
  | unreadable (path : String) (fault : FileFault)
  | assembly (error : AssemblyError)
deriving DecidableEq, Repr

namespace RunFault

def message : RunFault → String
  | unreadable path fault => "cant open " ++ path ++ ": " ++ fault.message
  | assembly error => error.message

end RunFault

namespace Symbols

/-- A line for every label. -/
def labelLines (symbols : Symbols) : String :=
  String.join (symbols.labels.map fun label =>
    Bytes.hexNat 6 label.address ++ " " ++ label.name ++ "\n")

end Symbols

namespace Arguments

/-- What a run prints: labels and listing where they are asked for, the lines that the program
prints, and dumps of memory. -/
def report (arguments : Arguments) (symbols : Symbols) (machine : Machine) : String :=
  let (_, stopped) := machine.run arguments.steps
  let (lines, stopped) := stopped.takeOutput
  (if arguments.has .symbols then symbols.labelLines else "") ++
    (if arguments.has .listing then symbols.listing else "") ++
    String.join (lines.toList.map (· ++ "\n")) ++
    String.join (arguments.dumps.map fun range => range.format stopped.memory)

/-- What a run over files prints. -/
def run (arguments : Arguments) (reader : FileReader) (generator : Generator) :
    Except RunFault String := do
  let path := arguments.source
  let text ← (reader path).mapError (.unreadable path)
  let importer := Files.importer reader arguments.searchPaths
  let machine := Machine.new ⟨0, 0, 0⟩ generator
  let (symbols, memory) ←
    (Assembly.assemble arguments.config importer path text machine.memory).mapError .assembly
  .ok (arguments.report symbols { machine with memory })

end Arguments

end VectorStack
