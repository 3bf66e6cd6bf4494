import VectorStack.CommandLine
/-!
The program: files are read when an import asks for them, and what a run prints goes to standard
output. Faults go to standard error.
-/

namespace VectorStack.Main

/-- Files that have been asked for, with what reading them answered. -/
abbrev Known := List (String × Except FileFault (List Char))

/-- Read a file. -/
def readFile (path : String) : IO (Except FileFault (List Char)) := do
  try
    let content ← IO.FS.readBinFile path
    return match Text.decode? content.toList with
      | some text => .ok text
      | none => .error .notText
  catch
    | .noFileOrDirectory .. => return .error .notFound
    | .inappropriateType .. => return .error .isDirectory
    | _ => return .error .notFound

/-- Read the files among some paths that have not been asked for. -/
def learn (known : Known) (paths : List String) : IO Known :=
  paths.foldlM (fun known path => do
    if (known.lookup path).isSome then return known
    return (path, ← readFile path) :: known) known

/-- Answers the files that have been asked for; a path not yet asked for ends a search. -/
def reader (known : Known) : FileReader := fun path =>
  (known.lookup path).getD (.error .notText)

/-- The paths at which a failed run has looked for an import. -/
def wanted (arguments : Arguments) : RunFault → List String
  | .assembly ⟨.importFailed name, place :: _⟩ =>
    Files.candidates arguments.searchPaths name place.source
  | _ => []

/-- Run, reading the files of an import that fails and starting again, until nothing new is read. -/
partial def runOn (arguments : Arguments) (generator : Generator) (known : Known) :
    IO (Except RunFault String) := do
  match arguments.run (reader known) generator with
  | .ok text => return .ok text
  | .error fault =>
    let more ← learn known (wanted arguments fault)
    if more.length = known.length then return .error fault
    runOn arguments generator more

/-- A source of random numbers that starts somewhere else in every run. -/
def randomGenerator : IO Generator := do
  let seed ← IO.rand 0 (UInt64.size - 1)
  return .linear 6364136223846793005 1442695040888963407 (UInt64.ofNat seed)

/-- Run over the files of the current directory. -/
def start (arguments : Arguments) : IO UInt32 := do
  let known ← learn [] [arguments.source]
  match ← runOn arguments (← randomGenerator) known with
  | .ok text =>
    IO.print text
    return 0
  | .error fault =>
    IO.eprintln fault.message
    return 1

end VectorStack.Main

/-- Status 2 for arguments that start no run, 1 for a fault, else 0. -/
def main (texts : List String) : IO UInt32 := do
  match VectorStack.Arguments.parse texts with
  | .ok arguments => VectorStack.Main.start arguments
  | .error fault =>
    IO.eprintln fault.message
    return 2
