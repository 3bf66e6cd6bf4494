import VectorStack.Assembly.Expansion
import VectorStack.Assembly.Symbols
/-!
Assembling text: it is cut into tokens, its macros are expanded, and its statements are placed and
written. Nothing reaches memory when any of this fails.
-/

namespace VectorStack

namespace Assembly

/-- The statements of a text, with the store that their tokens are in. -/
def parse (config : AssemblyConfig) (importer : Importer) (name : String) (text : List Char) :
    Except AssemblyError (List Statement × TokenStore) := do
  let (tokens, store) := TokenStore.empty.load name text
  let (expanded, store) ← Expansion.expand config importer store tokens
  let statements ← store.statements expanded
  .ok (statements, store)

/-- The program that a text assembles to, and what is known about it. -/
def build (config : AssemblyConfig) (importer : Importer) (name : String) (text : List Char) :
    Except AssemblyError (Program × Symbols) := do
  let (statements, store) ← parse config importer name text
  let image ← Image.ofStatements store config statements
  .ok (image.program, Symbols.new store image.labels image.entries)

/-- Assemble a text into memory. -/
def assemble (config : AssemblyConfig) (importer : Importer) (name : String) (text : List Char)
    (memory : Memory) : Except AssemblyError (Symbols × Memory) := do
  let (program, symbols) ← build config importer name text
  .ok (symbols, program.load memory)

end Assembly

end VectorStack
