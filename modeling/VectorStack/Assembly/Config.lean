import VectorStack.Address
import VectorStack.DataType
/-!
What an assembly run is told from outside: the choices that change its result, and where imported
text comes from.
-/

namespace VectorStack

/-- The choices that change what a program assembles to. -/
structure AssemblyConfig where
  /-- Type of operands without one; without it such operands are faults. -/
  defaultType : Option DataType
  /-- The label that constants are placed at when a program defines it. -/
  poolLabel : String
  /-- The address below which regions are taken. -/
  regionBase : Nat
  /-- Whether the pool label has to be defined. -/
  requirePoolLabel : Bool
deriving DecidableEq, Repr

namespace AssemblyConfig

def standard : AssemblyConfig := ⟨some .i64, "__constants", Address.space, false⟩

end AssemblyConfig

/-- Finds imported text: given the name that is imported and the name of the source that imports
it, the name the text is to be known by and the text. -/
abbrev Importer := String → String → Option (String × List Char)

end VectorStack
