import VectorStack.Address
import VectorStack.Token.Store
import VectorStack.Bytes
/-!
Every way in which assembling a program can fail, with the place that is to blame and the message.
-/

namespace VectorStack

/-- What went wrong. -/
inductive AssemblyFault where
  | invalidToken (text : String)
  | expansion (message : String)
  | grammar (message : String)
  | evaluation (message : String)
  | unknownLabel (name : String)
  | duplicateLabel (name : String)
  /-- A label has another address when bytes are written than when it was placed. -/
  | labelMoved (name : String) (first second : Nat)
  | missingPoolLabel (label : String)
  | missingType (opcode : String) (slot : Nat)
  | poolOverlap (address : Nat)
  | importFailed (name : String)
deriving DecidableEq, Repr

/-- What went wrong, and where. -/
structure AssemblyError where
  fault : AssemblyFault
  trace : Trace
deriving DecidableEq, Repr

/-- What was read from the front of a token list, and the tokens left. -/
abbrev WithRest (α : Type) := α × List TokenId

/-- What was read from the front of a token list, and how many tokens that took. -/
abbrev WithCount (α : Type) := α × Nat

namespace AssemblyFault

/-- A number in hexadecimal behind `0x`. -/
def hex (n : Nat) : String := "0x" ++ Bytes.hexNat 1 n

def message : AssemblyFault → String
  | invalidToken text => "invalid token `" ++ text ++ "`"
  | expansion message => message
  | grammar message => "syntax error: " ++ message
  | evaluation message => "cannot evaluate expression: " ++ message
  | unknownLabel name => "unknown label `" ++ name ++ "`"
  | duplicateLabel name => "label `" ++ name ++ "` is already defined"
  | labelMoved name first second =>
    "label `" ++ name ++ "` moved from " ++ hex first ++ " to " ++ hex second ++ " between passes"
  | missingPoolLabel label => "constant pool label `" ++ label ++ "` is not defined"
  | missingType opcode slot => "operand " ++ Nat.repr slot ++ " of `" ++ opcode ++ "` has no type"
  | poolOverlap address => "constant pool at " ++ hex address ++ " overlaps emitted data"
  | importFailed name => "cannot import `" ++ name ++ "`"

end AssemblyFault

namespace AssemblyError

/-- The message, behind the place. -/
def message (error : AssemblyError) : String := error.trace.format ++ ": " ++ error.fault.message

end AssemblyError

namespace TokenStore

/-- A fault at a token. -/
def faultAt (store : TokenStore) (id : TokenId) (fault : AssemblyFault) : AssemblyError :=
  ⟨fault, store.trace id⟩

end TokenStore

end VectorStack
