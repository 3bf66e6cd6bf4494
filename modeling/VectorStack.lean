import VectorStack.Main
import VectorStack.Proofs.Layout.Steady
import VectorStack.Proofs.ConstantPool.Placement
import VectorStack.Proofs.Program.Assembled
import VectorStack.Proofs.Program.Arithmetic
import VectorStack.Proofs.Machine.Emitted
import VectorStack.Proofs.Machine.Interchange
import VectorStack.Proofs.Machine.Reachable
import VectorStack.Proofs.Expansion.Termination
import VectorStack.Proofs.Arithmetic.Lanes
import VectorStack.Proofs.Safety.Step
import VectorStack.Proofs.Memory.ByteCells
import VectorStack.Proofs.Instruction.Codec
import VectorStack.Proofs.Expansion.Idempotence
import VectorStack.Proofs.Machine.Halting
import VectorStack.Proofs.Program.Lookup
import VectorStack.Proofs.Program.Printing
import VectorStack.Proofs.Program.Provenance
import VectorStack.Proofs.Expression.Grammar
import VectorStack.Proofs.Machine.PooledReads
import VectorStack.Proofs.Token.Lossless
import VectorStack.Proofs.Token.Alone
import VectorStack.Proofs.Token.Quotation
import VectorStack.Proofs.Token.NumberLexeme
import VectorStack.Proofs.Machine.Copies
import VectorStack.Proofs.Machine.JumpTable
import VectorStack.Proofs.Program.Regions
import VectorStack.Proofs.Program.QualifiedNames
import VectorStack.Proofs.Statement.OnePass
import VectorStack.Proofs.Statement.LineLocal
import VectorStack.Proofs.Statement.Lines
import VectorStack.Proofs.Machine.Malformed
import VectorStack.Proofs.Arithmetic.Branches
import VectorStack.Proofs.Expansion.Invocation
import VectorStack.Proofs.Expansion.Conditionals
import VectorStack.Proofs.Program.Coalescing
import VectorStack.Proofs.Program.LabelQueries
import VectorStack.Proofs.Program.Sums
import VectorStack.Proofs.Lane.SignExtension
import VectorStack.Proofs.Token.References
import VectorStack.Proofs.Token.Positions
