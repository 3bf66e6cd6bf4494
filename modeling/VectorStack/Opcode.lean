/-!
The operations of the machine, grouped by how they use their operands, with their mnemonics and
tags. The main statement is that an operation is recovered from its tag.
-/

namespace VectorStack

/-- Where the address of a load or store is counted from. -/
inductive Base where
  | absolute | frame | stack
deriving DecidableEq, Repr

/-- The two registers that a program can read and move. -/
inductive Register where
  | frame | stack
deriving DecidableEq, Repr

/-- Lane operations on one value, in the mode of the value. -/
inductive UnaryOp where
  | not | neg | abs | sign
deriving DecidableEq, Repr

/-- Lane operations on two values, in the mode of the first. -/
inductive BinaryOp where
  | and | or | xor | shl | shr
  | add | sub | mul | div | mod | pow
  | min | max
deriving DecidableEq, Repr

/-- Operations that fold all lanes of an operand into one. -/
inductive Reduction where
  | sum | prod | min | max | all | any
deriving DecidableEq, Repr

/-- Real functions, computed in floating point for every mode. -/
inductive RealFunction where
  | sqrt | exp | ln | sin | cos | tan | asin | acos | atan
  | floor | ceil | round
deriving DecidableEq, Repr

/-- What a conversion turns lanes into. -/
inductive Conversion where
  | float | signed | unsigned
deriving DecidableEq, Repr

/-- Conditions on a value compared with zero. -/
inductive ZeroTest where
  | zero | nonzero | negative | positive
deriving DecidableEq, Repr

/-- Conditions on two values. -/
inductive Relation where
  | eq | ne | lt | le | gt | ge
deriving DecidableEq, Repr

/-- An operation of the machine. -/
inductive Opcode where
  | nop
  /-- Stop for good. -/
  | halt
  | push | pop | dup
  /-- Lane `l` of the output is the lane of the first operand that lane `l` of the second names. -/
  | swizzle
  | load (base : Base)
  | store (base : Base)
  | getRegister (register : Register)
  | setRegister (register : Register)
  | moveRegister (register : Register)
  | unary (op : UnaryOp)
  | binary (op : BinaryOp)
  | reduce (op : Reduction)
  | convert (target : Conversion)
  | real (function : RealFunction)
  | atan2
  | jump
  | branchZero (test : ZeroTest)
  | branchCompare (relation : Relation)
  | switch
  | call
  /-- Put the stack pointer a distance below the frame pointer. -/
  | reserve
  | ret
  | random | sleep
  | mapDevice
  | debug
  | debugText
  /-- What every tag that names no operation stands for. -/
  | invalid
deriving DecidableEq, Repr

namespace Opcode

/-- Every operation but `invalid`, in the order of the tags. -/
def operations : List Opcode := [
  nop, halt, push, pop, dup, swizzle,
  load .absolute, store .absolute, load .frame, store .frame, load .stack, store .stack,
  getRegister .frame, setRegister .frame, moveRegister .frame,
  getRegister .stack, setRegister .stack, moveRegister .stack,
  unary .not, unary .neg, unary .abs, unary .sign,
  binary .and, binary .or, binary .xor, binary .shl, binary .shr,
  binary .add, binary .sub, binary .mul, binary .div, binary .mod, binary .pow,
  binary .min, binary .max,
  reduce .sum, reduce .prod, reduce .min, reduce .max, reduce .all, reduce .any,
  convert .float, convert .signed, convert .unsigned,
  real .sqrt, real .exp, real .ln, real .sin, real .cos, real .tan,
  real .asin, real .acos, real .atan, atan2,
  real .floor, real .ceil, real .round,
  jump,
  branchZero .zero, branchZero .nonzero, branchZero .negative, branchZero .positive,
  branchCompare .eq, branchCompare .ne, branchCompare .lt,
  branchCompare .le, branchCompare .gt, branchCompare .ge,
  switch, call, reserve, ret, random, sleep, mapDevice, debug, debugText]

/-- The tag kept for words that name no operation. -/
def invalidTag : Nat := 127

/-- The number that stands for the operation in an instruction word. -/
def tag (op : Opcode) : Nat := if op = invalid then invalidTag else operations.idxOf op

/-- The operation with a given tag. -/
def ofTag? (n : Nat) : Option Opcode :=
  if n = invalidTag then some invalid else operations.toArray[n]?

/-- The operation a seven-bit field stands for. -/
def ofTag (n : Nat) : Opcode := (ofTag? n).getD invalid

/-- The word that a program writes for the operation. -/
def mnemonic : Opcode → String
  | nop => "nop"
  | halt => "halt"
  | push => "push"
  | pop => "pop"
  | dup => "dup"
  | swizzle => "swz"
  | load .absolute => "ld"
  | load .frame => "ldf"
  | load .stack => "lds"
  | store .absolute => "st"
  | store .frame => "stf"
  | store .stack => "sts"
  | getRegister .frame => "getfp"
  | getRegister .stack => "getsp"
  | setRegister .frame => "setfp"
  | setRegister .stack => "setsp"
  | moveRegister .frame => "addfp"
  | moveRegister .stack => "addsp"
  | unary .not => "not"
  | unary .neg => "neg"
  | unary .abs => "abs"
  | unary .sign => "sign"
  | binary .and => "and"
  | binary .or => "or"
  | binary .xor => "xor"
  | binary .shl => "shl"
  | binary .shr => "shr"
  | binary .add => "add"
  | binary .sub => "sub"
  | binary .mul => "mul"
  | binary .div => "div"
  | binary .mod => "mod"
  | binary .pow => "pow"
  | binary .min => "min"
  | binary .max => "max"
  | reduce .sum => "rsum"
  | reduce .prod => "rprod"
  | reduce .min => "rmin"
  | reduce .max => "rmax"
  | reduce .all => "rall"
  | reduce .any => "rany"
  | convert .float => "tof"
  | convert .signed => "toi"
  | convert .unsigned => "tou"
  | real .sqrt => "sqrt"
  | real .exp => "exp"
  | real .ln => "ln"
  | real .sin => "sin"
  | real .cos => "cos"
  | real .tan => "tan"
  | real .asin => "asin"
  | real .acos => "acos"
  | real .atan => "atan"
  | real .floor => "floor"
  | real .ceil => "ceil"
  | real .round => "round"
  | atan2 => "atan2"
  | jump => "jump"
  | branchZero .zero => "jz"
  | branchZero .nonzero => "jnz"
  | branchZero .negative => "jneg"
  | branchZero .positive => "jpos"
  | branchCompare .eq => "jeq"
  | branchCompare .ne => "jne"
  | branchCompare .lt => "jlt"
  | branchCompare .le => "jle"
  | branchCompare .gt => "jgt"
  | branchCompare .ge => "jge"
  | switch => "switch"
  | call => "call"
  | reserve => "adjf"
  | ret => "ret"
  | random => "rand"
  | sleep => "sleep"
  | mapDevice => "devmap"
  | debug => "debug"
  | debugText => "dbgstr"
  | invalid => "invalid"

/-- The operation with a given mnemonic, `invalid` included. -/
def ofMnemonic? (s : String) : Option Opcode :=
  (operations ++ [invalid]).find? fun op => op.mnemonic == s

/-- The operation that a program may write by this word. -/
def parse? (s : String) : Option Opcode := (ofMnemonic? s).filter (· != invalid)

theorem mem_operations {op : Opcode} (hop : op ≠ invalid) : op ∈ operations := by
  cases op with
  | invalid => exact absurd rfl hop
  | load base | store base => cases base <;> decide
  | getRegister register | setRegister register | moveRegister register =>
      cases register <;> decide
  | unary op | binary op | reduce op | convert op | real op => cases op <;> decide
  | branchZero test => cases test <;> decide
  | branchCompare relation => cases relation <;> decide
  | _ => decide

theorem length_operations : operations.length = 77 := by decide

theorem tag_lt (op : Opcode) : op.tag < 128 := by
  unfold tag
  split
  · decide
  · next hop =>
      have hlt := List.idxOf_lt_length_of_mem (mem_operations hop)
      rw [length_operations] at hlt
      omega

theorem ofTag?_tag (op : Opcode) : ofTag? op.tag = some op := by
  by_cases hop : op = invalid
  · subst hop
    decide
  · have hlt := List.idxOf_lt_length_of_mem (mem_operations hop)
    have hlength := length_operations
    have hne : operations.idxOf op ≠ invalidTag := by
      unfold invalidTag
      omega
    simp [ofTag?, tag, hop, hne, List.getElem?_eq_getElem hlt, List.getElem_idxOf]

theorem ofTag_tag (op : Opcode) : ofTag op.tag = op := by
  simp [ofTag, ofTag?_tag]

end Opcode

end VectorStack
