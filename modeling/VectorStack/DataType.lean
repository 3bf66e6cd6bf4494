/-!
The data types of an operand's lanes: how many bytes a lane takes in memory, and in which numeric
mode its bits are read. The main statement is that a type is recovered from its tag and its name.
-/

namespace VectorStack

/-- How arithmetic reads a 64-bit cell. -/
inductive Mode where
  | unsigned
  | signed
  | float
deriving DecidableEq, Repr

/-- The type of every lane of one operand. -/
inductive DataType where
  | u8 | u16 | u32 | u64
  | i8 | i16 | i32 | i64
  | f32 | f64
  /-- A packed three-byte address. -/
  | p24
  /-- What every tag without a meaning stands for; no instruction runs with it. -/
  | unsupported
deriving DecidableEq, Repr, Inhabited

namespace DataType

/-- Every type, in the order of the tags. -/
def all : List DataType := [u8, u16, u32, u64, i8, i16, i32, i64, f32, f64, p24, unsupported]

/-- The number that stands for the type in an instruction word. -/
def tag : DataType → Nat
  | u8 => 0 | u16 => 1 | u32 => 2 | u64 => 3
  | i8 => 4 | i16 => 5 | i32 => 6 | i64 => 7
  | f32 => 8 | f64 => 9 | p24 => 10 | unsupported => 15

/-- The type with a given tag. -/
def ofTag? (n : Nat) : Option DataType := all.find? fun type => type.tag == n

/-- The type a four-bit field stands for; numbers that name no type are `unsupported`. -/
def ofTag (n : Nat) : DataType := (ofTag? n).getD unsupported

def name : DataType → String
  | u8 => "u8" | u16 => "u16" | u32 => "u32" | u64 => "u64"
  | i8 => "i8" | i16 => "i16" | i32 => "i32" | i64 => "i64"
  | f32 => "f32" | f64 => "f64" | p24 => "p24" | unsupported => "unsupported"

/-- The type with a given name, `unsupported` included. -/
def ofName? (s : String) : Option DataType := all.find? fun type => type.name == s

/-- The type that a program may write by this name. -/
def parse? (s : String) : Option DataType := (ofName? s).filter (· != unsupported)

/-- Bytes that one lane takes in memory. -/
def size : DataType → Nat
  | u8 | i8 => 1
  | u16 | i16 => 2
  | u32 | i32 | f32 => 4
  | u64 | i64 | f64 => 8
  | p24 => 3
  | unsupported => 0

def mode : DataType → Mode
  | i8 | i16 | i32 | i64 => .signed
  | f32 | f64 => .float
  | _ => .unsigned

def isSupported (type : DataType) : Bool := type != unsupported

theorem ofTag?_tag (type : DataType) : ofTag? type.tag = some type := by
  cases type <;> decide

theorem ofTag_tag (type : DataType) : ofTag type.tag = type := by
  cases type <;> decide

theorem tag_lt (type : DataType) : type.tag < 16 := by
  cases type <;> decide

theorem size_le (type : DataType) : type.size ≤ 8 := by
  cases type <;> decide

theorem size_pos {type : DataType} (hsupported : type.isSupported = true) : 0 < type.size := by
  cases type <;> simp_all [isSupported, size]

end DataType

end VectorStack
