import ClassForge.Verification.VType

/-!
Operations on the operand stack and the opcodes of their families. A family has one opcode for each
kind of number, in the order of `NumericKind`.
-/

namespace ClassForge

namespace NumericKind

/-- Where the kind stands in a family of opcodes. -/
def rank : NumericKind → Nat
  | int => 0
  | long => 1
  | float => 2
  | double => 3

def letter : NumericKind → String
  | int => "i"
  | long => "l"
  | float => "f"
  | double => "d"

def negateOpcode (k : NumericKind) : UInt8 := UInt8.ofNat (0x74 + k.rank)

def negateMnemonic (k : NumericKind) : String := k.letter ++ "neg"

end NumericKind

/-- Operations on two numbers. -/
inductive Arithmetic where
  | add
  | sub
  | mul
  | div
  | rem
  | shl
  | shr
  | ushr
  | and
  | or
  | xor
  deriving DecidableEq, Repr

namespace Arithmetic

def all : List Arithmetic := [add, sub, mul, div, rem, shl, shr, ushr, and, or, xor]

def name : Arithmetic → String
  | add => "Add"
  | sub => "Sub"
  | mul => "Mul"
  | div => "Div"
  | rem => "Rem"
  | shl => "Shl"
  | shr => "Shr"
  | ushr => "UShr"
  | and => "And"
  | or => "Or"
  | xor => "Xor"

def isShift : Arithmetic → Bool
  | shl | shr | ushr => true
  | _ => false

def isBitwise : Arithmetic → Bool
  | shl | shr | ushr | and | or | xor => true
  | _ => false

/-- Bitwise operations exist for integral kinds only. -/
def isDefinedOn (op : Arithmetic) (k : NumericKind) : Bool := !op.isBitwise || k.isIntegral

/-- The opcode for the kind `int`. -/
def intOpcode : Arithmetic → Nat
  | add => 0x60
  | sub => 0x64
  | mul => 0x68
  | div => 0x6c
  | rem => 0x70
  | shl => 0x78
  | shr => 0x7a
  | ushr => 0x7c
  | and => 0x7e
  | or => 0x80
  | xor => 0x82

/-- Meaningful where the operation is defined. -/
def opcode (op : Arithmetic) (k : NumericKind) : UInt8 := UInt8.ofNat (op.intOpcode + k.rank)

def opcode? (op : Arithmetic) (k : NumericKind) : Option UInt8 :=
  if op.isDefinedOn k then some (op.opcode k) else none

def mnemonic (op : Arithmetic) (k : NumericKind) : String :=
  k.letter ++
    (match op with
      | add => "add"
      | sub => "sub"
      | mul => "mul"
      | div => "div"
      | rem => "rem"
      | shl => "shl"
      | shr => "shr"
      | ushr => "ushr"
      | and => "and"
      | or => "or"
      | xor => "xor")

/-- The operand on top of the stack: the distance of a shift is always an `int`. -/
def topOperand (op : Arithmetic) (k : NumericKind) : VType :=
  if op.isShift then .integer else k.type

end Arithmetic

/-- Signed comparisons of the two `int`s on top of the stack. -/
inductive Condition where
  | eq
  | ne
  | lt
  | ge
  | gt
  | le
  deriving DecidableEq, Repr

namespace Condition

def all : List Condition := [eq, ne, lt, ge, gt, le]

def name : Condition → String
  | eq => "Eq"
  | ne => "Ne"
  | lt => "Lt"
  | ge => "Ge"
  | gt => "Gt"
  | le => "Le"

/-- The comparison that jumps when the condition fails; only `le` can be emitted. -/
def negatedOpcode? : Condition → Option UInt8
  | le => some 0xa3
  | _ => none

def negatedMnemonic : Condition → String
  | eq => "if_icmpne"
  | ne => "if_icmpeq"
  | lt => "if_icmpge"
  | ge => "if_icmplt"
  | gt => "if_icmple"
  | le => "if_icmpgt"

end Condition

/-- The families of instructions that move locals. -/
inductive Bank where
  | int
  | long
  | float
  | double
  | reference
  deriving DecidableEq, Repr

namespace Bank

/-- The family for locals of a type; unusable slots have none. -/
def ofType? : VType → Option Bank
  | .integer => some int
  | .long => some long
  | .float => some float
  | .double => some double
  | .null | .uninitializedThis | .object _ | .uninitialized _ => some reference
  | .top => none

def rank : Bank → Nat
  | int => 0
  | long => 1
  | float => 2
  | double => 3
  | reference => 4

def letter : Bank → String
  | int => "i"
  | long => "l"
  | float => "f"
  | double => "d"
  | reference => "a"

def loadMnemonic (b : Bank) : String := b.letter ++ "load"

def storeMnemonic (b : Bank) : String := b.letter ++ "store"

end Bank

/-- The instruction that returns a value of a type. -/
def VType.returnOpcode? : VType → Option UInt8
  | .integer => some 0xac
  | .long => some 0xad
  | .float => some 0xae
  | .double => some 0xaf
  | .null | .object _ => some 0xb0
  | .top | .uninitializedThis | .uninitialized _ => none

end ClassForge
