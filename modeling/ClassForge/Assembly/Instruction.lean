import ClassForge.Assembly.Operation

/-!
The instructions that blocks are made of, and their bytes.
-/

namespace ClassForge

/-- What an instruction does with a field. -/
inductive FieldAccess where
  | getStatic
  | putStatic
  | getField
  | putField
  /-- Copies an instance of a value class with one field replaced. -/
  | withField
  deriving DecidableEq, Repr

namespace FieldAccess

def all : List FieldAccess := [getStatic, putStatic, getField, putField, withField]

def opcode : FieldAccess → UInt8
  | getStatic => 0xb2
  | putStatic => 0xb3
  | getField => 0xb4
  | putField => 0xb5
  | withField => 0xcc

def mnemonic : FieldAccess → String
  | getStatic => "getstatic"
  | putStatic => "putstatic"
  | getField => "getfield"
  | putField => "putfield"
  | withField => "withfield"

/-- What an access to a field pops and pushes, given the types of its owner and of the field. -/
def effect (owner type : VType) : FieldAccess → List VType × List VType
  | getStatic => ([], [type])
  | putStatic => ([type], [])
  | getField => ([owner], [type])
  | putField => ([type, owner], [])
  | withField => ([type, owner], [owner])

end FieldAccess

inductive Instruction where
  /-- Pushes `n - 1`. -/
  | iconst (n : Fin 7)
  | bipush (value : Int8)
  | sipush (value : Int16)
  | ldc (index : UInt8)
  | ldcWide (index : UInt16)
  | load (bank : Bank) (slot : UInt16)
  | store (bank : Bank) (slot : UInt16)
  | field (access : FieldAccess) (index : Index .fieldRef)
  | invokeStatic (index : Index .methodRef)
  /-- Pushes the instance of a value class with all fields zero. -/
  | defaultValue (index : Index .classInfo)
  | arithmetic (op : Arithmetic) (kind : NumericKind)
  | negate (kind : NumericKind)
  | pop
  | pop2
  | dup
  | dup2
  deriving DecidableEq, Repr

namespace Instruction

/-- A move of a local: slots 0 to 3 have opcodes of their own, those up to 255 a one-byte operand,
and all others the `wide` form. -/
def encodeMove (opcode shortOpcode : Nat) (slot : UInt16) : List UInt8 :=
  if slot.toNat ≤ 3 then [UInt8.ofNat (shortOpcode + slot.toNat)]
  else if slot.toNat ≤ 255 then [UInt8.ofNat opcode, UInt8.ofNat slot.toNat]
  else [0xc4, UInt8.ofNat opcode] ++ Bytes.u16 slot

def encode : Instruction → List UInt8
  | iconst n => [UInt8.ofNat (0x02 + n.val)]
  | bipush v => [0x10, v.toUInt8]
  | sipush v => 0x11 :: Bytes.u16 v.toUInt16
  | ldc i => [0x12, i]
  | ldcWide i => 0x13 :: Bytes.u16 i
  | load bank slot => encodeMove (0x15 + bank.rank) (0x1a + 4 * bank.rank) slot
  | store bank slot => encodeMove (0x36 + bank.rank) (0x3b + 4 * bank.rank) slot
  | field access i => access.opcode :: Bytes.u16 i.val
  | invokeStatic i => 0xb8 :: Bytes.u16 i.val
  | defaultValue i => 0xcb :: Bytes.u16 i.val
  | arithmetic op kind => [op.opcode kind]
  | negate kind => [kind.negateOpcode]
  | pop => [0x57]
  | pop2 => [0x58]
  | dup => [0x59]
  | dup2 => [0x5c]

end Instruction

end ClassForge
