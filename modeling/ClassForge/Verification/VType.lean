import ClassForge.Constant.Format

/-!
Verification types: what is known of a value on the operand stack or in a local variable.
-/

namespace ClassForge

inductive VType where
  /-- A slot that cannot be used. -/
  | top
  | integer
  | float
  | double
  | long
  | null
  /-- The receiver of a constructor before it is initialised. -/
  | uninitializedThis
  | object (name : Index .classInfo)
  /-- A new object before it is initialised, by the offset of the instruction that made it. -/
  | uninitialized (offset : UInt16)
  deriving DecidableEq, Repr

namespace VType

instance : Inhabited VType := ⟨top⟩

def isReference : VType → Bool
  | null | uninitializedThis | object _ | uninitialized _ => true
  | _ => false

def width : VType → Nat
  | double | long => 2
  | _ => 1

theorem width_pos (t : VType) : 0 < t.width := by
  cases t <;> simp [width]

instance : Wide VType := ⟨width⟩

/-- No class hierarchy is known, so an object goes only where its own class is expected. -/
def assignable : VType → VType → Bool
  | _, top => true
  | null, object _ => true
  | found, expected => found = expected

def tag : VType → UInt8
  | top => 0
  | integer => 1
  | float => 2
  | double => 3
  | long => 4
  | null => 5
  | uninitializedThis => 6
  | object _ => 7
  | uninitialized _ => 8

def writeBody : VType → List UInt8
  | object name => name.write
  | uninitialized offset => Bytes.u16 offset
  | _ => []

def write (t : VType) : List UInt8 := Bytes.u8 t.tag ++ t.writeBody

/-- The type of a tag that was read at `offset`. -/
def readBody (offset : Nat) (tag : UInt8) : Reader VType :=
  match tag.toNat with
  | 0 => return top
  | 1 => return integer
  | 2 => return float
  | 3 => return double
  | 4 => return long
  | 5 => return null
  | 6 => return uninitializedThis
  | 7 => do return object (← Index.read)
  | 8 => do return uninitialized (← Reader.u16 "uninitialized offset")
  | _ => Reader.failAt offset (.unknownVerificationTag tag)

def read : Reader VType := do
  let offset ← Reader.position
  let tag ← Reader.u8 "verification type tag"
  readBody offset tag

def outline : VType → Outline
  | top => .atom "Top"
  | integer => .atom "Integer"
  | float => .atom "Float"
  | double => .atom "Double"
  | long => .atom "Long"
  | null => .atom "Null"
  | uninitializedThis => .atom "UninitializedThis"
  | object name => .tuple "Object" [name.outline]
  | uninitialized offset => .tuple "Uninitialized" [.num offset.toNat]

def text (t : VType) : String := t.outline.line

end VType

/-- The kinds of numbers that instructions compute with. -/
inductive NumericKind where
  | int
  | long
  | float
  | double
  deriving DecidableEq, Repr

namespace NumericKind

def all : List NumericKind := [int, long, float, double]

def name : NumericKind → String
  | int => "Int"
  | long => "Long"
  | float => "Float"
  | double => "Double"

def type : NumericKind → VType
  | int => .integer
  | long => .long
  | float => .float
  | double => .double

def isIntegral : NumericKind → Bool
  | int | long => true
  | float | double => false

end NumericKind

end ClassForge
