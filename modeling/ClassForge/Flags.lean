import ClassForge.Bytes.Reader

/-!
Access flags of classes, methods and fields. Bits without a name are kept as they are.
-/

namespace ClassForge

/-- What a set of access flags belongs to; the same bit has other names in other places. -/
inductive Scope where
  | ofClass
  | ofMethod
  | ofField
  deriving DecidableEq, Repr

structure Flags (scope : Scope) where
  bits : UInt16
  deriving DecidableEq, Repr

namespace Scope

/-- The named flags, in the order in which they are shown. -/
def names : Scope → List (String × Nat)
  | ofClass =>
    [("PUBLIC", 0x0001), ("FINAL", 0x0010), ("SUPER", 0x0020), ("VALUE", 0x0100),
     ("INTERFACE", 0x0200), ("ABSTRACT", 0x0400), ("SYNTHETIC", 0x1000), ("ANNOTATION", 0x2000),
     ("ENUM", 0x4000), ("MODULE", 0x8000)]
  | ofMethod =>
    [("PUBLIC", 0x0001), ("PRIVATE", 0x0002), ("PROTECTED", 0x0004), ("STATIC", 0x0008),
     ("FINAL", 0x0010), ("SYNCHRONIZED", 0x0020), ("BRIDGE", 0x0040), ("VARARGS", 0x0080),
     ("NATIVE", 0x0100), ("ABSTRACT", 0x0400), ("STRICT", 0x0800), ("SYNTHETIC", 0x1000)]
  | ofField =>
    [("PUBLIC", 0x0001), ("PRIVATE", 0x0002), ("PROTECTED", 0x0004), ("STATIC", 0x0008),
     ("FINAL", 0x0010), ("VOLATILE", 0x0040), ("TRANSIENT", 0x0080), ("SYNTHETIC", 0x1000),
     ("ENUM", 0x4000)]

def title : Scope → String
  | ofClass => "ClassAccessFlags"
  | ofMethod => "MethodAccessFlags"
  | ofField => "FieldAccessFlags"

/-- The name of the flags as a field of the file. -/
def fieldName : Scope → String
  | ofClass => "class access flags"
  | ofMethod => "method access flags"
  | ofField => "field access flags"

end Scope

namespace Flags

variable {scope : Scope}

def hasBit (f : Flags scope) (mask : Nat) : Bool := f.bits.toNat / mask % 2 = 1

/-- The bits that no name covers. -/
def unnamed (f : Flags scope) : Nat :=
  scope.names.foldl (fun n (_, mask) => if f.hasBit mask then n - mask else n) f.bits.toNat

/-- Names of the set bits, then the other bits as one number. -/
def text (f : Flags scope) : String :=
  let named := scope.names.filterMap fun (name, mask) => if f.hasBit mask then some name else none
  let rest := if f.unnamed = 0 then [] else ["0x" ++ Text.hex f.unnamed]
  match named ++ rest with
  | [] => "0x0"
  | parts => " | ".intercalate parts

def outline (f : Flags scope) : Outline := .tuple scope.title [.atom f.text]

def write (f : Flags scope) : List UInt8 := Bytes.u16 f.bits

def read : Reader (Flags scope) := do return ⟨← Reader.u16 scope.fieldName⟩

end Flags

end ClassForge
