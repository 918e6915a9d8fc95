import ClassForge.Outline

/-!
Faults of a class file: what is wrong, and at which byte.
-/

namespace ClassForge

inductive FaultKind where
  | badMagic (found : UInt32)
  | unknownConstantTag (tag : UInt8)
  | unknownHandleKind (kind : UInt8)
  | unknownVerificationTag (tag : UInt8)
  | unknownFrameType (tag : UInt8)
  /-- The input ends inside the field of this name. -/
  | unexpectedEof (field : String)
  | trailingBytes (count : Nat)
  | invalidModifiedUtf8
  /-- The entries of a constant pool step over the declared count. -/
  | constantPoolCountMismatch (declared : UInt16) (actual : Nat)
  | attributeLengthMismatch (declared consumed : Nat)
  deriving DecidableEq, Repr

structure Fault where
  offset : Nat
  kind : FaultKind
  deriving DecidableEq, Repr

namespace FaultKind

def message : FaultKind → String
  | badMagic found => "bad magic header 0x" ++ Text.hexPadded 8 found.toNat
  | unknownConstantTag tag => s!"unknown constant tag {tag}"
  | unknownHandleKind kind => s!"unknown handle kind {kind}"
  | unknownVerificationTag tag => s!"unknown verification type tag {tag}"
  | unknownFrameType tag => s!"unknown frame type {tag}"
  | unexpectedEof field => s!"input ends inside {field}"
  | trailingBytes count => s!"{count} unread trailing bytes"
  | invalidModifiedUtf8 => "invalid modified UTF-8"
  | constantPoolCountMismatch declared actual =>
    s!"constant pool count {declared} does not line up with entries (reached {actual})"
  | attributeLengthMismatch declared consumed =>
    s!"attribute declares {declared} bytes but its body is {consumed} bytes"

def outline : FaultKind → Outline
  | badMagic found => .tuple "BadMagic" [.num found.toNat]
  | unknownConstantTag tag => .tuple "UnknownConstantTag" [.num tag.toNat]
  | unknownHandleKind kind => .tuple "UnknownHandleKind" [.num kind.toNat]
  | unknownVerificationTag tag => .tuple "UnknownVerificationTag" [.num tag.toNat]
  | unknownFrameType tag => .tuple "UnknownFrameType" [.num tag.toNat]
  | unexpectedEof field => .record "UnexpectedEof" [.field "field" (.text field)]
  | trailingBytes count => .tuple "TrailingBytes" [.num count]
  | invalidModifiedUtf8 => .atom "InvalidModifiedUtf8"
  | constantPoolCountMismatch declared actual =>
    .record "ConstantPoolCountMismatch"
      [.field "declared" (.num declared.toNat), .field "actual" (.num actual)]
  | attributeLengthMismatch declared consumed =>
    .record "AttributeLengthMismatch"
      [.field "declared" (.num declared), .field "consumed" (.num consumed)]

end FaultKind

def Fault.message (f : Fault) : String := s!"at byte {f.offset}: " ++ f.kind.message

def Fault.outline (f : Fault) : Outline :=
  .record "ParseError" [.field "offset" (.num f.offset), .field "kind" f.kind.outline]

end ClassForge
