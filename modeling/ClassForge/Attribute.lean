import ClassForge.StackMap

/-!
Attributes of classes, members and code. A body is kept as bytes, so that attributes of unknown kinds
survive; the bodies of known kinds can be decoded.
-/

namespace ClassForge

structure Attribute where
  name : Index .utf8
  info : List UInt8
  deriving DecidableEq, Repr

/-- A kind of attribute with a structured body. -/
structure BodyFormat (α : Type) where
  name : String
  read : Reader α
  write : α → Except StackMapError (List UInt8)

namespace Attribute

def write (a : Attribute) : List UInt8 := a.name.write ++ Bytes.sized a.info

def read : Reader Attribute := do
  let name ← Index.read
  let length ← Reader.u32 "attribute length"
  let info ← Reader.bytes "attribute info" length.toNat
  return ⟨name, info⟩

def outline (a : Attribute) : Outline :=
  .record "Attribute"
    [.field "name_index" a.name.outline,
     .field "info" (.list (a.info.map fun b => .num b.toNat))]

def nameIn (a : Attribute) (cs : Constants) : Option String := cs.utf8? a.name

/-- Decodes the body, which must be used up. -/
def decode {α : Type} (format : BodyFormat α) (a : Attribute) : Except Fault α :=
  match format.read (Cursor.atStart a.info) with
  | .error e => .error e
  | .ok (v, c) =>
    if c.rest.isEmpty then .ok v
    else .error ⟨c.position, .attributeLengthMismatch a.info.length c.position⟩

/-- Decodes the body if the attribute has the name of the format. -/
def decodeIf {α : Type} (format : BodyFormat α) (cs : Constants) (a : Attribute) :
    Option (Except Fault α) :=
  if a.nameIn cs = some format.name then some (a.decode format) else none

end Attribute

def StackMapTable.format : BodyFormat StackMapTable :=
  ⟨"StackMapTable", StackMapTable.read, StackMapTable.write⟩

structure ExceptionHandler where
  /-- The first instruction of the guarded range. -/
  start : UInt16
  /-- The end of the range, which it does not include. -/
  stop : UInt16
  handler : UInt16
  /-- Zero catches everything. -/
  catchType : Index .classInfo
  deriving DecidableEq, Repr

namespace ExceptionHandler

def write (h : ExceptionHandler) : List UInt8 :=
  Bytes.u16 h.start ++ Bytes.u16 h.stop ++ Bytes.u16 h.handler ++ h.catchType.write

def read : Reader ExceptionHandler := do
  let start ← Reader.u16 "start pc"
  let stop ← Reader.u16 "end pc"
  let handler ← Reader.u16 "handler pc"
  let catchType ← Index.read
  return ⟨start, stop, handler, catchType⟩

end ExceptionHandler

/-- The body of a method. -/
structure Code where
  maxStack : UInt16
  maxLocals : UInt16
  bytecode : List UInt8
  handlers : List ExceptionHandler
  attributes : List Attribute
  deriving DecidableEq, Repr

namespace Code

/-- Instructions behind their length in bytes. -/
def readBytecode : Reader (List UInt8) := do
  let length ← Reader.u32 "code length"
  Reader.bytes "code" length.toNat

def write (c : Code) : List UInt8 :=
  Bytes.u16 c.maxStack ++ Bytes.u16 c.maxLocals ++ Bytes.sized c.bytecode ++
    Bytes.counted ExceptionHandler.write c.handlers ++ Bytes.counted Attribute.write c.attributes

def read : Reader Code := do
  let maxStack ← Reader.u16 "max stack"
  let maxLocals ← Reader.u16 "max locals"
  let bytecode ← readBytecode
  let handlers ← Reader.counted ExceptionHandler.read
  let attributes ← Reader.counted Attribute.read
  return ⟨maxStack, maxLocals, bytecode, handlers, attributes⟩

def format : BodyFormat Code := ⟨"Code", read, fun c => .ok c.write⟩

end Code

end ClassForge
