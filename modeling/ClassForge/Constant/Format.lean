import ClassForge.Bytes.Reader
import ClassForge.Constant.Basic

/-!
Constants and constant pools as bytes.
-/

namespace ClassForge

namespace Index

variable {kind : IndexKind}

def write (i : Index kind) : List UInt8 := Bytes.u16 i.val

def read : Reader (Index kind) := do return ⟨← Reader.u16 "constant index"⟩

end Index

namespace HandleKind

def write (k : HandleKind) : List UInt8 := Bytes.u8 k.number

def read : Reader HandleKind := do
  let offset ← Reader.position
  let n ← Reader.u8 "method handle kind"
  match ofNumber? n with
  | some k => return k
  | none => Reader.failAt offset (.unknownHandleKind n)

end HandleKind

namespace Constant

/-- Text behind its length, of which a field of 16 bits keeps the low part. -/
def writeText (bytes : List UInt8) : List UInt8 := Bytes.bigEndian 2 bytes.length ++ bytes

def writeBody : Constant → List UInt8
  | utf8 text => writeText (Text.ModifiedUtf8.encode text)
  | utf16 units => writeText (Text.ModifiedUtf8.encodeUnits units)
  | integer value => Bytes.u32 value.toUInt32
  | float bits => Bytes.u32 bits
  | long value => Bytes.u64 value.toUInt64
  | double bits => Bytes.u64 bits
  | classInfo i | string i | methodType i | moduleInfo i | packageInfo i => i.write
  | fieldRef owner member | methodRef owner member _ => owner.write ++ member.write
  | nameAndType name descriptor => name.write ++ descriptor.write
  | methodHandle kind member => kind.write ++ member.write
  | dynamic bootstrap member | invokeDynamic bootstrap member =>
    Bytes.u16 bootstrap ++ member.write

def write (c : Constant) : List UInt8 := Bytes.u8 c.tag ++ c.writeBody

def readText : Reader Constant := do
  let length ← Reader.u16 "utf8 length"
  let offset ← Reader.position
  let bytes ← Reader.bytes "utf8 bytes" length.toNat
  match Text.ModifiedUtf8.decodeUnits bytes with
  | some units => return ofUnits units
  | none => Reader.failAt offset .invalidModifiedUtf8

/-- The constant of a tag that was read at `offset`. -/
def readBody (offset : Nat) (tag : UInt8) : Reader Constant :=
  match tag.toNat with
  | 1 => readText
  | 3 => do return integer (← Reader.u32 "integer constant").toInt32
  | 4 => do return float (← Reader.u32 "float constant")
  | 5 => do return long (← Reader.u64 "long constant").toInt64
  | 6 => do return double (← Reader.u64 "double constant")
  | 7 => do return classInfo (← Index.read)
  | 8 => do return string (← Index.read)
  | 9 => do return fieldRef (← Index.read) (← Index.read)
  | 10 => do return methodRef (← Index.read) (← Index.read) false
  | 11 => do return methodRef (← Index.read) (← Index.read) true
  | 12 => do return nameAndType (← Index.read) (← Index.read)
  | 15 => do return methodHandle (← HandleKind.read) (← Index.read)
  | 16 => do return methodType (← Index.read)
  | 17 => do return dynamic (← Reader.u16 "bootstrap method index") (← Index.read)
  | 18 => do return invokeDynamic (← Reader.u16 "bootstrap method index") (← Index.read)
  | 19 => do return moduleInfo (← Index.read)
  | 20 => do return packageInfo (← Index.read)
  | _ => Reader.failAt offset (.unknownConstantTag tag)

def read : Reader Constant := do
  let offset ← Reader.position
  let tag ← Reader.u8 "constant tag"
  readBody offset tag

end Constant

namespace Constants

/-- The count is the next free index, so it includes the unusable entry after each wide one. -/
def write (cs : Constants) : List UInt8 :=
  Bytes.bigEndian 2 cs.stop ++ cs.elements.flatMap Constant.write

/-- Reads constants until they fill `count` entries; the last may step over the end. -/
def readUntil (count : Nat) (cs : Constants) (cursor : Cursor) :
    Except Fault (Constants × Cursor) :=
  if cs.stop < count then
    match Constant.read cursor with
    | .error e => .error e
    | .ok (c, cursor) => readUntil count (cs.push c).2 cursor
  else .ok (cs, cursor)
termination_by count - cs.stop
decreasing_by
  have := c.width_pos
  simp only [Slots.push, Wide.width]
  omega

def read : Reader Constants := do
  let offset ← Reader.position
  let count ← Reader.u16 "constant pool count"
  let cs ← readUntil count.toNat empty
  if cs.stop = count.toNat then return cs
  else Reader.failAt offset (.constantPoolCountMismatch count cs.stop)

end Constants

end ClassForge
