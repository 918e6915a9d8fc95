import ClassForge.Attribute
import ClassForge.Flags
import ClassForge.Version

/-!
Class files: members, classes and their form as bytes.
-/

namespace ClassForge

/-- A field or a method. -/
structure Member (scope : Scope) where
  flags : Flags scope
  name : Index .utf8
  descriptor : Index .utf8
  attributes : List Attribute
  deriving DecidableEq, Repr

abbrev Field := Member .ofField

abbrev Method := Member .ofMethod

namespace Member

variable {scope : Scope}

def write (m : Member scope) : List UInt8 :=
  m.flags.write ++ m.name.write ++ m.descriptor.write ++
    Bytes.counted Attribute.write m.attributes

def read : Reader (Member scope) := do
  let flags ← Flags.read
  let name ← Index.read
  let descriptor ← Index.read
  let attributes ← Reader.counted Attribute.read
  return ⟨flags, name, descriptor, attributes⟩

def outline (title : String) (m : Member scope) : Outline :=
  .record title
    [.field "access_flags" m.flags.outline, .field "name_index" m.name.outline,
     .field "descriptor_index" m.descriptor.outline,
     .field "attributes" (.list (m.attributes.map Attribute.outline))]

end Member

/-- The first body that the method's attributes hold. -/
def Method.code? (m : Method) (cs : Constants) : Option (Except Fault Code) :=
  m.attributes.findSome? (Attribute.decodeIf Code.format cs)

structure ClassFile where
  version : Version
  constants : Constants
  flags : Flags .ofClass
  thisClass : Index .classInfo
  superClass : Index .classInfo
  interfaces : List (Index .classInfo)
  fields : List Field
  methods : List Method
  attributes : List Attribute
  deriving DecidableEq, Repr

namespace ClassFile

/-- The number that every class file starts with. -/
def magic : UInt32 := 0xCAFEBABE

def write (c : ClassFile) : List UInt8 :=
  Bytes.u32 magic ++ c.version.write ++ c.constants.write ++ c.flags.write ++
    c.thisClass.write ++ c.superClass.write ++ Bytes.counted Index.write c.interfaces ++
    Bytes.counted Member.write c.fields ++ Bytes.counted Member.write c.methods ++
    Bytes.counted Attribute.write c.attributes

def readMagic : Reader Unit := do
  let found ← Reader.u32 "magic"
  if found = magic then return () else Reader.failAt 0 (.badMagic found)

def read : Reader ClassFile := do
  readMagic
  let version ← Version.read
  let constants ← Constants.read
  let flags ← Flags.read
  let thisClass ← Index.read
  let superClass ← Index.read
  let interfaces ← Reader.counted Index.read
  let fields ← Reader.counted Member.read
  let methods ← Reader.counted Member.read
  let attributes ← Reader.counted Attribute.read
  return {
    version, constants, flags, thisClass, superClass, interfaces, fields, methods, attributes }

/-- Reads a class from a whole input. -/
def parse (bytes : List UInt8) : Except Fault ClassFile := read.run bytes

def outline (c : ClassFile) : Outline :=
  .record "ClassFile"
    [.field "version" c.version.outline,
     .field "constants" (c.constants.outline Constant.outline),
     .field "access_flags" c.flags.outline,
     .field "this_class" c.thisClass.outline,
     .field "super_class" c.superClass.outline,
     .field "interfaces" (.list (c.interfaces.map Index.outline)),
     .field "fields" (.list (c.fields.map (Member.outline "Field"))),
     .field "methods" (.list (c.methods.map (Member.outline "Method"))),
     .field "attributes" (.list (c.attributes.map Attribute.outline))]

end ClassFile

end ClassForge
