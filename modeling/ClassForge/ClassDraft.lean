import ClassForge.Assembly.MethodDraft
import ClassForge.ClassFile
import ClassForge.Descriptor.Parser

/-!
Classes under construction. Their constants stay in the pool until the class is complete.
-/

namespace ClassForge

structure ClassDraft where
  version : Version
  flags : Flags .ofClass
  thisClass : Index .classInfo
  superClass : Index .classInfo
  interfaces : List (Index .classInfo)
  /-- Newest first, like the methods and attributes. -/
  fields : List Field
  methods : List Method
  attributes : List Attribute

namespace ClassDraft

def start (flags : Flags .ofClass) (thisName superName : String) (interfaces : List String) :
    Interning ClassDraft := do
  let thisClass ← Pool.classNamed thisName
  let superClass ← Pool.classNamed superName
  let interfaces ← interfaces.mapM Pool.classNamed
  return {
    version := .java8, flags, thisClass, superClass, interfaces
    fields := [], methods := [], attributes := [] }

def setVersion (d : ClassDraft) (version : Version) : ClassDraft := { d with version }

/-- A method of this class. -/
def method (d : ClassDraft) (isStatic : Bool) (type : MethodType) : Interning MethodDraft :=
  MethodDraft.ofType type (if isStatic then none else some d.thisClass)

def addAttribute {α : Type} (d : ClassDraft) (format : BodyFormat α) (body : α) :
    Interning ClassDraft := do
  let a ← Pool.attributeFor format body
  return { d with attributes := a :: d.attributes }

def addField (d : ClassDraft) (flags : Flags .ofField) (name descriptor : String) :
    Interning ClassDraft := do
  if (FieldType.parse descriptor).isOk then
    let name ← Pool.utf8 name
    let descriptor ← Pool.utf8 descriptor
    return { d with fields := ⟨flags, name, descriptor, []⟩ :: d.fields }
  else throw (.badDescriptor descriptor)

def addMethod (d : ClassDraft) (flags : Flags .ofMethod) (name descriptor : String)
    (attributes : List Attribute) : Interning ClassDraft := do
  if (MethodType.parse descriptor).isOk then
    let name ← Pool.utf8 name
    let descriptor ← Pool.utf8 descriptor
    return { d with methods := ⟨flags, name, descriptor, attributes⟩ :: d.methods }
  else throw (.badDescriptor descriptor)

/-- The class with the constants of the pool. -/
def result (d : ClassDraft) (pool : Pool) : ClassFile where
  version := d.version
  constants := pool.constants
  flags := d.flags
  thisClass := d.thisClass
  superClass := d.superClass
  interfaces := d.interfaces
  fields := d.fields.reverse
  methods := d.methods.reverse
  attributes := d.attributes.reverse

end ClassDraft

end ClassForge
