import ClassForge.Attribute
import ClassForge.Descriptor.Basic
import ClassForge.Error
import Std.Data.HashMap

/-!
The constant pool under construction: constants are only ever added, each of them once.
-/

namespace ClassForge

structure Pool where
  constants : Constants
  /-- The first index of each constant. -/
  indices : Std.HashMap Constant UInt16

/-- Steps that may add constants. What was added before a failure stays. -/
abbrev Interning := ExceptT Error (StateM Pool)

namespace Interning

variable {α : Type}

/-- A step that leaves the pool alone. -/
def ofExcept (x : Except Error α) : Interning α := fun pool => (x, pool)

end Interning

namespace Pool

def empty : Pool := ⟨Constants.empty, ∅⟩

instance : Inhabited Pool := ⟨empty⟩

/-- Reopens the constants of a class; of equal constants the first is found. -/
def ofConstants (constants : Constants) : Pool where
  constants
  indices := constants.toList.foldl (fun m (i, c) => m.insertIfNew c (UInt16.ofNat i)) ∅

/-- The next free index. -/
def size (pool : Pool) : Nat := pool.constants.stop

def isEmpty (pool : Pool) : Bool := pool.constants.isEmpty

def write (pool : Pool) : List UInt8 := pool.constants.write

/-- The index of a constant, which is added if it is new and there is room for it. -/
def intern (constant : Constant) : Interning (Index .any) := fun pool =>
  match pool.indices[constant]? with
  | some i => (.ok ⟨i⟩, pool)
  | none =>
    let next := pool.constants.stop
    if next + constant.width > 65535 then (.error (.constantPoolOverflow constant next), pool)
    else
      let i := UInt16.ofNat next
      (.ok ⟨i⟩, ⟨(pool.constants.push constant).2, pool.indices.insert constant i⟩)

/-- The index of a constant of a known kind. -/
def internAs (kind : IndexKind) (constant : Constant) : Interning (Index kind) := do
  return ⟨(← intern constant).val⟩

def utf8 (text : String) : Interning (Index .utf8) := internAs .utf8 (.utf8 text)

/-- Text by its UTF-16 units, which need not be valid. -/
def utf16 (units : List UInt16) : Interning (Index .utf8) := internAs .utf8 (.ofUnits units)

def classInfo (name : Index .utf8) : Interning (Index .classInfo) :=
  internAs .classInfo (.classInfo name)

def classNamed (name : String) : Interning (Index .classInfo) := do
  classInfo (← utf8 name)

def string (text : Index .utf8) : Interning (Index .string) := internAs .string (.string text)

def nameAndType (name descriptor : Index .utf8) : Interning (Index .nameAndType) :=
  internAs .nameAndType (.nameAndType name descriptor)

def fieldRef (owner : Index .classInfo) (member : Index .nameAndType) :
    Interning (Index .fieldRef) :=
  internAs .fieldRef (.fieldRef owner member)

def methodRef (owner : Index .classInfo) (member : Index .nameAndType) (onInterface : Bool) :
    Interning (Index .methodRef) :=
  internAs .methodRef (.methodRef owner member onInterface)

def invokeDynamic (bootstrap : UInt16) (member : Index .nameAndType) :
    Interning (Index .invokeDynamic) :=
  internAs .invokeDynamic (.invokeDynamic bootstrap member)

/-- Everything that a reference to a field needs. -/
def fieldRefFor (field : FieldRef) : Interning (Index .fieldRef) := do
  let owner ← classNamed field.owner
  let name ← utf8 field.name
  let descriptor ← utf8 field.type.render
  fieldRef owner (← nameAndType name descriptor)

/-- Everything that a reference to a method needs. -/
def methodRefFor (method : MethodRef) : Interning (Index .methodRef) := do
  let owner ← classNamed method.owner
  let name ← utf8 method.name
  let descriptor ← utf8 method.type.render
  methodRef owner (← nameAndType name descriptor) method.onInterface

/-- An attribute with a structured body. -/
def attributeFor {α : Type} (format : BodyFormat α) (body : α) : Interning Attribute := do
  let name ← utf8 format.name
  match format.write body with
  | .error e => throw (.unwritable e)
  | .ok info => return ⟨name, info⟩

/-- The type that the verifier sees: integers below `int` are `int`s, and a reference is an object of
its class. -/
def typeOf : FieldType → Interning VType
  | .base .float => return .float
  | .base .long => return .long
  | .base .double => return .double
  | .base _ => return .integer
  | .object name | .value name => return .object (← classNamed name)
  | t@(.array _) => return .object (← classNamed t.render)

def typeOf? : Option FieldType → Interning (Option VType)
  | none => return none
  | some t => return some (← typeOf t)

end Pool

end ClassForge
