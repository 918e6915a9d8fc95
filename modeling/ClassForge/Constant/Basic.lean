import ClassForge.Decimal.Notation
import ClassForge.Outline
import ClassForge.Slots
import ClassForge.Text.ModifiedUtf8

/-!
Constants of a class and the indices by which they refer to each other. An index carries the kind of
constant that it promises to lead to; nothing in a file enforces the promise.
-/

namespace ClassForge

inductive IndexKind where
  | any
  | utf8
  | string
  | nameAndType
  | classInfo
  | fieldRef
  | methodRef
  | invokeDynamic
  deriving DecidableEq, Repr

structure Index (kind : IndexKind) where
  val : UInt16
  deriving DecidableEq, Hashable, Repr

namespace Index

variable {kind : IndexKind}

def outline (i : Index kind) : Outline :=
  let plain := Outline.tuple "ConstantIndex" [.num i.val.toNat]
  match kind with
  | .any => plain
  | .utf8 => .tuple "Utf8ConstantIndex" [plain]
  | .string => .tuple "StringConstantIndex" [plain]
  | .nameAndType => .tuple "NameAndTypeConstantIndex" [plain]
  | .classInfo => .tuple "ClassConstantIndex" [plain]
  | .fieldRef => .tuple "FieldRefConstantIndex" [plain]
  | .methodRef => .tuple "MethodRefConstantIndex" [plain]
  | .invokeDynamic => .tuple "InvokeDynamicConstantIndex" [plain]

end Index

/-- What a method handle does with its member. -/
inductive HandleKind where
  | getField
  | getStatic
  | putField
  | putStatic
  | invokeVirtual
  | invokeStatic
  | invokeSpecial
  | newInvokeSpecial
  | invokeInterface
  deriving DecidableEq, Hashable, Repr

namespace HandleKind

def all : List HandleKind :=
  [getField, getStatic, putField, putStatic, invokeVirtual, invokeStatic, invokeSpecial,
   newInvokeSpecial, invokeInterface]

def number : HandleKind → UInt8
  | getField => 1
  | getStatic => 2
  | putField => 3
  | putStatic => 4
  | invokeVirtual => 5
  | invokeStatic => 6
  | invokeSpecial => 7
  | newInvokeSpecial => 8
  | invokeInterface => 9

def ofNumber? (n : UInt8) : Option HandleKind := all.find? fun k => k.number = n

def name : HandleKind → String
  | getField => "GetField"
  | getStatic => "GetStatic"
  | putField => "PutField"
  | putStatic => "PutStatic"
  | invokeVirtual => "InvokeVirtual"
  | invokeStatic => "InvokeStatic"
  | invokeSpecial => "InvokeSpecial"
  | newInvokeSpecial => "NewInvokeSpecial"
  | invokeInterface => "InvokeInterface"

end HandleKind

/-- Floating-point constants are bit patterns, so that equality tells both zeros and all NaNs
apart. -/
inductive Constant where
  | classInfo (name : Index .utf8)
  | fieldRef (owner : Index .classInfo) (member : Index .nameAndType)
  | methodRef (owner : Index .classInfo) (member : Index .nameAndType) (onInterface : Bool)
  | string (text : Index .utf8)
  | integer (value : Int32)
  | float (bits : UInt32)
  | long (value : Int64)
  | double (bits : UInt64)
  | nameAndType (name descriptor : Index .utf8)
  | utf8 (text : String)
  /-- Text that is not valid Unicode. -/
  | utf16 (units : List UInt16)
  | methodHandle (kind : HandleKind) (member : Index .any)
  | methodType (descriptor : Index .utf8)
  | dynamic (bootstrap : UInt16) (member : Index .nameAndType)
  | invokeDynamic (bootstrap : UInt16) (member : Index .nameAndType)
  | moduleInfo (name : Index .utf8)
  | packageInfo (name : Index .utf8)
  deriving DecidableEq, Hashable, Repr

namespace Constant

instance : Inhabited Constant := ⟨utf8 ""⟩

/-- A string if the units are valid Unicode. -/
def ofUnits (units : List UInt16) : Constant :=
  match Text.Utf16.decode units with
  | some text => utf8 text
  | none => utf16 units

def tag : Constant → UInt8
  | utf8 _ | utf16 _ => 1
  | integer _ => 3
  | float _ => 4
  | long _ => 5
  | double _ => 6
  | classInfo _ => 7
  | string _ => 8
  | fieldRef .. => 9
  | methodRef _ _ false => 10
  | methodRef _ _ true => 11
  | nameAndType .. => 12
  | methodHandle .. => 15
  | methodType _ => 16
  | dynamic .. => 17
  | invokeDynamic .. => 18
  | moduleInfo _ => 19
  | packageInfo _ => 20

/-- Eight-byte constants take two entries of the pool, the second of them unusable. -/
def width : Constant → Nat
  | long _ | double _ => 2
  | _ => 1

theorem width_pos (c : Constant) : 0 < c.width := by
  cases c <;> simp [width]

instance : Wide Constant := ⟨width⟩

def outline : Constant → Outline
  | classInfo name => .tuple "Class" [name.outline]
  | fieldRef owner member => .tuple "FieldRef" [owner.outline, member.outline]
  | methodRef owner member onInterface =>
    .record "MethodRef"
      [.field "class" owner.outline, .field "name_and_type" member.outline,
       .field "is_interface" (.bool onInterface)]
  | string text => .tuple "String" [text.outline]
  | integer value => .tuple "Integer" [.int value.toInt]
  | float bits => .tuple "Float" [.atom (Decimal.text Decimal.single bits.toNat)]
  | long value => .tuple "Long" [.int value.toInt]
  | double bits => .tuple "Double" [.atom (Decimal.text Decimal.double bits.toNat)]
  | nameAndType name descriptor =>
    .record "NameAndType" [.field "name" name.outline, .field "descriptor" descriptor.outline]
  | utf8 text => .tuple "Utf8" [.text text]
  | utf16 units => .tuple "Utf16" [.list (units.map fun u => .num u.toNat)]
  | methodHandle kind member =>
    .record "MethodHandle"
      [.field "handle_kind" (.atom kind.name), .field "member" member.outline]
  | methodType descriptor => .record "MethodType" [.field "descriptor" descriptor.outline]
  | dynamic bootstrap member =>
    .record "Dynamic"
      [.field "bootstrap_method" (.num bootstrap.toNat), .field "name_and_type" member.outline]
  | invokeDynamic bootstrap member =>
    .record "InvokeDynamic"
      [.field "bootstrap_method" (.num bootstrap.toNat),
       .field "method_descriptor" member.outline]
  | moduleInfo name => .tuple "Module" [name.outline]
  | packageInfo name => .tuple "Package" [name.outline]

end Constant

/-- Each element on a line of its own behind its slot. -/
def Slots.outline {α : Type} (f : α → Outline) (s : Slots α) : Outline :=
  .list (s.toList.map fun (slot, a) => .atom (s!"#{slot} = " ++ (f a).line))

/-- The constants of a class by index. -/
abbrev Constants := Slots Constant

namespace Constants

/-- Indices start at 1. -/
def empty : Constants := Slots.emptyAt 1

def lookup? {kind : IndexKind} (cs : Constants) (i : Index kind) : Option Constant :=
  cs.get? i.val.toNat

def utf8? (cs : Constants) (i : Index .utf8) : Option String :=
  match cs.lookup? i with
  | some (.utf8 text) => some text
  | _ => none

/-- The name of the class that a class constant stands for. -/
def className? (cs : Constants) (i : Index .classInfo) : Option String :=
  match cs.lookup? i with
  | some (.classInfo name) => cs.utf8? name
  | _ => none

end Constants

end ClassForge
