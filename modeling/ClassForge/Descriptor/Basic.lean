import ClassForge.Outline
import ClassForge.Slots

/-!
Types of fields and methods, and the descriptors that write them down.
-/

namespace ClassForge

inductive BaseType where
  | byte
  | char
  | double
  | float
  | int
  | long
  | short
  | boolean
  deriving DecidableEq, Repr

namespace BaseType

def all : List BaseType := [byte, char, double, float, int, long, short, boolean]

def letter : BaseType → Char
  | byte => 'B'
  | char => 'C'
  | double => 'D'
  | float => 'F'
  | int => 'I'
  | long => 'J'
  | short => 'S'
  | boolean => 'Z'

def ofLetter? (c : Char) : Option BaseType := all.find? fun b => b.letter = c

def name : BaseType → String
  | byte => "Byte"
  | char => "Char"
  | double => "Double"
  | float => "Float"
  | int => "Int"
  | long => "Long"
  | short => "Short"
  | boolean => "Boolean"

def width : BaseType → Nat
  | double | long => 2
  | _ => 1

end BaseType

/-- Class names have `/` between their parts. -/
inductive FieldType where
  | base (type : BaseType)
  | object (name : String)
  /-- An inline value class. -/
  | value (name : String)
  | array (element : FieldType)
  deriving DecidableEq, Repr

namespace FieldType

def int : FieldType := base .int

def width : FieldType → Nat
  | base b => b.width
  | _ => 1

/-- How many arrays are nested around the element. -/
def dimensions : FieldType → Nat
  | array t => t.dimensions + 1
  | _ => 0

/-- The type inside all arrays. -/
def element : FieldType → FieldType
  | array t => t.element
  | t => t

def renderChars : FieldType → List Char
  | base b => [b.letter]
  | object name => 'L' :: name.toList ++ [';']
  | value name => 'Q' :: name.toList ++ [';']
  | array element => '[' :: element.renderChars

def render (t : FieldType) : String := String.ofList t.renderChars

/-- The name under which a reference type stands in a class constant; arrays are named by their
descriptor. -/
def className? : FieldType → Option String
  | base _ => none
  | object name | value name => some name
  | t@(array _) => some t.render

end FieldType

structure MethodType where
  parameters : List FieldType
  /-- Nothing for `void`. -/
  returns : Option FieldType
  deriving DecidableEq, Repr

namespace MethodType

def renderChars (m : MethodType) : List Char :=
  '(' :: m.parameters.flatMap FieldType.renderChars ++
    ')' :: (match m.returns with
      | none => ['V']
      | some t => t.renderChars)

def render (m : MethodType) : String := String.ofList m.renderChars

/-- The slots that the parameters take, the receiver's included if there is one. -/
def parameterWidth (m : MethodType) (hasReceiver : Bool) : Nat :=
  (if hasReceiver then 1 else 0) + m.parameters.foldr (fun t n => t.width + n) 0

end MethodType

/-- A field by class, name and type. -/
structure FieldRef where
  owner : String
  name : String
  type : FieldType
  deriving DecidableEq, Repr

/-- A method by class, name and type. -/
structure MethodRef where
  owner : String
  name : String
  type : MethodType
  onInterface : Bool
  deriving DecidableEq, Repr

end ClassForge
