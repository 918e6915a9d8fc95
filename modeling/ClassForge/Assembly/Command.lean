import ClassForge.Assembly.Block

/-!
Commands: what can be asked of a block, as data.
-/

namespace ClassForge

inductive Command where
  | reserve (type : VType)
  | load (slot : UInt16)
  | store (slot : UInt16)
  | pushInt (value : Int32)
  | accessField (access : FieldAccess) (field : FieldRef)
  | defaultValue (name : String)
  | invokeStatic (method : MethodRef)
  | arithmetic (op : Arithmetic) (kind : NumericKind)
  | negate (kind : NumericKind)
  | pop
  | dup
  | returnVoid
  | returnValue
  | jump (target : BlockId)
  | branch (condition : Condition) (ifTrue ifFalse : BlockId)
  deriving DecidableEq, Repr

namespace Block

/-- Steps whose only outcome is the new block. -/
def silent (x : Interning Block) : Interning (Option UInt16 × Block) := do return (none, ← x)

/-- Carries out a command. The answer to a reservation is the slot of the new local; other commands have
none. -/
def apply (b : Block) : Command → Interning (Option UInt16 × Block)
  | .reserve t => do
    let (slot, b) ← Interning.ofExcept (b.reserve t)
    return (some slot, b)
  | .load slot => silent (Interning.ofExcept (b.load slot))
  | .store slot => silent (Interning.ofExcept (b.store slot))
  | .pushInt value => silent (b.pushInt value)
  | .accessField access field => silent (b.accessField access field)
  | .defaultValue name => silent (b.defaultValue name)
  | .invokeStatic method => silent (b.invokeStatic method)
  | .arithmetic op kind => silent (Interning.ofExcept (b.arithmetic op kind))
  | .negate kind => silent (Interning.ofExcept (b.negate kind))
  | .pop => silent (Interning.ofExcept b.pop)
  | .dup => silent (Interning.ofExcept b.dup)
  | .returnVoid => silent (Interning.ofExcept b.returnVoid)
  | .returnValue => silent (Interning.ofExcept b.returnValue)
  | .jump target => silent (Interning.ofExcept (b.jump target))
  | .branch condition ifTrue ifFalse =>
    silent (Interning.ofExcept (b.branch condition ifTrue ifFalse))

end Block

end ClassForge
