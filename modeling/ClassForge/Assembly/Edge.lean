import ClassForge.Assembly.Operation

/-!
Blocks by number, and how control leaves them.
-/

namespace ClassForge

structure BlockId where
  index : Nat
  deriving DecidableEq, Repr

namespace BlockId

/-- The block at which a method starts. -/
def entry : BlockId := ⟨0⟩

def text (b : BlockId) : String := s!"b{b.index}"

def outline (b : BlockId) : Outline := .atom b.text

end BlockId

inductive Ending where
  | ret (opcode : UInt8)
  | jump (target : BlockId)
  /-- Compares the two `int`s on top of the stack. -/
  | branch (condition : Condition) (ifTrue ifFalse : BlockId)
  deriving DecidableEq, Repr

namespace Ending

/-- The blocks that control can go to. -/
def targets : Ending → List BlockId
  | ret _ => []
  | jump target => [target]
  | branch _ ifTrue ifFalse => [ifTrue, ifFalse]

end Ending

end ClassForge
