import ClassForge.Assembly.Instruction
import ClassForge.Pool

/-!
Blocks of straight-line code under construction. Each instruction is checked against the frame that
the ones before it left, and a block is sealed by naming how control leaves it.
-/

namespace ClassForge

structure Block where
  id : BlockId
  /-- The frame that every jump to the block must meet. -/
  entry : Frame
  /-- The frame after the instructions so far. -/
  frame : Frame
  maxima : Maxima
  /-- The instructions so far, newest first. -/
  newest : List Instruction
  ending : Option Ending
  /-- What the method returns; nothing for `void`. -/
  returns : Option VType
  deriving DecidableEq, Repr

namespace Block

def start (id : BlockId) (entry : Frame) (returns : Option VType) : Block where
  id
  entry
  frame := entry
  maxima := Maxima.zero.cover entry
  newest := []
  ending := none
  returns

def instructions (b : Block) : List Instruction := b.newest.reverse

/-- The bytes of the instructions, without those of the ending. -/
def code (b : Block) : List UInt8 := b.instructions.flatMap Instruction.encode

def isSealed (b : Block) : Bool := b.ending.isSome

def checkOpen (b : Block) : Except Error Unit :=
  match b.ending with
  | none => .ok ()
  | some _ => .error (.alreadySealed b.id)

/-- Blames a failed check on an instruction. -/
def blame {α : Type} (instruction : String) (x : Except VerifyError α) : Except Error α :=
  x.mapError (.verifier instruction)

/-- Moves on to another frame. -/
def advance (b : Block) (frame : Frame) : Block :=
  { b with frame, maxima := b.maxima.cover frame }

/-- Adds an instruction that pops and pushes the given types. -/
def emit (b : Block) (mnemonic : String) (pops pushes : List VType) (i : Instruction) :
    Except Error Block := do
  b.checkOpen
  let frame ← blame mnemonic (b.frame.exchange pops pushes)
  return { b.advance frame with newest := i :: b.newest }

/-- Reserves a local behind the others and gives its slot. -/
def reserve (b : Block) (t : VType) : Except Error (UInt16 × Block) := do
  b.checkOpen
  let (slot, frame) ← blame "reserve" (b.frame.reserve t)
  return (slot, b.advance frame)

/-- The type of a local and the family of instructions that move it. -/
def bankAt (b : Block) (verb : String) (slot : UInt16) : Except Error (VType × Bank) := do
  b.checkOpen
  let t ← blame verb (b.frame.localAt slot)
  match Bank.ofType? t with
  | some bank => return (t, bank)
  | none => throw (.verifier (verb ++ s!" {slot}") .notLoadable)

def load (b : Block) (slot : UInt16) : Except Error Block := do
  let (t, bank) ← b.bankAt "load" slot
  b.emit bank.loadMnemonic [] [t] (.load bank slot)

def store (b : Block) (slot : UInt16) : Except Error Block := do
  let (t, bank) ← b.bankAt "store" slot
  b.emit bank.storeMnemonic [t] [] (.store bank slot)

/-- The shortest instruction that pushes an integer; values beyond 16 bits come from the pool. -/
def intInstruction (value : Int32) : Interning (String × Instruction) := do
  let v := value.toInt
  if -1 ≤ v ∧ v ≤ 5 then return ("iconst", .iconst (Fin.ofNat 7 (v + 1).toNat))
  else if -128 ≤ v ∧ v ≤ 127 then return ("bipush", .bipush value.toInt8)
  else if -32768 ≤ v ∧ v ≤ 32767 then return ("sipush", .sipush value.toInt16)
  else
    let i ← Pool.intern (.integer value)
    if i.val.toNat ≤ 255 then return ("ldc", .ldc (UInt8.ofNat i.val.toNat))
    else return ("ldc_w", .ldcWide i.val)

def pushInt (b : Block) (value : Int32) : Interning Block := do
  Interning.ofExcept b.checkOpen
  let (mnemonic, i) ← intInstruction value
  Interning.ofExcept (b.emit mnemonic [] [.integer] i)

def accessField (b : Block) (access : FieldAccess) (field : FieldRef) : Interning Block := do
  Interning.ofExcept b.checkOpen
  let i ← Pool.fieldRefFor field
  let owner ← Pool.classNamed field.owner
  let type ← Pool.typeOf field.type
  let (pops, pushes) := FieldAccess.effect (.object owner) type access
  Interning.ofExcept (b.emit access.mnemonic pops pushes (.field access i))

def defaultValue (b : Block) (name : String) : Interning Block := do
  Interning.ofExcept b.checkOpen
  let i ← Pool.classNamed name
  Interning.ofExcept (b.emit "defaultvalue" [] [.object i] (.defaultValue i))

def invokeStatic (b : Block) (method : MethodRef) : Interning Block := do
  Interning.ofExcept b.checkOpen
  let i ← Pool.methodRefFor method
  let parameters ← method.type.parameters.mapM Pool.typeOf
  let returns ← Pool.typeOf? method.type.returns
  Interning.ofExcept
    (b.emit "invokestatic" parameters.reverse returns.toList (.invokeStatic i))

def arithmetic (b : Block) (op : Arithmetic) (kind : NumericKind) : Except Error Block :=
  let mnemonic := op.mnemonic kind
  if op.isDefinedOn kind then
    b.emit mnemonic [op.topOperand kind, kind.type] [kind.type] (.arithmetic op kind)
  else .error (.verifier mnemonic (.notIntegral kind))

def negate (b : Block) (kind : NumericKind) : Except Error Block :=
  b.emit kind.negateMnemonic [kind.type] [kind.type] (.negate kind)

/-- The type on top of the stack. -/
def top (b : Block) (instruction : String) : Except Error VType :=
  match b.frame.stack.last? with
  | none => .error (.verifier instruction .emptyStack)
  | some t => .ok t

def pop (b : Block) : Except Error Block := do
  b.checkOpen
  let t ← b.top "pop"
  b.emit "pop" [t] [] (if t.width = 1 then .pop else .pop2)

def dup (b : Block) : Except Error Block := do
  b.checkOpen
  let t ← b.top "dup"
  b.emit "dup" [t] [t, t] (if t.width = 1 then .dup else .dup2)

/-- Seals the block. -/
def close (b : Block) (ending : Ending) : Except Error Block := do
  b.checkOpen
  return { b with ending := some ending }

def returnVoid (b : Block) : Except Error Block := do
  b.checkOpen
  match b.returns with
  | some expected => throw (.returnMismatch (some expected) none)
  | none => b.close (.ret 0xb1)

/-- Returns the value on top of the stack, which leaves the stack. -/
def returnValue (b : Block) : Except Error Block := do
  b.checkOpen
  let found ← b.top "return"
  let (_, frame) ← blame "return" b.frame.pop
  match b.returns with
  | none => throw (.returnMismatch none (some found))
  | some expected =>
    match found.assignable expected, expected.returnOpcode? with
    | true, some opcode => close { b with frame } (.ret opcode)
    | _, _ => throw (.returnMismatch (some expected) (some found))

def jump (b : Block) (target : BlockId) : Except Error Block := b.close (.jump target)

/-- Goes to `ifTrue` if the value below the top compares to the top as the condition says. -/
def branch (b : Block) (condition : Condition) (ifTrue ifFalse : BlockId) :
    Except Error Block := do
  b.checkOpen
  if condition.negatedOpcode?.isNone then throw (.unsupportedCondition condition)
  let frame ← blame condition.negatedMnemonic (b.frame.exchange [.integer, .integer] [])
  (b.advance frame).close (.branch condition ifTrue ifFalse)

end Block

end ClassForge
