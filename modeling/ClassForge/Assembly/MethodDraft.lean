import ClassForge.Assembly.Command
import ClassForge.Assembly.Layout

/-!
Methods under construction: a graph of blocks, and the code that it is laid out to.
-/

namespace ClassForge

structure MethodDraft where
  /-- The blocks by number; the first is the entry. -/
  blocks : Array Block
  returns : Option VType
  finished : Bool

namespace MethodDraft

/-- A method whose entry block has the given locals. -/
def start (locals : List VType) (returns : Option VType) : MethodDraft :=
  ⟨#[.start .entry (.ofLists locals []) returns], returns, false⟩

/-- A method of the given type; an instance method has its receiver in the first local. -/
def ofType (type : MethodType) (receiver : Option (Index .classInfo)) : Interning MethodDraft := do
  let parameters ← type.parameters.mapM Pool.typeOf
  let returns ← Pool.typeOf? type.returns
  return start ((receiver.map VType.object).toList ++ parameters) returns

def block? (m : MethodDraft) (id : BlockId) : Except Error Block :=
  match m.blocks[id.index]? with
  | none => .error (.unknownBlock id)
  | some b => .ok b

def addBlock (m : MethodDraft) (entry : Frame) : BlockId × MethodDraft :=
  let id : BlockId := ⟨m.blocks.size⟩
  (id, { m with blocks := m.blocks.push (.start id entry m.returns) })

/-- Adds an empty block that expects the given locals and stack. -/
def newBlock (m : MethodDraft) (locals stack : List VType) : BlockId × MethodDraft :=
  m.addBlock (.ofLists locals stack)

/-- Adds a block that starts with the locals which another block has now. -/
def continueBlock (m : MethodDraft) (source : BlockId) (stack : List VType) :
    Except Error (BlockId × MethodDraft) := do
  let b ← m.block? source
  return m.addBlock ⟨b.frame.locals, .ofList stack⟩

def setBlock (m : MethodDraft) (b : Block) : MethodDraft :=
  { m with blocks := m.blocks.setIfInBounds b.id.index b }

/-- Carries out a command on one block and passes its answer on. -/
def apply (m : MethodDraft) (id : BlockId) (command : Command) :
    Interning (Option UInt16 × MethodDraft) := do
  let b ← Interning.ofExcept (m.block? id)
  let (answer, b) ← b.apply command
  return (answer, m.setBlock b)

/-- Where each reachable block stands, and the code before its patches are applied. -/
def layout (m : MethodDraft) : Except Error (Placement × Emission) :=
  Layout.run m.blocks [.reach .entry] (Array.replicate m.blocks.size none) .empty

/-- The entry frame of a block with the offset of the block, which has to fit into 16 bits. -/
def entryAt (b : Block) (offset : Nat) : Except Error (Nat × Frame) :=
  if offset ≤ 65535 then .ok (offset, b.entry) else .error (.codeOverflow b.id offset)

/-- The entry frame of a block, if the block is placed and jumped to. -/
def jumpTarget? (jumped : Array Bool) (b : Block) : Option Nat → Except Error (Option (Nat × Frame))
  | none => return none
  | some offset => do
    if jumped[b.id.index]? = some true then return some (← entryAt b offset) else return none

/-- Marks, by block number, the blocks of `targets`. -/
def marksOf (size : Nat) (targets : List BlockId) : Array Bool :=
  targets.foldl (fun a t => a.setIfInBounds t.index true) (Array.replicate size false)

/-- The blocks that are jumped to, with their offsets, in the order of the code; blocks of one offset
stay in the order of their numbers. -/
def jumpTargets (m : MethodDraft) (placement : Placement) (targets : List BlockId) :
    Except Error (List (Nat × Frame)) := do
  let jumped := marksOf m.blocks.size targets
  let found ← (m.blocks.toList.zip placement.toList).mapM fun x => jumpTarget? jumped x.1 x.2
  return (found.filterMap id).mergeSort fun a b => a.1 ≤ b.1

/-- One full frame for each offset, given by its distance from the one before. -/
def framesFrom : Option (Nat × Frame) → List (Nat × Frame) → Except Error StackMapTable
  | _, [] => .ok []
  | none, (offset, frame) :: rest => do
    let frames ← framesFrom (some (offset, frame)) rest
    return frame.stackMapFrame (UInt16.ofNat offset) :: frames
  | some (before, previous), (offset, frame) :: rest =>
    if before = offset then
      if previous = frame then framesFrom (some (before, previous)) rest
      else .error (.conflictingFrames (UInt16.ofNat offset) previous frame)
    else do
      let frames ← framesFrom (some (offset, frame)) rest
      return frame.stackMapFrame (UInt16.ofNat (offset - before - 1)) :: frames

/-- The stack map table and the code of the method. -/
structure Body where
  bytecode : List UInt8
  frames : StackMapTable
  maxima : Maxima

def body (m : MethodDraft) : Except Error Body := do
  let (placement, e) ← m.layout
  let code ← e.patches.reverse.foldlM (fun code p => p.apply placement code) e.code
  let frames ← framesFrom none (← m.jumpTargets placement e.targets)
  return ⟨code.toList, frames, e.maxima⟩

def checkMaxima (m : Maxima) : Except Error Unit :=
  if m.stack > 65535 then .error (.maxStackOverflow m.stack)
  else if m.locals > 65535 then .error (.maxLocalsOverflow m.locals)
  else .ok ()

/-- A method without jumps has no stack map table. -/
def tableAttributes (frames : StackMapTable) : Interning (List Attribute) :=
  if frames.isEmpty then return []
  else do return [← Pool.attributeFor StackMapTable.format frames]

/-- Lays out the method and gives its attributes. -/
def finish (m : MethodDraft) : Interning (List Attribute × MethodDraft) := do
  if m.finished then throw .alreadyFinished
  let body ← Interning.ofExcept m.body
  let attributes ← tableAttributes body.frames
  Interning.ofExcept (checkMaxima body.maxima)
  let code ← Pool.attributeFor Code.format {
    maxStack := UInt16.ofNat body.maxima.stack
    maxLocals := UInt16.ofNat body.maxima.locals
    bytecode := body.bytecode
    handlers := []
    attributes }
  return ([code], { m with finished := true })

end MethodDraft

end ClassForge
