import ClassForge.ClassDraft

/-!
Drafts that are changed in place. An operation is a sequence of checks and changes; one that fails
halfway leaves the changes that it has made by then.
-/

namespace ClassForge

/-- Steps on a value that is changed in place, beside a pool. What was changed before a failure
stays. -/
abbrev Editing (σ : Type) := ExceptT Error (StateM (σ × Pool))

namespace Editing

variable {σ α : Type}

def current : Editing σ σ := fun s => (.ok s.1, s)

def change (f : σ → σ) : Editing σ Unit := fun s => (.ok (), (f s.1, s.2))

/-- A step that changes nothing. -/
def check (x : Except Error α) : Editing σ α := fun s => (x, s)

/-- A step on the pool alone. -/
def onPool (x : Interning α) : Editing σ α := fun s =>
  match x s.2 with
  | (r, pool) => (r, (s.1, pool))

end Editing

/-- Changes to a frame, made one after the other. -/
abbrev FrameUpdate := ExceptT VerifyError (StateM Frame)

namespace FrameUpdate

def push (t : VType) : FrameUpdate Unit := fun f => (.ok (), f.push t)

def pop : FrameUpdate VType := fun f =>
  match f.pop with
  | .ok (t, f') => (.ok t, f')
  | .error e => (.error e, f)

/-- Looks at the top of the stack, and takes it away only if it can stand for `expected`. -/
def popExpecting (expected : VType) : FrameUpdate Unit := fun f =>
  match f.stack.last? with
  | none => (.error .emptyStack, f)
  | some found =>
    if found.assignable expected then (.ok (), (pop f).2)
    else (.error (.invalidType expected found), f)

/-- Takes one value for each of `pops`, the first from the top, and then adds `pushes`. -/
def exchange (pops pushes : List VType) : FrameUpdate Unit := do
  pops.forM popExpecting
  pushes.forM push

def duplicate : FrameUpdate VType := do
  let t ← pop
  push t
  push t
  return t

def localAt (slot : UInt16) : FrameUpdate VType := fun f => (f.localAt slot, f)

def reserve (t : VType) : FrameUpdate UInt16 := fun f =>
  match f.reserve t with
  | .ok (slot, f') => (.ok slot, f')
  | .error e => (.error e, f)

end FrameUpdate

namespace Block

open Editing

def requireOpen : Editing Block Unit := do check (← current).checkOpen

/-- Runs an update on a copy of the frame. The copy takes the place of the frame only if the whole update
succeeds. -/
def verify {α : Type} (instruction : String) (update : FrameUpdate α) : Editing Block α := do
  requireOpen
  match update (← current).frame with
  | (.error e, _) => throw (.verifier instruction e)
  | (.ok a, frame) =>
    change fun b => { b with frame }
    change fun b => { b with maxima := b.maxima.cover b.frame }
    return a

def append (i : Instruction) : Editing Block Unit :=
  change fun b => { b with newest := i :: b.newest }

/-- Adds an instruction that pops and pushes the given types. -/
def write (mnemonic : String) (pops pushes : List VType) (i : Instruction) : Editing Block Unit := do
  verify mnemonic (.exchange pops pushes)
  append i

/-- The type of a local and the family of instructions that move it. -/
def movable (verb : String) (slot : UInt16) : Editing Block (VType × Bank) := do
  let t ← verify verb (.localAt slot)
  match Bank.ofType? t with
  | some bank => return (t, bank)
  | none => throw (.verifier (verb ++ s!" {slot}") .notLoadable)

def sealWith (ending : Ending) : Editing Block Unit := do
  requireOpen
  change fun b => { b with ending := some ending }

/-- Takes the value on top of the stack away; this works on the frame itself, not on a copy. -/
def dropTop (instruction : String) : Editing Block Unit := do
  match FrameUpdate.pop (← current).frame with
  | (.error e, _) => throw (.verifier instruction e)
  | (.ok _, frame) => change fun b => { b with frame }

/-- Seals the block with the instruction that returns a value of the type of the method. -/
def sealReturn : Editing Block Unit := do
  requireOpen
  let found ← check ((← current).top "return")
  let returns := (← current).returns
  let opcode? := do
    let expected ← returns
    if found.assignable expected then expected.returnOpcode? else none
  match opcode? with
  | none => throw (.returnMismatch returns (some found))
  | some opcode =>
    dropTop "return"
    sealWith (.ret opcode)

/-- Steps that answer nothing. -/
def silently (x : Editing Block Unit) : Editing Block (Option UInt16) := do
  x
  return none

/-- Carries out a command on the block itself. The answer to a reservation is the slot of the new local;
other commands have none. -/
def perform : Command → Editing Block (Option UInt16)
  | .reserve t => do return some (← verify "reserve" (.reserve t))
  | .load slot => silently do
    let (t, bank) ← movable "load" slot
    write bank.loadMnemonic [] [t] (.load bank slot)
  | .store slot => silently do
    let (t, bank) ← movable "store" slot
    write bank.storeMnemonic [t] [] (.store bank slot)
  | .pushInt value => silently do
    requireOpen
    let (mnemonic, i) ← onPool (intInstruction value)
    write mnemonic [] [.integer] i
  | .accessField access field => silently do
    requireOpen
    let i ← onPool (Pool.fieldRefFor field)
    let owner ← onPool (Pool.classNamed field.owner)
    let type ← onPool (Pool.typeOf field.type)
    let (pops, pushes) := FieldAccess.effect (.object owner) type access
    write access.mnemonic pops pushes (.field access i)
  | .defaultValue name => silently do
    requireOpen
    let i ← onPool (Pool.classNamed name)
    write "defaultvalue" [] [.object i] (.defaultValue i)
  | .invokeStatic method => silently do
    requireOpen
    let i ← onPool (Pool.methodRefFor method)
    let parameters ← onPool (method.type.parameters.mapM Pool.typeOf)
    let returns ← onPool (Pool.typeOf? method.type.returns)
    write "invokestatic" parameters.reverse returns.toList (.invokeStatic i)
  | .arithmetic op kind => silently do
    if op.isDefinedOn kind then
      write (op.mnemonic kind) [op.topOperand kind, kind.type] [kind.type] (.arithmetic op kind)
    else throw (.verifier (op.mnemonic kind) (.notIntegral kind))
  | .negate kind => silently do
    write kind.negateMnemonic [kind.type] [kind.type] (.negate kind)
  | .pop => silently do
    let t ← verify "pop" .pop
    append (if t.width = 1 then .pop else .pop2)
  | .dup => silently do
    let t ← verify "dup" .duplicate
    append (if t.width = 1 then .dup else .dup2)
  | .returnVoid => silently do
    requireOpen
    match (← current).returns with
    | some expected => throw (.returnMismatch (some expected) none)
    | none => sealWith (.ret 0xb1)
  | .returnValue => silently sealReturn
  | .jump target => silently (sealWith (.jump target))
  | .branch condition ifTrue ifFalse => silently do
    requireOpen
    if condition.negatedOpcode?.isNone then throw (.unsupportedCondition condition)
    verify condition.negatedMnemonic (.exchange [.integer, .integer] [])
    sealWith (.branch condition ifTrue ifFalse)

end Block

namespace MethodDraft

open Editing

/-- Works on one block of the method. -/
def onBlock {α : Type} (id : BlockId) (x : Editing Block α) : Editing MethodDraft α := fun s =>
  match s.1.block? id with
  | .error e => (.error e, s)
  | .ok b =>
    match x (b, s.2) with
    | (r, (b', pool)) => (r, ({ s.1 with blocks := s.1.blocks.setIfInBounds id.index b' }, pool))

/-- Lays out the method, gives its attributes and marks it as finished. -/
def complete : Editing MethodDraft (List Attribute) := do
  let m ← current
  if m.finished then throw .alreadyFinished
  let body ← check m.body
  let attributes ← onPool (tableAttributes body.frames)
  check (checkMaxima body.maxima)
  let code ← onPool (Pool.attributeFor Code.format {
    maxStack := UInt16.ofNat body.maxima.stack
    maxLocals := UInt16.ofNat body.maxima.locals
    bytecode := body.bytecode
    handlers := []
    attributes })
  change fun m => { m with finished := true }
  return [code]

end MethodDraft

namespace ClassDraft

open Editing

/-- Adds an attribute to the class itself. -/
def attach {α : Type} (format : BodyFormat α) (body : α) : Editing ClassDraft Unit := do
  let a ← onPool (Pool.attributeFor format body)
  change fun d => { d with attributes := a :: d.attributes }

def declareField (flags : Flags .ofField) (name descriptor : String) : Editing ClassDraft Unit := do
  unless (FieldType.parse descriptor).isOk do throw (.badDescriptor descriptor)
  let name ← onPool (Pool.utf8 name)
  let descriptor ← onPool (Pool.utf8 descriptor)
  change fun d => { d with fields := ⟨flags, name, descriptor, []⟩ :: d.fields }

def declareMethod (flags : Flags .ofMethod) (name descriptor : String)
    (attributes : List Attribute) : Editing ClassDraft Unit := do
  unless (MethodType.parse descriptor).isOk do throw (.badDescriptor descriptor)
  let name ← onPool (Pool.utf8 name)
  let descriptor ← onPool (Pool.utf8 descriptor)
  change fun d => { d with methods := ⟨flags, name, descriptor, attributes⟩ :: d.methods }

end ClassDraft

end ClassForge
