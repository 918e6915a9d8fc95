import ClassForge.Verification.VType

/-!
Frames: the types of the local variables and of the operand stack at one point of a method.
-/

namespace ClassForge

/-- Why an instruction does not fit the frame before it. -/
inductive VerifyError where
  | emptyStack
  | invalidType (expected found : VType)
  | invalidIndex (index : UInt16)
  | unreservedLocal (slot : UInt16)
  | notLoadable
  | notIntegral (kind : NumericKind)
  deriving DecidableEq, Repr

namespace VerifyError

def message : VerifyError → String
  | emptyStack => "operand stack is empty"
  | invalidType expected found =>
    "expected " ++ expected.text ++ " but found " ++ found.text
  | invalidIndex index => s!"index {index} does not fit the instruction"
  | unreservedLocal slot => s!"local {slot} was never reserved"
  | notLoadable => "local cannot be loaded"
  | notIntegral kind => "operation is not defined on " ++ kind.name

def outline : VerifyError → Outline
  | emptyStack => .atom "EmptyStack"
  | invalidType expected found =>
    .record "InvalidType" [.field "expected" expected.outline, .field "found" found.outline]
  | invalidIndex index => .tuple "InvalidIndex" [.num index.toNat]
  | unreservedLocal slot => .tuple "UnreservedLocal" [.num slot.toNat]
  | notLoadable => .atom "NotLoadable"
  | notIntegral kind => .tuple "NotIntegral" [.atom kind.name]

end VerifyError

structure Frame where
  locals : Slots VType
  stack : Slots VType
  deriving DecidableEq, Repr

namespace Frame

instance : Inhabited Frame := ⟨⟨.empty, .empty⟩⟩

/-- The frame with the given locals and stack, the top of the stack last. -/
def ofLists (locals stack : List VType) : Frame := ⟨.ofList locals, .ofList stack⟩

def push (f : Frame) (t : VType) : Frame := { f with stack := (f.stack.push t).2 }

def pop (f : Frame) : Except VerifyError (VType × Frame) :=
  match f.stack.pop? with
  | none => .error .emptyStack
  | some ((_, t), stack) => .ok (t, { f with stack })

/-- Pops a value that can stand for `expected`. -/
def popExpecting (f : Frame) (expected : VType) : Except VerifyError Frame := do
  let (found, f) ← f.pop
  if found.assignable expected then return f
  else throw (.invalidType expected found)

/-- Pops one value for each of `pops`, the first from the top, and then pushes `pushes`. -/
def exchange (f : Frame) (pops pushes : List VType) : Except VerifyError Frame := do
  let f ← pops.foldlM popExpecting f
  return pushes.foldl push f

/-- The type of the local variable that starts at `slot`. -/
def localAt (f : Frame) (slot : UInt16) : Except VerifyError VType :=
  match f.locals.get? slot.toNat with
  | none => .error (.unreservedLocal slot)
  | some t => .ok t

/-- Adds a local variable behind the others and gives its slot. -/
def reserve (f : Frame) (t : VType) : Except VerifyError (UInt16 × Frame) :=
  if f.locals.stop < 65536 then
    .ok (UInt16.ofNat f.locals.stop, { f with locals := (f.locals.push t).2 })
  else .error (.invalidIndex 65535)

/-- Each expected local, newest first, is met by one at the same slot or asks for nothing. -/
def localsAssignable : List (Nat × VType) → List (Nat × VType) → Bool
  | _, [] => true
  | found, (slot, expected) :: rest =>
    match found.dropWhile fun e => slot < e.1 with
    | [] => expected = .top && localsAssignable [] rest
    | (o, t) :: below =>
      if o = slot then t.assignable expected && localsAssignable below rest
      else expected = .top && localsAssignable ((o, t) :: below) rest

/-- Whether control can go from this frame to a point that expects `target`: the stacks agree entry
by entry, and locals beyond those of the target are dropped. -/
def assignable (f target : Frame) : Bool :=
  f.stack.length = target.stack.length &&
    (f.stack.elements.zip target.stack.elements).all (fun (t, e) => t.assignable e) &&
    localsAssignable f.locals.newest target.locals.newest

def outline (f : Frame) : Outline :=
  .record "Frame"
    [.field "locals" (f.locals.outline VType.outline),
     .field "stack" (f.stack.outline VType.outline)]

def text (f : Frame) : String := f.outline.line

end Frame

/-- The greatest numbers of slots that the stack and the locals have taken. -/
structure Maxima where
  stack : Nat
  locals : Nat
  deriving DecidableEq, Repr

namespace Maxima

def zero : Maxima := ⟨0, 0⟩

def join (a b : Maxima) : Maxima := ⟨max a.stack b.stack, max a.locals b.locals⟩

def cover (m : Maxima) (f : Frame) : Maxima := m.join ⟨f.stack.stop, f.locals.stop⟩

end Maxima

end ClassForge
