import ClassForge.Error

/-!
Patches: two-byte operands of the code that are filled in once every block has its place.
-/

namespace ClassForge

inductive PatchValue where
  | known (value : Int16)
  /-- The distance from `origin` to where `target` is placed. -/
  | jump (target : BlockId) (origin : Nat)
  deriving DecidableEq, Repr

structure Patch where
  /-- The offset of the first of the two bytes. -/
  location : Nat
  value : PatchValue
  deriving DecidableEq, Repr

/-- The distance between two offsets, which must fit in 16 bits. -/
def jumpOffset (origin target : Nat) : Except Error Int16 :=
  let distance : Int := (target : Int) - (origin : Int)
  if -32768 ≤ distance ∧ distance ≤ 32767 then .ok (Int16.ofInt distance)
  else .error (.jumpOverflow origin target)

/-- Where blocks stand in the code, by number. -/
abbrev Placement := Array (Option Nat)

def Placement.offset? (p : Placement) (b : BlockId) : Option Nat := p[b.index]?.join

namespace Patch

def resolve (p : Patch) (placement : Placement) : Except Error Int16 :=
  match p.value with
  | .known value => .ok value
  | .jump target origin =>
    match placement.offset? target with
    | none => .error (.unresolvedPatch target)
    | some offset => jumpOffset origin offset

/-- Writes the value over the placeholder. -/
def apply (p : Patch) (placement : Placement) (code : Array UInt8) :
    Except Error (Array UInt8) := do
  let value ← p.resolve placement
  if h : p.location + 1 < code.size then
    let n := value.toUInt16.toNat
    let code := code.set p.location (UInt8.ofNat (n / 256))
    return code.setIfInBounds (p.location + 1) (UInt8.ofNat n)
  else throw (.patchOutsideCode p.location)

end Patch

end ClassForge
