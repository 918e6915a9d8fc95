import ClassForge.Assembly.Edge
import ClassForge.StackMap

/-!
What can go wrong while a class is read, assembled or written.
-/

namespace ClassForge

inductive Error where
  | constantPoolOverflow (constant : Constant) (offset : Nat)
  | unwritable (cause : StackMapError)
  | malformed (fault : Fault)
  /-- The code grew past 65535 bytes while `block` was placed. -/
  | codeOverflow (block : BlockId) (offset : Nat)
  | maxStackOverflow (max : Nat)
  | maxLocalsOverflow (max : Nat)
  | jumpOverflow (origin target : Nat)
  | verifier (instruction : String) (cause : VerifyError)
  | alreadySealed (block : BlockId)
  | notSealed (block : BlockId)
  | unknownBlock (block : BlockId)
  | unresolvedPatch (block : BlockId)
  /-- A patch does not lie inside the code. -/
  | patchOutsideCode (location : Nat)
  | incompatibleFrames (source target : BlockId) (found expected : Frame)
  | conflictingFrames (offset : UInt16) (first second : Frame)
  | unsupportedCondition (condition : Condition)
  | badDescriptor (descriptor : String)
  | returnMismatch (expected found : Option VType)
  | alreadyFinished
  deriving DecidableEq, Repr

namespace Error

def optionText (t : Option VType) : String := (Outline.option VType.outline t).line

def message : Error → String
  | constantPoolOverflow constant offset =>
    s!"constant pool is full (next offset {offset}), cannot add " ++ constant.outline.line
  | unwritable cause => "I/O error: " ++ cause.message
  | malformed fault => "malformed class file " ++ fault.message
  | codeOverflow block offset =>
    s!"method body is too large ({offset} bytes reached while placing " ++ block.text ++ ")"
  | maxStackOverflow max => s!"max stack {max} does not fit in 16 bits"
  | maxLocalsOverflow max => s!"max locals {max} does not fit in 16 bits"
  | jumpOverflow origin target =>
    s!"jump from {origin} to {target} does not fit in a 16-bit offset"
  | verifier instruction cause =>
    "`" ++ instruction ++ "` does not verify: " ++ cause.message
  | alreadySealed block => block.text ++ " already has an outgoing edge"
  | notSealed block => block.text ++ " was never sealed"
  | unknownBlock block => block.text ++ " is not part of this method"
  | unresolvedPatch block => "jump to " ++ block.text ++ " which was never placed"
  | patchOutsideCode location => s!"patch at {location} is outside the code"
  | incompatibleFrames source target found expected =>
    source.text ++ " jumps to " ++ target.text ++ " with frame " ++ found.text ++ " but " ++
      expected.text ++ " is expected"
  | conflictingFrames offset first second =>
    s!"conflicting frames at offset {offset}: " ++ first.text ++ " vs. " ++ second.text
  | unsupportedCondition condition =>
    "branch condition " ++ condition.name ++ " is not supported"
  | badDescriptor descriptor => "bad descriptor " ++ Text.quoted descriptor
  | returnMismatch expected found =>
    "method returns " ++ optionText expected ++ " but block returns " ++ optionText found
  | alreadyFinished => "method builder was already finished"

/-- The error with all its details. -/
def outline : Error → Outline
  | constantPoolOverflow constant offset =>
    .record "ConstantPoolOverflow"
      [.field "constant" constant.outline, .field "offset" (.num offset)]
  | unwritable cause =>
    .tuple "IoError"
      [.record "Custom"
        [.field "kind" (.atom "InvalidData"), .field "error" (.text cause.message)]]
  | malformed fault => .tuple "Parse" [fault.outline]
  | codeOverflow block offset =>
    .record "MethodCodeOverflow" [.field "block" block.outline, .field "offset" (.num offset)]
  | maxStackOverflow max => .tuple "MethodCodeMaxStackOverflow" [.num max]
  | maxLocalsOverflow max => .tuple "MethodCodeMaxLocalsOverflow" [.num max]
  | jumpOverflow origin target =>
    .record "JumpOffsetOverflow" [.field "origin" (.num origin), .field "target" (.num target)]
  | verifier instruction cause =>
    .record "VerifierError"
      [.field "instruction" (.text instruction), .field "kind" cause.outline]
  | alreadySealed block => .tuple "BlockAlreadySealed" [block.outline]
  | notSealed block => .tuple "BlockNotSealed" [block.outline]
  | unknownBlock block => .tuple "UnknownBlock" [block.outline]
  | unresolvedPatch block => .tuple "UnresolvedPatch" [block.outline]
  | patchOutsideCode location => .tuple "PatchOutsideCode" [.num location]
  | incompatibleFrames source target found expected =>
    .record "IncompatibleFrames"
      [.field "from" source.outline, .field "to" target.outline,
       .field "found" found.outline, .field "expected" expected.outline]
  | conflictingFrames offset first second =>
    .record "ConflictingFrames"
      [.field "offset" (.num offset.toNat), .field "first" first.outline,
       .field "second" second.outline]
  | unsupportedCondition condition =>
    .tuple "UnsupportedBranchCondition" [.atom condition.name]
  | badDescriptor descriptor => .tuple "BadDescriptor" [.text descriptor]
  | returnMismatch expected found =>
    .record "ReturnTypeMismatch"
      [.field "expected" (.option VType.outline expected),
       .field "found" (.option VType.outline found)]
  | alreadyFinished => .atom "AlreadyFinished"

end Error

end ClassForge
