import ClassForge.Verification.Frame

/-!
Stack map frames: the frames of a method at the targets of its jumps, each given by its distance
from the one before and by what changed.
-/

namespace ClassForge

inductive StackMapFrame where
  /-- The same locals and an empty stack. A distance of at most 63 has a short form, which
  `extended` declines. -/
  | same (delta : UInt16) (extended : Bool)
  /-- The same locals and one value on the stack, with a short form as above. -/
  | sameOneStack (delta : UInt16) (stack : VType) (extended : Bool)
  /-- Without the last `count` locals. -/
  | chop (delta : UInt16) (count : UInt8)
  /-- With more locals. -/
  | append (delta : UInt16) (locals : List VType)
  | full (delta : UInt16) (locals stack : List VType)
  deriving DecidableEq, Repr

/-- A frame that has no written form. -/
inductive StackMapError where
  | chopCount
  | appendCount
  deriving DecidableEq, Repr

def StackMapError.message : StackMapError → String
  | chopCount => "chop frames remove 1-3 locals"
  | appendCount => "append frames add 1-3 locals"

def Frame.stackMapFrame (f : Frame) (delta : UInt16) : StackMapFrame :=
  .full delta f.locals.elements f.stack.elements

namespace StackMapFrame

def delta : StackMapFrame → UInt16
  | same d _ | sameOneStack d _ _ | chop d _ | append d _ | full d _ _ => d

def write : StackMapFrame → Except StackMapError (List UInt8)
  | same d extended =>
    if d.toNat ≤ 63 ∧ ¬extended then .ok (Bytes.bigEndian 1 d.toNat)
    else .ok (Bytes.u8 251 ++ Bytes.u16 d)
  | sameOneStack d t extended =>
    if d.toNat ≤ 63 ∧ ¬extended then .ok (Bytes.bigEndian 1 (d.toNat + 64) ++ t.write)
    else .ok (Bytes.u8 247 ++ Bytes.u16 d ++ t.write)
  | chop d count =>
    if 1 ≤ count.toNat ∧ count.toNat ≤ 3 then
      .ok (Bytes.bigEndian 1 (251 - count.toNat) ++ Bytes.u16 d)
    else .error .chopCount
  | append d locals =>
    if 1 ≤ locals.length ∧ locals.length ≤ 3 then
      .ok (Bytes.bigEndian 1 (251 + locals.length) ++ Bytes.u16 d ++ locals.flatMap VType.write)
    else .error .appendCount
  | full d locals stack =>
    .ok (Bytes.u8 255 ++ Bytes.u16 d ++ Bytes.counted VType.write locals ++
      Bytes.counted VType.write stack)

def readDelta : Reader UInt16 := Reader.u16 "offset delta"

def read : Reader StackMapFrame := do
  let offset ← Reader.position
  let tag ← Reader.u8 "frame type"
  let n := tag.toNat
  if n ≤ 63 then return same (UInt16.ofNat n) false
  else if n ≤ 127 then return sameOneStack (UInt16.ofNat (n - 64)) (← VType.read) false
  else if n ≤ 246 then Reader.failAt offset (.unknownFrameType tag)
  else if n = 247 then return sameOneStack (← readDelta) (← VType.read) true
  else if n ≤ 250 then return chop (← readDelta) (UInt8.ofNat (251 - n))
  else if n = 251 then return same (← readDelta) true
  else if n ≤ 254 then return append (← readDelta) (← Reader.times (n - 251) VType.read)
  else return full (← readDelta) (← Reader.counted VType.read) (← Reader.counted VType.read)

def outline : StackMapFrame → Outline
  | same d extended =>
    .record "SameLocalsNoStack"
      [.field "offset_delta" (.num d.toNat), .field "extended" (.bool extended)]
  | sameOneStack d t extended =>
    .record "SameLocalsOneStack"
      [.field "offset_delta" (.num d.toNat), .field "stack" t.outline,
       .field "extended" (.bool extended)]
  | chop d count =>
    .record "ChopLocalsNoStack"
      [.field "offset_delta" (.num d.toNat), .field "chopped_k" (.num count.toNat)]
  | append d locals =>
    .record "AppendLocalsNoStack"
      [.field "offset_delta" (.num d.toNat), .field "locals" (.list (locals.map VType.outline))]
  | full d locals stack =>
    .record "Full"
      [.field "offset_delta" (.num d.toNat), .field "locals" (.list (locals.map VType.outline)),
       .field "stack" (.list (stack.map VType.outline))]

end StackMapFrame

/-- The table of a method, in the order of its offsets. -/
abbrev StackMapTable := List StackMapFrame

namespace StackMapTable

def write (table : StackMapTable) : Except StackMapError (List UInt8) := do
  let frames ← table.mapM StackMapFrame.write
  return Bytes.bigEndian 2 table.length ++ frames.flatten

def read : Reader StackMapTable := Reader.counted StackMapFrame.read

end StackMapTable

end ClassForge
