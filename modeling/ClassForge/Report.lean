import ClassForge.ClassFile

/-!
Reports on class files: their contents as text, and whether writing gives back what was read.
-/

namespace ClassForge.Report

/-- Bytes as a list of two-digit numbers. -/
def bytesText (bytes : List UInt8) : String :=
  (Outline.list (bytes.map fun b => .atom (Text.hexPadded 2 b.toNat))).line

/-- Lines of a report, and the fault that cut it short if there was one. -/
structure Outcome where
  lines : List String
  fault : Option Fault

namespace Outcome

def ok (lines : List String) : Outcome := ⟨lines, none⟩

/-- Lines followed by those of another report, unless a fault came before. -/
def andThen (a b : Outcome) : Outcome :=
  match a.fault with
  | some _ => a
  | none => ⟨a.lines ++ b.lines, b.fault⟩

def concat (outcomes : List Outcome) : Outcome := outcomes.foldl andThen (ok [])

end Outcome

/-- The frames of an attribute of a method body, if it is a stack map table. -/
def frames (cs : Constants) (a : Attribute) : Outcome :=
  match a.decodeIf StackMapTable.format cs with
  | none => .ok []
  | some (.error e) => ⟨[], some e⟩
  | some (.ok table) => .ok (table.map fun f => "  " ++ f.outline.line)

def method (cs : Constants) (m : Method) : Outcome :=
  let title := (cs.utf8? m.name).getD "<invalid>" ++ (cs.utf8? m.descriptor).getD "<invalid>"
  match m.code? cs with
  | none => .ok [title ++ ": no code"]
  | some (.error e) => ⟨[], some e⟩
  | some (.ok code) =>
    let summary := title ++ s!": max_stack={code.maxStack} max_locals={code.maxLocals} code=" ++
      bytesText code.bytecode
    (Outcome.ok [summary]).andThen (.concat (code.attributes.map (frames cs)))

/-- The contents of a class, then its methods with their code and frames. -/
def inspect (bytes : List UInt8) : Outcome :=
  match ClassFile.parse bytes with
  | .error e => ⟨[], some e⟩
  | .ok c =>
    (Outcome.ok c.outline.lines).andThen (.concat (c.methods.map (method c.constants)))

/-- The first place at which two byte strings differ. -/
def firstDifference (a b : List UInt8) : Nat :=
  ((a.zip b).takeWhile fun (x, y) => x = y).length

/-- Whether a class is written as it was read. -/
inductive RoundTrip where
  | same
  | differs (offset read written : Nat)
  deriving DecidableEq, Repr

def roundTrip (bytes : List UInt8) : Except Fault RoundTrip := do
  let c ← ClassFile.parse bytes
  let written := c.write
  if written = bytes then return .same
  else return .differs (firstDifference written bytes) bytes.length written.length

end ClassForge.Report
