import ClassForge.Bytes.BigEndian
import ClassForge.Bytes.Fault

/-!
Readers: steps over a byte list that know how far they have come, so that a fault names its byte.
-/

namespace ClassForge

/-- A place in the input: what is left, and how many bytes stand before it. -/
structure Cursor where
  position : Nat
  rest : List UInt8

def Cursor.atStart (bytes : List UInt8) : Cursor := ⟨0, bytes⟩

abbrev Reader := StateT Cursor (Except Fault)

namespace Reader

variable {α : Type}

def position : Reader Nat := do return (← get).position

def failAt (offset : Nat) (kind : FaultKind) : Reader α := throw ⟨offset, kind⟩

/-- Decides `n ≤ as.length` in `n` steps. -/
def hasAtLeast (n : Nat) (as : List α) : Bool :=
  match n with
  | 0 => true
  | n + 1 => !(as.drop n).isEmpty

/-- The next `n` bytes; the field that they belong to is named if the input is too short. -/
def bytes (field : String) (n : Nat) : Reader (List UInt8) := fun c =>
  if hasAtLeast n c.rest then .ok (c.rest.take n, ⟨c.position + n, c.rest.drop n⟩)
  else .error ⟨c.position, .unexpectedEof field⟩

def number (field : String) (width : Nat) : Reader Nat := Bytes.value <$> bytes field width

def u8 (field : String) : Reader UInt8 := UInt8.ofNat <$> number field 1

def u16 (field : String) : Reader UInt16 := UInt16.ofNat <$> number field 2

def u32 (field : String) : Reader UInt32 := UInt32.ofNat <$> number field 4

def u64 (field : String) : Reader UInt64 := UInt64.ofNat <$> number field 8

/-- Reads `n` values, onto those read before, newest first. -/
def timesOnto (read : Reader α) : Nat → List α → Cursor → Except Fault (List α × Cursor)
  | 0, acc, c => .ok (acc.reverse, c)
  | n + 1, acc, c =>
    match read c with
    | .error e => .error e
    | .ok (a, c) => timesOnto read n (a :: acc) c

def times (n : Nat) (read : Reader α) : Reader (List α) := timesOnto read n []

/-- A list behind the number of its elements in 16 bits. -/
def counted (read : Reader α) : Reader (List α) := do
  let n ← u16 "sequence length"
  times n.toNat read

/-- Fails unless everything was read. -/
def finish : Reader Unit := fun c =>
  if c.rest.isEmpty then .ok ((), c) else .error ⟨c.position, .trailingBytes c.rest.length⟩

/-- Reads a whole input. -/
def run (read : Reader α) (bytes : List UInt8) : Except Fault α :=
  ((do let a ← read; finish; return a) : Reader α).run' (Cursor.atStart bytes)

end Reader

end ClassForge
