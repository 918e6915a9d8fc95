/-!
Sequences addressed by slot. An element takes one or more slots and stands at the sum of the widths
of those before it; the constant pool, the local variables and the operand stack are all numbered
this way.
-/

namespace ClassForge

/-- The number of slots that an element takes. -/
class Wide (α : Type) where
  width : α → Nat

/-- The elements with their slots. Slots are counted without end here. A machine keeps them in words:
`push?` and `extend?` stop where these end, and a sequence that starts at 0 or 1 never comes there, since
its elements take memory. -/
structure Slots (α : Type) where
  /-- The slot of the first element: 1 in a constant pool, 0 elsewhere. -/
  start : Nat
  /-- The elements with their slots, newest first. -/
  newest : List (Nat × α)
  /-- The slot at which the next element will stand. -/
  stop : Nat
  deriving DecidableEq, Repr

namespace Slots

variable {α : Type}

/-- The greatest slot that a machine word can hold. -/
def maxSlot : Nat := 18446744073709551615

/-- How far `slot` lies behind `other`. Both are read as signed machine words, and there is no result
where the distance does not fit into one. -/
def distance? (slot other : Nat) : Option Int64 :=
  let distance := (Int64.ofNat slot).toInt - (Int64.ofNat other).toInt
  if -9223372036854775808 ≤ distance ∧ distance ≤ 9223372036854775807 then
    some (Int64.ofInt distance)
  else none

def emptyAt (start : Nat) : Slots α := ⟨start, [], start⟩

def empty : Slots α := emptyAt 0

instance : Inhabited (Slots α) := ⟨empty⟩

/-- The elements with their slots, oldest first. -/
def toList (s : Slots α) : List (Nat × α) := s.newest.reverse

def elements (s : Slots α) : List α := s.toList.map Prod.snd

/-- The number of elements, whatever their widths. -/
def length (s : Slots α) : Nat := s.newest.length

def isEmpty (s : Slots α) : Bool := s.newest.isEmpty

def totalWidth (s : Slots α) : Nat := s.stop - s.start

def last? (s : Slots α) : Option α := s.newest.head?.map Prod.snd

/-- Takes away the newest element; its slot becomes the next free one. -/
def pop? (s : Slots α) : Option ((Nat × α) × Slots α) :=
  match s.newest with
  | [] => none
  | (slot, a) :: rest => some ((slot, a), { s with newest := rest, stop := slot })

/-- Slots fall along the list, so the search ends at the first one that is not above `slot`. -/
def find? (slot : Nat) : List (Nat × α) → Option α
  | [] => none
  | (o, a) :: rest => if slot < o then find? slot rest else if o = slot then some a else none

/-- The element that starts at `slot`; there is none inside a wide element. -/
def get? (s : Slots α) (slot : Nat) : Option α := find? slot s.newest

variable [Wide α]

/-- Adds an element at the next free slot and gives that slot. -/
def push (s : Slots α) (a : α) : Nat × Slots α :=
  (s.stop, { s with newest := (s.stop, a) :: s.newest, stop := s.stop + Wide.width a })

/-- As `push`, but without a result where the next free slot would not fit into a machine word. -/
def push? (s : Slots α) (a : α) : Option (Nat × Slots α) :=
  if s.stop + Wide.width a ≤ maxSlot then some (s.push a) else none

def extend (s : Slots α) (as : List α) : Slots α := as.foldl (fun s a => (s.push a).2) s

def extend? (s : Slots α) (as : List α) : Option (Slots α) :=
  as.foldlM (fun s a => (s.push? a).map Prod.snd) s

def ofList (as : List α) : Slots α := empty.extend as

def replace? (slot : Nat) (a : α) : List (Nat × α) → Option (α × List (Nat × α))
  | [] => none
  | (o, b) :: rest =>
    if slot < o then (replace? slot a rest).map fun (old, rest) => (old, (o, b) :: rest)
    else if o = slot ∧ Wide.width b = Wide.width a then some (b, (o, a) :: rest)
    else none

/-- Puts `a` in the place of an element of the same width and gives back the old one. -/
def set? (s : Slots α) (slot : Nat) (a : α) : Option (α × Slots α) :=
  (replace? slot a s.newest).map fun (old, newest) => (old, { s with newest })

end Slots

end ClassForge
