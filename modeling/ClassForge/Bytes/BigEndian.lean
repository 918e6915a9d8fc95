/-!
Numbers as bytes, highest first. A number too large for its field keeps its low bytes.
-/

namespace ClassForge.Bytes

/-- The lowest `k` digits of `n` in base 256. -/
def bigEndian : Nat → Nat → List UInt8
  | 0, _ => []
  | k + 1, n => bigEndian k (n / 256) ++ [UInt8.ofNat n]

/-- The number with these digits in base 256. -/
def value (bytes : List UInt8) : Nat := bytes.foldl (fun n b => n * 256 + b.toNat) 0

def u8 (v : UInt8) : List UInt8 := [v]

def u16 (v : UInt16) : List UInt8 := bigEndian 2 v.toNat

def u32 (v : UInt32) : List UInt8 := bigEndian 4 v.toNat

def u64 (v : UInt64) : List UInt8 := bigEndian 8 v.toNat

/-- A list behind the number of its elements in 16 bits. -/
def counted (write : α → List UInt8) (as : List α) : List UInt8 :=
  bigEndian 2 as.length ++ as.flatMap write

/-- Bytes behind their number in 32 bits. -/
def sized (bytes : List UInt8) : List UInt8 := bigEndian 4 bytes.length ++ bytes

end ClassForge.Bytes
