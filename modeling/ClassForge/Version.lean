import ClassForge.Bytes.Reader

/-!
Class file versions, ordered by major number first. The minor number comes first in the file.
-/

namespace ClassForge

structure Version where
  major : UInt16
  minor : UInt16
  deriving DecidableEq, Repr

namespace Version

/-- The first version in which every method needs a stack map table; new classes have it. -/
def java8 : Version := ⟨52, 0⟩

def java11 : Version := ⟨55, 0⟩

instance : Inhabited Version := ⟨java8⟩

def le (a b : Version) : Bool :=
  a.major.toNat < b.major.toNat || (a.major == b.major && a.minor.toNat ≤ b.minor.toNat)

def sort (versions : List Version) : List Version := versions.mergeSort le

def write (v : Version) : List UInt8 := Bytes.u16 v.minor ++ Bytes.u16 v.major

def read : Reader Version := do
  let minor ← Reader.u16 "minor version"
  let major ← Reader.u16 "major version"
  return ⟨major, minor⟩

def outline (v : Version) : Outline :=
  .record "Version"
    [.field "major_version" (.num v.major.toNat), .field "minor_version" (.num v.minor.toNat)]

end Version

end ClassForge
