import ClassForge.Text.Utf16

/-!
Modified UTF-8, the text encoding of class files: each UTF-16 unit by itself takes one, two or three
bytes, and the unit 0 takes two, so that no encoded text holds a zero byte. Reading is strict: it
accepts only what writing produces.
-/

namespace ClassForge.Text.ModifiedUtf8

def encodeUnit (u : UInt16) : List UInt8 :=
  let n := u.toNat
  if 0 < n ∧ n < 0x80 then [UInt8.ofNat n]
  else if n < 0x800 then
    [UInt8.ofNat (n >>> 6 &&& 0x1F ||| 0xC0), UInt8.ofNat (n &&& 0x3F ||| 0x80)]
  else
    [UInt8.ofNat (n >>> 12 &&& 0x0F ||| 0xE0), UInt8.ofNat (n >>> 6 &&& 0x3F ||| 0x80),
     UInt8.ofNat (n &&& 0x3F ||| 0x80)]

def encodeUnits (units : List UInt16) : List UInt8 := units.flatMap encodeUnit

/-- A supplementary character is written as two surrogates of three bytes each. The first one holds the
number of the plane less one; plane 16 has no bits left in its field, so that 0 turns into 15. -/
def encodeChar (c : Char) : List UInt8 :=
  let n := c.toNat
  if 0 < n ∧ n < 0x80 then [UInt8.ofNat n]
  else if n < 0x800 then
    [UInt8.ofNat (n >>> 6 &&& 0x1F ||| 0xC0), UInt8.ofNat (n &&& 0x3F ||| 0x80)]
  else if n < 0x10000 then
    [UInt8.ofNat (n >>> 12 &&& 0x0F ||| 0xE0), UInt8.ofNat (n >>> 6 &&& 0x3F ||| 0x80),
     UInt8.ofNat (n &&& 0x3F ||| 0x80)]
  else
    [0xED, UInt8.ofNat (n >>> 16 &&& 0x0F) - 1 &&& 0x0F ||| 0xA0,
     UInt8.ofNat (n >>> 10 &&& 0x3F ||| 0x80),
     0xED, UInt8.ofNat (n >>> 6 &&& 0x0F ||| 0xB0), UInt8.ofNat (n &&& 0x3F ||| 0x80)]

def encode (s : String) : List UInt8 := s.toList.flatMap encodeChar

/-- The six bits that a continuation byte carries. -/
def continuation? (b : UInt8) : Option Nat :=
  if b.toNat &&& 0xC0 = 0x80 then some (b.toNat &&& 0x3F) else none

/-- A two-byte form of lead `b`; of the units below 0x80 only 0 is written so. -/
def pair? (b c : UInt8) : Option UInt16 := do
  let low ← continuation? c
  let n := (b.toNat &&& 0x1F) <<< 6 ||| low
  if n ≠ 0 ∧ n < 0x80 then none else some (UInt16.ofNat n)

/-- A three-byte form of lead `b`. -/
def triple? (b c d : UInt8) : Option UInt16 := do
  let mid ← continuation? c
  let low ← continuation? d
  let n := (b.toNat &&& 0x0F) <<< 12 ||| mid <<< 6 ||| low
  if n < 0x800 then none else some (UInt16.ofNat n)

/-- Units read so far, newest first, followed by those of the bytes. -/
def decodeOnto (acc : List UInt16) : List UInt8 → Option (List UInt16)
  | [] => some acc.reverse
  | b :: rest =>
    if 0 < b.toNat ∧ b.toNat < 0x80 then decodeOnto (UInt16.ofNat b.toNat :: acc) rest
    else if 0xC0 ≤ b.toNat ∧ b.toNat < 0xE0 then
      match rest with
      | c :: rest =>
        match pair? b c with
        | some u => decodeOnto (u :: acc) rest
        | none => none
      | [] => none
    else if 0xE0 ≤ b.toNat ∧ b.toNat < 0xF0 then
      match rest with
      | c :: d :: rest =>
        match triple? b c d with
        | some u => decodeOnto (u :: acc) rest
        | none => none
      | _ => none
    else none

def decodeUnits (bytes : List UInt8) : Option (List UInt16) := decodeOnto [] bytes

/-- Fails on unpaired surrogates too, which no string holds. -/
def decode (bytes : List UInt8) : Option String := decodeUnits bytes >>= Utf16.decode

end ClassForge.Text.ModifiedUtf8
