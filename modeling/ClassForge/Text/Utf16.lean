/-!
UTF-16: characters as one unit or as a pair of surrogates.
-/

namespace ClassForge.Text.Utf16

def ofChar (c : Char) : List UInt16 :=
  if c.toNat < 0x10000 then [UInt16.ofNat c.toNat]
  else
    [UInt16.ofNat (0xD800 + (c.toNat - 0x10000) / 0x400),
     UInt16.ofNat (0xDC00 + (c.toNat - 0x10000) % 0x400)]

def encode (s : String) : List UInt16 := s.toList.flatMap ofChar

def IsHigh (u : UInt16) : Prop := 0xD800 ≤ u.toNat ∧ u.toNat < 0xDC00

def IsLow (u : UInt16) : Prop := 0xDC00 ≤ u.toNat ∧ u.toNat < 0xE000

instance (u : UInt16) : Decidable (IsHigh u) := inferInstanceAs (Decidable (_ ∧ _))

instance (u : UInt16) : Decidable (IsLow u) := inferInstanceAs (Decidable (_ ∧ _))

/-- The character of a high and a low surrogate. -/
def joined (high low : UInt16) : Char :=
  Char.ofNat (0x10000 + (high.toNat - 0xD800) * 0x400 + (low.toNat - 0xDC00))

/-- Characters read so far, newest first, followed by those of `units`. -/
def decodeOnto (acc : List Char) : List UInt16 → Option (List Char)
  | [] => some acc.reverse
  | u :: rest =>
    if IsLow u then none
    else if IsHigh u then
      match rest with
      | [] => none
      | v :: rest => if IsLow v then decodeOnto (joined u v :: acc) rest else none
    else decodeOnto (Char.ofNat u.toNat :: acc) rest

/-- Fails exactly on an unpaired surrogate. -/
def decode (units : List UInt16) : Option String :=
  (decodeOnto [] units).map String.ofList

end ClassForge.Text.Utf16
