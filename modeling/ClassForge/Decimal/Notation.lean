import ClassForge.Decimal.Shortest

/-!
Floating-point numbers as text: the shortest digits, positional from 1e-4 up to 1e16 and with an
exponent elsewhere.
-/

namespace ClassForge.Decimal

/-- Positional text of `digits`, the point standing after the first `point` of them. -/
def positional (digits : List Char) (point : Int) : List Char :=
  if point ≤ 0 then '0' :: '.' :: List.replicate (-point).toNat '0' ++ digits
  else if digits.length ≤ point.toNat then
    digits ++ List.replicate (point.toNat - digits.length) '0' ++ ['.', '0']
  else digits.take point.toNat ++ '.' :: digits.drop point.toNat

/-- Text with one digit before the point and the exponent behind an `e`. -/
def exponential (digits : List Char) (point : Int) : List Char :=
  let tail := match digits.drop 1 with
    | [] => []
    | rest => '.' :: rest
  digits.take 1 ++ tail ++ 'e' :: (toString (point - 1)).toList

def Scientific.text (s : Scientific) : List Char :=
  let digits := Nat.toDigits 10 s.digits
  let point := digits.length + s.exponent
  if -3 ≤ point ∧ point ≤ 16 then positional digits point else exponential digits point

/-- The text of a bit pattern; a NaN shows neither sign nor payload. -/
def text (f : Binary) (bits : Nat) : String :=
  let unsigned := match f.magnitude bits with
    | .nan => none
    | .infinite => some "inf".toList
    | .zero => some "0.0".toList
    | .finite m e lowest => some (shortest m e lowest).text
  match unsigned with
  | none => "NaN"
  | some digits => String.ofList (if f.isNegative bits then '-' :: digits else digits)

end ClassForge.Decimal
