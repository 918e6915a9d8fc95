/-!
The shortest decimal that reads back as a given binary floating-point number. All arithmetic is
exact: the reals that round to the number form an interval, and the answer is the point nearest to
the number on the coarsest decimal grid with a point in that interval.
-/

namespace ClassForge.Decimal

/-- A binary interchange format. -/
structure Binary where
  fractionBits : Nat
  exponentBits : Nat

def single : Binary := ⟨23, 8⟩

def double : Binary := ⟨52, 11⟩

/-- What a bit pattern stands for; a finite magnitude is `mantissa * 2 ^ exponent`, and `lowest` says
that its neighbour below is nearer than the one above. -/
inductive Magnitude where
  | nan
  | infinite
  | zero
  | finite (mantissa : Nat) (exponent : Int) (lowest : Bool)

namespace Binary

def isNegative (f : Binary) (bits : Nat) : Bool :=
  bits / Nat.pow 2 (f.fractionBits + f.exponentBits) % 2 = 1

def magnitude (f : Binary) (bits : Nat) : Magnitude :=
  let fraction := bits % Nat.pow 2 f.fractionBits
  let exponent := bits / Nat.pow 2 f.fractionBits % Nat.pow 2 f.exponentBits
  let least : Int := 2 - Nat.pow 2 (f.exponentBits - 1) - f.fractionBits
  if exponent = Nat.pow 2 f.exponentBits - 1 then if fraction = 0 then .infinite else .nan
  else if exponent = 0 then if fraction = 0 then .zero else .finite fraction least false
  else
    .finite (Nat.pow 2 f.fractionBits + fraction) (least + (exponent - 1 : Nat))
      (fraction = 0 && exponent ≠ 1)

end Binary

/-- The decimal `digits * 10 ^ exponent`. -/
structure Scientific where
  digits : Nat
  exponent : Int

/-- The grid of multiples of `10 ^ k` against the number `value / 4 * 2 ^ e` and its interval from
`low` to `high` in the same unit: the nearest grid point inside, a half going up. -/
def onGrid (low value high : Nat) (closed : Bool) (e k : Int) : Option Nat :=
  let scale := Nat.pow 2 (e - 2).toNat * Nat.pow 10 (-k).toNat
  let unit := Nat.pow 2 (2 - e).toNat * Nat.pow 10 k.toNat
  let below := value * scale / unit
  let inside (d : Nat) : Bool :=
    if closed then low * scale ≤ d * unit && d * unit ≤ high * scale
    else low * scale < d * unit && d * unit < high * scale
  match inside below, inside (below + 1) with
  | true, true =>
    if 2 * (value * scale - below * unit) < unit then some below else some (below + 1)
  | true, false => some below
  | false, true => some (below + 1)
  | false, false => none

/-- Tries grids ever finer, `tries` of them from `10 ^ k` on. -/
def searchGrids (low value high : Nat) (closed : Bool) (e : Int) : Nat → Int → Scientific
  | 0, k => ⟨value, k⟩
  | tries + 1, k =>
    match onGrid low value high closed e k with
    | some d => ⟨d, k⟩
    | none => searchGrids low value high closed e tries (k - 1)

/-- Twenty grids below the power of ten above the number hold every shortest decimal, since
seventeen digits tell all doubles apart. -/
def shortest (mantissa : Nat) (exponent : Int) (lowest : Bool) : Scientific :=
  let low := 4 * mantissa - (if lowest then 1 else 2)
  let magnitude : Int := Nat.log2 mantissa + exponent
  let k := (magnitude + 1) * 30103 / 100000 + 1
  searchGrids low (4 * mantissa) (4 * mantissa + 2) (mantissa % 2 = 0) exponent 22 k

end ClassForge.Decimal
