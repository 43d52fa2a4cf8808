import SceneScript.Number.Shortest
import SceneScript.Number.Rounding

namespace SceneScript.Number

structure Style where
  /-- Whether a whole number ends in a point and a zero. -/
  pointed : Bool
  /-- The powers of ten of a first digit that are written out; without a bound all are. -/
  positional : Option (Int × Int)
  tie : Tie

def Style.display : Style where
  pointed := false
  positional := none
  tie := .away

def Style.exchange : Style where
  pointed := true
  positional := some (-5, 15)
  tie := .toEven

def digits (n : Nat) : List Char := Nat.toDigits 10 n

def Decimal.positional (pointed : Bool) (d : Decimal) : List Char :=
  if 0 ≤ d.exponent then
    digits (d.coefficient * Nat.pow 10 d.exponent.toNat) ++ if pointed then ['.', '0'] else []
  else
    let places := (-d.exponent).toNat
    let padded := List.replicate (places + 1 - (digits d.coefficient).length) '0' ++
      digits d.coefficient
    padded.take (padded.length - places) ++ '.' :: padded.drop (padded.length - places)

def Decimal.scientific (d : Decimal) : List Char :=
  let power := d.exponent + (digits d.coefficient).length - 1
  let fraction := (digits d.coefficient).drop 1
  (digits d.coefficient).take 1 ++ (if fraction.isEmpty then [] else '.' :: fraction) ++
    'e' :: (if power < 0 then '-' else '+') :: digits power.natAbs

def Style.magnitude (style : Style) (d : Decimal) : List Char :=
  let power := d.exponent + (digits d.coefficient).length - 1
  match style.positional with
  | some (first, last) =>
    if d.coefficient ≠ 0 ∧ (power < first ∨ last < power) then d.scientific
    else d.positional style.pointed
  | none => d.positional style.pointed

def Style.finite (style : Style) (d : Dyadic) : String :=
  String.ofList ((if d.negative then ['-'] else []) ++
    style.magnitude (shortest style.tie d.mantissa d.exponent))

def display (x : Float) : String :=
  match View.ofFloat x with
  | .nan => "NaN"
  | .infinite negative => if negative then "-inf" else "inf"
  | .finite d => Style.display.finite d

end SceneScript.Number
