namespace SceneScript.Number

/-- The number ± `mantissa` · 2 ^ `exponent`. The sign of zero counts. -/
structure Dyadic where
  negative : Bool
  mantissa : Nat
  exponent : Int
  deriving DecidableEq, Repr, Inhabited

inductive View where
  | nan
  | infinite (negative : Bool)
  | finite (value : Dyadic)
  deriving DecidableEq, Repr

/-- Splits the 64 bits into sign, eleven bits of exponent and 52 bits of fraction. -/
def View.ofBits (bits : Nat) : View :=
  let negative := bits / Nat.pow 2 63 % 2 == 1
  let exponent : Nat := bits / Nat.pow 2 52 % Nat.pow 2 11
  let fraction := bits % Nat.pow 2 52
  if exponent = 2047 then
    if fraction = 0 then .infinite negative else .nan
  else if exponent = 0 then .finite ⟨negative, fraction, -1074⟩
  else .finite ⟨negative, Nat.pow 2 52 + fraction, (exponent : Int) - 1075⟩

def View.ofFloat (x : Float) : View := View.ofBits x.toBits.toNat

/-- The float of a dyadic number that has one. The mantissa is moved to 53 bits, or to as many as
the least exponent leaves; a number between two floats loses its last bits. -/
def Dyadic.toFloat (d : Dyadic) : Float :=
  let sign := if d.negative then Nat.pow 2 63 else 0
  if d.mantissa = 0 then Float.ofBits (UInt64.ofNat sign)
  else
    let exponent := max (d.exponent + d.mantissa.log2 - 52) (-1074)
    let mantissa :=
      if exponent ≤ d.exponent then d.mantissa * Nat.pow 2 (d.exponent - exponent).toNat
      else d.mantissa / Nat.pow 2 (exponent - d.exponent).toNat
    let bits :=
      if mantissa < Nat.pow 2 52 then mantissa
      else (exponent + 1075).toNat * Nat.pow 2 52 + (mantissa - Nat.pow 2 52)
    Float.ofBits (UInt64.ofNat (sign + bits))

def infinity : Float := Float.ofBits 0x7FF0000000000000

def nan : Float := Float.ofBits 0x7FF8000000000000

end SceneScript.Number
