import SceneScript.Number.Binary

namespace SceneScript.Number

/-- Which whole number a number between two of them becomes. -/
inductive Rounding where
  | down
  | up
  | towardZero
  | nearest

/-- Whether a magnitude that is `part` / `unit` above a whole number moves to the next one.
A half moves. -/
def Rounding.movesOut (r : Rounding) (negative : Bool) (part unit : Nat) : Bool :=
  match r with
  | .down => negative && part ≠ 0
  | .up => !negative && part ≠ 0
  | .towardZero => false
  | .nearest => unit ≤ 2 * part

/-- The magnitude of the whole number that `d` is rounded to; its sign is that of `d`. -/
def Dyadic.roundTo (r : Rounding) (d : Dyadic) : Nat :=
  if 0 ≤ d.exponent then d.mantissa * Nat.pow 2 d.exponent.toNat
  else
    let unit := Nat.pow 2 (-d.exponent).toNat
    let whole := d.mantissa / unit
    if r.movesOut d.negative (d.mantissa % unit) unit then whole + 1 else whole

/-- Rounds to a whole number. What is none (or too large to have a fraction) stays as it is. -/
def round (r : Rounding) (x : Float) : Float :=
  match View.ofFloat x with
  | .finite d => if 0 ≤ d.exponent then x else Dyadic.toFloat ⟨d.negative, d.roundTo r, 0⟩
  | _ => x

def floor : Float → Float := round .down
def ceil : Float → Float := round .up
def truncate : Float → Float := round .towardZero
def nearest : Float → Float := round .nearest

def toInt? (x : Float) : Option Int :=
  match View.ofFloat x with
  | .finite d =>
    if 0 ≤ d.exponent ∨ d.mantissa % Nat.pow 2 (-d.exponent).toNat = 0 then
      let magnitude := d.roundTo .towardZero
      some (if d.negative then -magnitude else magnitude)
    else none
  | _ => none

/-- The whole part of a number, held between `least` and `most`; zero for what is no number. -/
def toIntBetween (least most : Int) (x : Float) : Int :=
  match View.ofFloat x with
  | .nan => 0
  | .infinite negative => if negative then least else most
  | .finite d =>
    let magnitude := d.roundTo .towardZero
    max least (min most (if d.negative then -magnitude else magnitude))

def ofInt (n : Int) : Float :=
  let magnitude := Float.ofScientific n.natAbs false 0
  if n < 0 then -magnitude else magnitude

/-- The remainder of a division toward zero: exact, and with the sign of `x`. -/
def remainder (x y : Float) : Float :=
  match View.ofFloat x, View.ofFloat y with
  | .finite a, .finite b =>
    let exponent := min a.exponent b.exponent
    let m := a.mantissa * Nat.pow 2 (a.exponent - exponent).toNat
    let n := b.mantissa * Nat.pow 2 (b.exponent - exponent).toNat
    if n = 0 then nan else Dyadic.toFloat ⟨a.negative, m % n, exponent⟩
  | .finite _, .infinite _ => x
  | _, _ => nan

/-- The lesser of two numbers; one that is no number gives way. Of two equal ones, which may be
zeros of either sign, the second is taken. -/
def least (x y : Float) : Float := if y.isNaN then x else if x < y then x else y

def greatest (x y : Float) : Float := if y.isNaN then x else if y < x then x else y

def clamp (low high x : Float) : Float :=
  let raised := if x < low then low else x
  if high < raised then high else raised

end SceneScript.Number
