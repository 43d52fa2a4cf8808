import SceneScript.Number.Binary

namespace SceneScript.Number

/-- The number `coefficient` · 10 ^ `exponent`. -/
structure Decimal where
  coefficient : Nat
  exponent : Int
  deriving DecidableEq, Repr, Inhabited

/-- Which of two equally near decimals is taken. -/
inductive Tie where
  | away
  | toEven
  deriving DecidableEq

def digitCount (n : Nat) : Nat := (Nat.toDigits 10 n).length

/-- The reals that round to a float, in a unit in which the float and the ends are whole. -/
structure Interval where
  value : Nat
  low : Nat
  high : Nat
  closed : Bool

def Interval.holds (i : Interval) (n : Nat) : Bool :=
  (i.low < n && n < i.high) || (i.closed && (n == i.low || n == i.high))

def Interval.multiple? (i : Interval) (tie : Tie) (unit : Nat) : Option Nat :=
  let below := i.value / unit
  let part := i.value % unit
  let preferAbove :=
    unit < 2 * part || (unit == 2 * part && (tie == .away || below % 2 == 1))
  match i.holds (below * unit), i.holds ((below + 1) * unit) with
  | true, true => some (if preferAbove then below + 1 else below)
  | true, false => some below
  | false, true => some (below + 1)
  | false, false => none

def Interval.coarsest (i : Interval) (tie : Tie) : Nat → Decimal
  | 0 => ⟨i.value, 0⟩
  | k + 1 =>
    match i.multiple? tie (Nat.pow 10 (k + 1)) with
    | some n => ⟨n, (k + 1 : Nat)⟩
    | none => i.coarsest tie k

/-- The interval of a mantissa and exponent, and the power of ten that its unit is. Below a power
of two the neighbour is half as far away as above it. -/
def Interval.ofDyadic (mantissa : Nat) (exponent : Int) : Interval × Int :=
  let quarter := exponent - 2
  let scale := if 0 ≤ quarter then Nat.pow 2 quarter.toNat else Nat.pow 5 (-quarter).toNat
  let narrow := mantissa = Nat.pow 2 52 ∧ -1074 < exponent
  ({ value := 4 * mantissa * scale
     low := (4 * mantissa - if narrow then 1 else 2) * scale
     high := (4 * mantissa + 2) * scale
     closed := mantissa % 2 == 0 }, min quarter 0)

/-- Moves the zeros at the end of the coefficient into the exponent; `fuel` bounds their number. -/
def Decimal.trimZeros (d : Decimal) : Nat → Decimal
  | 0 => d
  | fuel + 1 =>
    if d.coefficient ≠ 0 ∧ d.coefficient % 10 = 0 then
      Decimal.trimZeros ⟨d.coefficient / 10, d.exponent + 1⟩ fuel
    else d

def shortest (tie : Tie) (mantissa : Nat) (exponent : Int) : Decimal :=
  if mantissa = 0 then ⟨0, 0⟩
  else
    let (interval, power) := Interval.ofDyadic mantissa exponent
    let found := interval.coarsest tie (digitCount interval.value - 1)
    Decimal.trimZeros ⟨found.coefficient, found.exponent + power⟩ (digitCount found.coefficient)

end SceneScript.Number
