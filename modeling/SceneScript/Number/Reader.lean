import SceneScript.Number.Written

namespace SceneScript.Number

def ofDigits (text : List Char) : Nat := text.foldl (fun n c => 10 * n + (c.toNat - '0'.toNat)) 0

/-- The float nearest to a decimal. Beyond 10^310 it is infinite and below 10^-330 it is zero,
whatever the digits. -/
def ofDecimal (d : Decimal) : Float :=
  let size := digitCount d.coefficient + d.exponent
  if d.coefficient = 0 ∨ size < -330 then 0
  else if 310 < size then infinity
  else Float.ofScientific d.coefficient (d.exponent < 0) d.exponent.natAbs

def readPower : List Char → Option Int
  | [] => some 0
  | mark :: rest =>
    if mark.toLower = 'e' then
      let (negative, text) := match rest with
        | '-' :: text => (true, text)
        | '+' :: text => (false, text)
        | text => (false, text)
      if text.isEmpty || !text.all Char.isDigit then none
      else some (if negative then -ofDigits text else ofDigits text)
    else none

/-- The digits at the start of a text, around at most one point: those before it, those after it,
and what follows. -/
def splitDigits (text : List Char) : List Char × List Char × List Char :=
  let whole := text.takeWhile Char.isDigit
  match text.dropWhile Char.isDigit with
  | '.' :: rest => (whole, rest.takeWhile Char.isDigit, rest.dropWhile Char.isDigit)
  | rest => (whole, [], rest)

def readMagnitude (text : List Char) : Option Float :=
  let word := String.ofList (text.map Char.toLower)
  if word = "inf" ∨ word = "infinity" then some infinity
  else if word = "nan" then some nan
  else
    let (whole, fraction, rest) := splitDigits text
    if whole.isEmpty && fraction.isEmpty then none
    else (readPower rest).map fun power =>
      ofDecimal ⟨ofDigits (whole ++ fraction), power - fraction.length⟩

def read? (text : List Char) : Option Float :=
  match text with
  | '-' :: rest => (readMagnitude rest).map (- ·)
  | '+' :: rest => readMagnitude rest
  | rest => readMagnitude rest

end SceneScript.Number
