import SceneScript.Value
import SceneScript.Random.Draw

namespace SceneScript

/-- Why a library function refuses its arguments. -/
inductive Refusal where
  | argumentCount (function : String) (expected got : Nat)
  | notANumber (function got : String)
  | notAVector (function got : String)
  | reversedBounds (low high : Float)
  | emptyRange (low high : Float)
  | noInteger (low high : Int)
  | zeroLength

def Refusal.message : Refusal → String
  | argumentCount function expected got =>
    s!"{function}() takes {expected} argument(s), got {got}"
  | notANumber function got => s!"{function}() expects numbers, got {got}"
  | notAVector function got => s!"{function}() expects vectors, got {got}"
  | reversedBounds low high =>
    s!"clamp() lower bound {Number.display low} exceeds upper bound {Number.display high}"
  | emptyRange low high =>
    s!"range() needs lo < hi, got {Number.display low} and {Number.display high}"
  | noInteger low high => s!"int() has no integer between {low} and {high}"
  | zeroLength => "normalize() of a zero-length vector"

inductive CallFailure where
  | refused (reason : Refusal)
  | breakdown

abbrev CallResult (α : Type) := Except CallFailure α

namespace Builtin
open SceneScript.Random (Generator)

def refuse {α : Type} (reason : Refusal) : CallResult α := .error (.refused reason)

def number (function : String) (value : Value) : CallResult Float :=
  match value.number? with
  | some x => .ok x
  | none => refuse (.notANumber function value.type)

def vector3 (function : String) (value : Value) : CallResult Vector3 :=
  match value.vector? with
  | some v => .ok v
  | none => refuse (.notAVector function value.type)

/-- `x` held between two bounds that are in order. Bounds that cannot be compared break down. -/
def callClamp (x low high : Float) : CallResult Value :=
  if high < low then refuse (.reversedBounds low high)
  else if low ≤ high then .ok (.number (Number.clamp low high x))
  else .error .breakdown

def callVector : VectorFunction → List Value → CallResult Value
  | .vec3, [a, b, c] => do
    return .vector ⟨← number "vec3" a, ← number "vec3" b, ← number "vec3" c⟩
  | .add, [a, b] => do return .vector ((← vector3 "add" a).add (← vector3 "add" b))
  | .sub, [a, b] => do return .vector ((← vector3 "sub" a).sub (← vector3 "sub" b))
  | .scale, [a, b] => do return .vector ((← vector3 "scale" a).scale (← number "scale" b))
  | .dot, [a, b] => do return .number ((← vector3 "dot" a).dot (← vector3 "dot" b))
  | .cross, [a, b] => do return .vector ((← vector3 "cross" a).cross (← vector3 "cross" b))
  | .length, [a] => do return .number (← vector3 "length" a).length
  | .normalize, [a] => do
    let v ← vector3 "normalize" a
    if v.length == 0 then refuse .zeroLength else return .vector (v.map (· / v.length))
  | .distance, [a, b] => do
    return .number ((← vector3 "distance" a).sub (← vector3 "distance" b)).length
  | function, args => refuse (.argumentCount function.name function.arity args.length)

/-- A number in [low, high). The distance between the bounds has to be finite. -/
def callRange (g : Generator) (low high : Float) : CallResult (Value × Generator) :=
  if high ≤ low then refuse (.emptyRange low high)
  else if low < high ∧ (high - low).isFinite then
    match g.between low high with
    | some (x, g) => .ok (.number x, g)
    | none => .error .breakdown
  else .error .breakdown

def leastInteger : Int := -Nat.pow 2 63
def greatestInteger : Int := Nat.pow 2 63 - 1

/-- A whole number from `low` to `high`, both included. Bounds of more than 64 bits are held within
these. -/
def callInt (g : Generator) (low high : Float) : CallResult (Value × Generator) :=
  let first := Number.toIntBetween leastInteger greatestInteger (Number.ceil low)
  let last := Number.toIntBetween leastInteger greatestInteger (Number.floor high)
  if last < first then refuse (.noInteger first last)
  else match g.intBetween first last with
    | some (n, g) => .ok (.number (Number.ofInt n), g)
    | none => .error .breakdown

def callRandom (g : Generator) : RandomFunction → List Value → CallResult (Value × Generator)
  | .random, [] =>
    let (x, g) := g.unit
    .ok (.number x, g)
  | .range, [a, b] => do callRange g (← number "range" a) (← number "range" b)
  | .int, [a, b] => do callInt g (← number "int" a) (← number "int" b)
  | function, args => refuse (.argumentCount function.name function.arity args.length)

def callFixed : Builtin → List Value → CallResult Value
  | unary function, [a] => do return .number (function.apply (← number function.name a))
  | binary function, [a, b] => do
    return .number (function.apply (← number function.name a) (← number function.name b))
  | clamp, [a, b, c] => do
    callClamp (← number "clamp" a) (← number "clamp" b) (← number "clamp" c)
  | lerp, [a, b, c] => do
    let x ← number "lerp" a
    let y ← number "lerp" b
    let t ← number "lerp" c
    return .number (x + (y - x) * t)
  | vector function, args => callVector function args
  | function, args => refuse (.argumentCount function.name function.arity args.length)

def call (f : Builtin) (args : List Value) (g : Generator) : CallResult (Value × Generator) :=
  match f with
  | random function => callRandom g function args
  | fixed => (callFixed fixed args).map (·, g)

end Builtin
end SceneScript
