import SceneScript.Number.Rounding
import SceneScript.Scene.Modifier

namespace SceneScript

inductive UnaryFunction where
  | sin
  | cos
  | tan
  | asin
  | acos
  | atan
  | sqrt
  | abs
  | floor
  | ceil
  | round
  | radians
  | degrees
  deriving DecidableEq, Repr

namespace UnaryFunction

def all : List UnaryFunction :=
  [sin, cos, tan, asin, acos, atan, sqrt, abs, floor, ceil, round, radians, degrees]

def name : UnaryFunction → String
  | sin => "sin"
  | cos => "cos"
  | tan => "tan"
  | asin => "asin"
  | acos => "acos"
  | atan => "atan"
  | sqrt => "sqrt"
  | abs => "abs"
  | floor => "floor"
  | ceil => "ceil"
  | round => "round"
  | radians => "radians"
  | degrees => "degrees"

def apply : UnaryFunction → Float → Float
  | sin => Float.sin
  | cos => Float.cos
  | tan => Float.tan
  | asin => Float.asin
  | acos => Float.acos
  | atan => Float.atan
  | sqrt => Float.sqrt
  | abs => Float.abs
  | floor => Number.floor
  | ceil => Number.ceil
  | round => Number.nearest
  | radians => SceneScript.radians
  | degrees => fun x => x * (180 / 3.141592653589793)

end UnaryFunction

inductive BinaryFunction where
  | atan2
  | pow
  | min
  | max
  deriving DecidableEq, Repr

namespace BinaryFunction

def all : List BinaryFunction := [atan2, pow, min, max]

def name : BinaryFunction → String
  | atan2 => "atan2"
  | pow => "pow"
  | min => "min"
  | max => "max"

def apply : BinaryFunction → Float → Float → Float
  | atan2 => Float.atan2
  | pow => Float.pow
  | min => Number.least
  | max => Number.greatest

end BinaryFunction

inductive VectorFunction where
  | vec3
  | add
  | sub
  | scale
  | dot
  | cross
  | length
  | normalize
  | distance
  deriving DecidableEq, Repr

namespace VectorFunction

def all : List VectorFunction := [vec3, add, sub, scale, dot, cross, length, normalize, distance]

def name : VectorFunction → String
  | vec3 => "vec3"
  | add => "add"
  | sub => "sub"
  | scale => "scale"
  | dot => "dot"
  | cross => "cross"
  | length => "length"
  | normalize => "normalize"
  | distance => "distance"

def arity : VectorFunction → Nat
  | vec3 => 3
  | length => 1
  | normalize => 1
  | _ => 2

end VectorFunction

inductive RandomFunction where
  | random
  | range
  | int
  deriving DecidableEq, Repr

namespace RandomFunction

def all : List RandomFunction := [random, range, int]

def name : RandomFunction → String
  | random => "random"
  | range => "range"
  | int => "int"

def arity : RandomFunction → Nat
  | random => 0
  | _ => 2

end RandomFunction

inductive Builtin where
  | unary (function : UnaryFunction)
  | binary (function : BinaryFunction)
  | clamp
  | lerp
  | vector (function : VectorFunction)
  | random (function : RandomFunction)
  deriving DecidableEq, Repr

namespace Builtin

def name : Builtin → String
  | unary function => function.name
  | binary function => function.name
  | clamp => "clamp"
  | lerp => "lerp"
  | vector function => function.name
  | random function => function.name

def arity : Builtin → Nat
  | unary _ => 1
  | binary _ => 2
  | clamp => 3
  | lerp => 3
  | vector function => function.arity
  | random function => function.arity

def isRandom : Builtin → Bool
  | random _ => true
  | _ => false

end Builtin
end SceneScript
