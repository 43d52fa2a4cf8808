import SceneScript.Text.Split
import SceneScript.Number.Written

namespace SceneScript

structure Vector3 where
  x : Float
  y : Float
  z : Float
  deriving BEq, Inhabited

namespace Vector3

def zero : Vector3 := ⟨0, 0, 0⟩

def splat (n : Float) : Vector3 := ⟨n, n, n⟩

def one : Vector3 := splat 1

def map (f : Float → Float) (v : Vector3) : Vector3 := ⟨f v.x, f v.y, f v.z⟩

def zip (f : Float → Float → Float) (v w : Vector3) : Vector3 := ⟨f v.x w.x, f v.y w.y, f v.z w.z⟩

def add : Vector3 → Vector3 → Vector3 := zip (· + ·)

def sub : Vector3 → Vector3 → Vector3 := zip (· - ·)

def mul : Vector3 → Vector3 → Vector3 := zip (· * ·)

def scale (v : Vector3) (factor : Float) : Vector3 := v.map (· * factor)

def dot (v w : Vector3) : Float := v.x * w.x + v.y * w.y + v.z * w.z

def cross (v w : Vector3) : Vector3 :=
  ⟨v.y * w.z - v.z * w.y, v.z * w.x - v.x * w.z, v.x * w.y - v.y * w.x⟩

def length (v : Vector3) : Float := (v.dot v).sqrt

def display (v : Vector3) : String :=
  s!"({Number.display v.x}, {Number.display v.y}, {Number.display v.z})"

end Vector3

inductive Axis where
  | x
  | y
  | z
  deriving DecidableEq, Repr

def Axis.letter : Axis → String
  | x => "x"
  | y => "y"
  | z => "z"

def Axis.ofText? (text : String) : Option Axis := [x, y, z].find? (Text.sameLetters text ·.letter)

def Vector3.addAlong (v : Vector3) (axis : Axis) (n : Float) : Vector3 :=
  match axis with
  | .x => { v with x := v.x + n }
  | .y => { v with y := v.y + n }
  | .z => { v with z := v.z + n }

end SceneScript
