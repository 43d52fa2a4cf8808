import SceneScript.Program.Expr
import SceneScript.Store
import SceneScript.Diagnostic
import SceneScript.Run.Properties
import SceneScript.Number.Reader
import SceneScript.Text.Blank

namespace SceneScript

namespace BinaryOp

def onNumbers (op : BinaryOp) (x y : Float) : Except Cause Value :=
  match op with
  | add => .ok (.number (x + y))
  | sub => .ok (.number (x - y))
  | mul => .ok (.number (x * y))
  | div => if y == 0 then .error .divisionByZero else .ok (.number (x / y))
  | mod => if y == 0 then .error .divisionByZero else .ok (.number (Number.remainder x y))
  | lt => .ok (.bool (x < y))
  | le => .ok (.bool (x ≤ y))
  | gt => .ok (.bool (y < x))
  | ge => .ok (.bool (y ≤ x))
  | eq => .ok (.bool (x == y))
  | ne => .ok (.bool (x != y))

/-- Vectors are added and subtracted, and scaled by numbers; a string joins to the text of
anything. -/
def onOthers (op : BinaryOp) (display : Value → String) (left right : Value) : Except Cause Value :=
  let refuse : Except Cause Value :=
    .error (.typeMismatch s!"operands for '{op.text}'" s!"{left.type} and {right.type}")
  match op, left, right with
  | add, .string _, _ => .ok (.string (display left ++ display right))
  | add, _, .string _ => .ok (.string (display left ++ display right))
  | add, .vector v, .vector w => .ok (.vector (v.add w))
  | sub, .vector v, .vector w => .ok (.vector (v.sub w))
  | mul, .vector v, .number x => .ok (.vector (v.scale x))
  | mul, .number x, .vector v => .ok (.vector (v.scale x))
  | div, .vector v, .number x =>
    if x == 0 then .error .divisionByZero else .ok (.vector (v.scale (1 / x)))
  | _, _, _ => refuse

def apply (op : BinaryOp) (display : Value → String) (left right : Value) : Except Cause Value :=
  match op with
  | eq => .ok (.bool (left.equals right))
  | ne => .ok (.bool (!left.equals right))
  | op =>
    match left, right with
    | .number x, .number y => op.onNumbers x y
    | left, right => op.onOthers display left right

end BinaryOp

namespace Value

def toNumber (value : Value) : Except Cause Float :=
  match value with
  | number x => .ok x
  | bool b => .ok (if b then 1 else 0)
  | string text =>
    match Number.read? (Text.trim text.toList) with
    | some x => .ok x
    | none => .error (.typeMismatch "numeric string" value.type)
  | _ => .error (.typeMismatch "number" value.type)

def convert? (name : String) (display : Value → String) (value : Value) :
    Option (Except Cause Value) :=
  match name with
  | "int" => some (value.toNumber.map fun x => .number (Number.truncate x))
  | "float" => some (value.toNumber.map .number)
  | "string" => some (.ok (.string (display value)))
  | "bool" => some (.ok (.bool value.isTrue))
  | _ => none

def ofName? (name : Option String) : Value :=
  match name with
  | some text => string text
  | none => nil

end Value

def Object.member? (o : Object) (name : String) : Option Value :=
  match name with
  | "pos" => some (.vector o.position)
  | "position" => some (.vector o.position)
  | "rot" => some (.vector o.rotation)
  | "rotation" => some (.vector o.rotation)
  | "scale" => some (.vector o.scale)
  | "id" => some (.string o.id)
  | "parent" => some (Value.ofName? o.parent)
  | "shape" => some (.string o.shape.kind)
  | "material" => some (match o.material with
    | some m => .material m
    | none => .nil)
  | "children" =>
    match o.shape with
    | .group names => some (.list (names.map .string))
    | _ => none
  | "height" =>
    match o.shape with
    | .pyramid _ height _ => some (.number height)
    | _ => none
  | _ => none

def Vector3.member? (v : Vector3) (name : String) : Option Value :=
  match name with
  | "x" => some (.number v.x)
  | "y" => some (.number v.y)
  | "z" => some (.number v.z)
  | _ => none

def Material.member? (m : Material) (name : String) : Option Value :=
  match name with
  | "color" => some (.string m.color)
  | "roughness" => some (.number m.roughness)
  | "metalness" => some (.number m.metalness)
  | "opacity" => some (.number m.opacity)
  | "emissive" => some (Value.ofName? m.emissive)
  | "wireframe" => some (.bool m.wireframe)
  | _ => none

def Store.member? (s : Store) (value : Value) (name : String) : Option Value :=
  match value with
  | .module id => (s.exports id).get? name
  | .object id => (s.object id).member? name
  | .vector v => v.member? name
  | .material m => m.member? name
  | .list items => if name = "length" then some (.number (Number.ofInt items.length)) else none
  | _ => none

end SceneScript
