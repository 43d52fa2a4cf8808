import SceneScript.Value
import SceneScript.Diagnostic
import SceneScript.Json

namespace SceneScript

abbrev Properties := List (String × Value)

namespace Properties

def get? (props : Properties) (name : String) : Option Value :=
  (props.find? (·.1 == name)).map (·.2)

def mismatch {α : Type} (expected : String) (got : Value) : Except Cause α :=
  .error (.typeMismatch expected got.type)

def number (expected : String) (value : Value) : Except Cause Float :=
  match value.number? with
  | some x => .ok x
  | none => mismatch expected value

def vector (expected : String) (value : Value) : Except Cause Vector3 :=
  match value.vector? with
  | some v => .ok v
  | none => mismatch expected value

def axis (value : Value) : Except Cause Axis :=
  match value with
  | .string text =>
    match Axis.ofText? text with
    | some a => .ok a
    | none => mismatch "axis x, y or z" value
  | _ => mismatch "axis x, y or z" value

def direction (value : Value) : Except Cause Direction :=
  match value with
  | .string text =>
    if Text.sameLetters text "up" then .ok .up
    else if Text.sameLetters text "down" then .ok .down
    else mismatch "direction \"up\" or \"down\"" value
  | _ => mismatch "direction \"up\" or \"down\"" value

def turn (axisValue angle : Value) : Except Cause (Axis × Float) := do
  return (← axis axisValue, ← number "number for 'angle'" angle)

/-- The turns of a rotation: lists of axes and angles pair up, and so do single ones. -/
def turns (axes angles : Value) : Except Cause (List (Axis × Float)) :=
  match axes, angles with
  | .list axes, .list angles =>
    if axes.length = angles.length then (axes.zip angles).mapM fun pair => turn pair.1 pair.2
    else .error (.typeMismatch s!"{axes.length} angles" (toString angles.length))
  | .list _, other => mismatch "list of angles" other
  | axis, angle => do return [← turn axis angle]

def required (props : Properties) (name : String) : Except Cause Value :=
  match props.get? name with
  | some value => .ok value
  | none => .error (.missingProperty name)

def pyramid (props : Properties) : Except Cause Modifier := do
  let height ← match props.get? "height" with
    | some value => number "number for 'height'" value
    | none => pure 1
  let facing ← match props.get? "direction" with
    | some value => direction value
    | none => pure .up
  return .pyramid height facing

def scale (props : Properties) : Except Cause Modifier := do
  match ← required props "factor" with
  | .number x => return .scale (.splat x)
  | other => return .scale (← vector "x, y, z for 'factor'" other)

def translate (props : Properties) : Except Cause Modifier := do
  return .translate (← vector "x, y, z for 'offset'" (← required props "offset"))

def rotate (props : Properties) : Except Cause Modifier := do
  let angles ← required props "angle"
  return .rotate (← turns ((props.get? "axis").getD (.string "y")) angles)

end Properties

/-- The modifier of a kind with these properties, of which it has to accept every one. -/
def Modifier.ofProperties (kind : String) (props : Properties) : Except Cause Modifier :=
  match Modifier.properties? kind with
  | none => .error (.unknownModifier kind)
  | some accepted =>
    match props.find? (!accepted.contains ·.1) with
    | some (name, _) => .error (.unknownProperty name)
    | none =>
      match kind with
      | "pyramid" => props.pyramid
      | "scale" => props.scale
      | "translate" => props.translate
      | _ => props.rotate

def colorByte (part : Float) : Nat :=
  (Number.toIntBetween 0 255 (Number.nearest (Number.clamp 0 1 part * 255))).toNat

/-- A colour is a string, or three numbers that are written as one. -/
def colorOfValue (value : Value) : Except Cause String :=
  match value with
  | .string text => .ok text
  | _ => do
    let v ← Properties.vector "colour" value
    return String.ofList ('#' :: [v.x, v.y, v.z].flatMap fun part => Json.hexByte (colorByte part))

def Material.set (m : Material) (name : String) (value : Value) : Except Cause Material :=
  match name with
  | "color" => return { m with color := ← colorOfValue value }
  | "emissive" => return { m with emissive := some (← colorOfValue value) }
  | "roughness" => return { m with roughness := ← Properties.number "number" value }
  | "metalness" => return { m with metalness := ← Properties.number "number" value }
  | "opacity" => return { m with opacity := ← Properties.number "number" value }
  | "wireframe" => return { m with wireframe := value.isTrue }
  | other => .error (.unknownProperty other)

def Material.ofProperties (props : Properties) : Except Cause Material :=
  props.foldlM (fun m entry => m.set entry.1 entry.2) .plain

end SceneScript
