import SceneScript.Scene.Object
import SceneScript.Diagnostic

namespace SceneScript

inductive Modifier where
  | pyramid (height : Float) (direction : Direction)
  | scale (factor : Vector3)
  | translate (offset : Vector3)
  /-- Turns in degrees, one after the other. -/
  | rotate (turns : List (Axis × Float))

namespace Modifier

def properties? : String → Option (List String)
  | "pyramid" => some ["height", "direction"]
  | "scale" => some ["factor"]
  | "translate" => some ["offset"]
  | "rotate" => some ["axis", "angle"]
  | _ => none

end Modifier

def degree : Float := 3.141592653589793 / 180

def radians (degrees : Float) : Float := degrees * degree

/-- The changed object. A group has no vertices to make a pyramid of. -/
def Modifier.apply (m : Modifier) (o : Object) : Except Cause Object :=
  match m with
  | .pyramid height direction =>
    if o.isGroup then .error (.typeMismatch "geometry" "group")
    else .ok { o with shape := .pyramid o.shape.vertices height direction }
  | .scale factor => .ok { o with scale := o.scale.mul factor }
  | .translate offset => .ok { o with position := o.position.add offset }
  | .rotate turns =>
    .ok { o with
      rotation := turns.foldl (fun r turn => r.addAlong turn.1 (radians turn.2)) o.rotation }

end SceneScript
