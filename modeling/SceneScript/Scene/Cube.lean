import SceneScript.Scene.Object
import SceneScript.Diagnostic
import SceneScript.Text.Blank
import SceneScript.Number.Reader

namespace SceneScript

def Vector3.ofText (text : String) : Except Cause Vector3 :=
  match ((Text.split ',' text.toList).map fun part => Number.read? (Text.trim part)) with
  | [some x, some y, some z] => .ok ⟨x, y, z⟩
  | _ => .error (.invalidVertex text)

/-- The sides of a cuboid whose vertices are written ring by ring, the bottom ring first. -/
def cubeFaces : List (List Nat) :=
  [[0, 1, 2, 3], [4, 5, 6, 7], [0, 1, 5, 4], [1, 2, 6, 5], [2, 3, 7, 6], [3, 0, 4, 7]]

def Shape.cube (texts : List String) : Except Cause Shape :=
  if texts.length = 8 then do
    let vertices ← texts.mapM Vector3.ofText
    return .mesh vertices (cubeFaces.map (⟨·, none⟩))
  else .error (.invalidCube texts.length)

end SceneScript
