import SceneScript.Scene.Object
import SceneScript.Json

namespace SceneScript

def Vector3.toJson (v : Vector3) :
    Json := .object [("x", .float v.x), ("y", .float v.y), ("z", .float v.z)]

def Material.toJson (m : Material) : Json :=
  .object <|
    [("color", .string m.color), ("roughness", .float m.roughness),
      ("metalness", .float m.metalness), ("opacity", .float m.opacity)] ++
    (match m.emissive with
      | some color => [("emissive", .string color)]
      | none => []) ++
    [("wireframe", .bool m.wireframe)]

def Face.toJson (f : Face) : Json :=
  .object [("indices", .array (f.indices.map .int)),
    ("material", match f.material with
      | some m => m.toJson
      | none => .null)]

def Direction.text : Direction → String
  | up => "up"
  | down => "down"

def Shape.members (s : Shape) : List (String × Json) :=
  ("shape", .string s.kind) ::
  match s with
  | mesh vertices faces =>
    [("vertices", .array (vertices.map Vector3.toJson)), ("faces", .array (faces.map Face.toJson))]
  | pyramid vertices height direction =>
    [("vertices", .array (vertices.map Vector3.toJson)), ("height", .float height),
      ("direction", .string direction.text)]
  | group children => [("children", .array (children.map .string))]

def Object.toJson (o : Object) : Json :=
  .object <|
    [("id", .string o.id),
      ("parent", match o.parent with
        | some name => .string name
        | none => .null),
      ("pos", o.position.toJson), ("rot", o.rotation.toJson), ("scale", o.scale.toJson)] ++
    (match o.material with
      | some m => [("material", m.toJson)]
      | none => []) ++
    o.shape.members

def Scene.toJson (scene : Scene) : Json :=
  .object (scene.toList.map fun entry => (entry.1, entry.2.toJson))

def Scene.written (scene : Scene) : String := (Scene.toJson scene).pretty

end SceneScript
