import SceneScript.Scene.Vector
import SceneScript.Table

namespace SceneScript

structure Material where
  color : String
  roughness : Float
  metalness : Float
  opacity : Float
  emissive : Option String
  wireframe : Bool
  deriving BEq

def Material.plain : Material := ⟨"#cccccc", 0.5, 0, 1, none, false⟩

def Material.properties : List String :=
  ["color", "emissive", "roughness", "metalness", "opacity", "wireframe"]

/-- A polygon; its indices count the vertices of the object it belongs to. -/
structure Face where
  indices : List Nat
  material : Option Material
  deriving BEq

inductive Direction where
  | up
  | down
  deriving DecidableEq, Repr

inductive Shape where
  | mesh (vertices : List Vector3) (faces : List Face)
  | pyramid (vertices : List Vector3) (height : Float) (direction : Direction)
  | group (children : List String)
  deriving Inhabited

namespace Shape

def kind : Shape → String
  | mesh .. => "mesh"
  | pyramid .. => "pyramid"
  | group _ => "group"

def isGroup : Shape → Bool
  | group _ => true
  | _ => false

def children : Shape → List String
  | group names => names
  | _ => []

def vertices : Shape → List Vector3
  | mesh vs _ => vs
  | pyramid vs .. => vs
  | group _ => []

def faces : Shape → List Face
  | mesh _ fs => fs
  | _ => []

end Shape

/-- An object of the scene. An object that no name was given has the empty id. -/
structure Object where
  id : String
  parent : Option String
  position : Vector3
  /-- Radians around each axis. -/
  rotation : Vector3
  scale : Vector3
  material : Option Material
  shape : Shape
  deriving Inhabited

namespace Object

def ofShape (shape : Shape) : Object :=
  { id := "", parent := none, position := .zero, rotation := .zero, scale := .one,
    material := none, shape := shape }

def isGroup (o : Object) : Bool := o.shape.isGroup

def children (o : Object) : List String := o.shape.children

def display (o : Object) : String :=
  if o.id = "" then s!"<{o.shape.kind}>" else s!"<{o.shape.kind} {o.id}>"

end Object

abbrev Scene := Table Object

end SceneScript
