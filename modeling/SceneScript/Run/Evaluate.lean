import SceneScript.Run.Machine
import SceneScript.Run.Operate
import SceneScript.Scene.Cube

namespace SceneScript.Run

/-- Follows member names from a value; `owner` is how the value is called in messages. -/
def followMembers (span : Span) (owner : String) (value : Value) : List String → Run Value
  | [] => pure value
  | member :: more => do
    let found ← placing span <|
      ofOption (.undefinedMember owner member) ((← getStore).member? value member)
    followMembers span s!"{owner}.{member}" found more

def callMember (owner : String) (id : ModuleId) (name : String) (args : List Value) :
    Run Value := do
  match ((← getStore).exports id).get? name with
  | some (.native f) => callNative s!"{owner}.{name}" f args
  | some _ => fail (.notCallable s!"{owner}.{name}")
  | none => fail (.undefinedMember owner name)

/-- Calls a name without a receiver: a conversion of its first argument, or a function in scope. -/
def callName (callee : String) (args : List Value) : Run Value := do
  let store ← getStore
  match (args.head?.getD .nil).convert? callee store.display with
  | some converted => ofExcept converted
  | none =>
    match ← lookup callee with
    | .native f => callNative callee f args
    | _ => fail (.notCallable callee)

def callReceiver (receiver callee : String) (args : List Value) : Run Value := do
  match ← lookup receiver with
  | .module id => callMember receiver id callee args
  | _ => fail (.notCallable s!"{receiver}.{callee}")

def referredMaterial? (reference : MaterialRef) : Run (Option Material) := do
  match reference with
  | .named name => return (← lookup? name).bind Value.material?
  | .member library item =>
    match ← lookup? library with
    | some (.module id) => return (((← getStore).exports id).get? item).bind Value.material?
    | _ => return none

/-- The material of a face. One that is not found is a warning, and the face has none. -/
def faceMaterial (span : Span) (reference : Option MaterialRef) : Run (Option Material) := do
  match reference with
  | none => return none
  | some reference =>
    match ← referredMaterial? reference with
    | some m => return some m
    | none =>
      warn span (.faceWithoutMaterial reference.text)
      return none

def buildFace (span : Span) (count : Nat) (face : FaceLiteral) : Run Face := do
  match face.indices.find? (count ≤ ·) with
  | some index => failAt (.faceIndex index count) span
  | none => return ⟨face.indices, ← faceMaterial span face.material⟩

def buildFaces (span : Span) (count : Nat) : List FaceLiteral → Run (List Face)
  | [] => pure []
  | face :: more => do
    let first ← buildFace span count face
    return first :: (← buildFaces span count more)

def takeBase? : Properties → Option (Value × Properties)
  | [] => none
  | (name, value) :: more =>
    if name = "base" then some (value, more)
    else (takeBase? more).map fun (base, others) => (base, (name, value) :: others)

/-- Changes a copy of the base, which loses its name and its parent. -/
def modified (span : Span) (kind : String) (props : Properties) : Run Value := do
  match takeBase? props with
  | none => failAt (.missingProperty "base") span
  | some (.object id, others) =>
    let copy := { ← object id with id := "", parent := none }
    let modifier ← placing span (ofExcept (Modifier.ofProperties kind others))
    let changed ← placing span (ofExcept (modifier.apply copy))
    .object <$> addObject changed
  | some (other, _) => placing span (typeMismatch "geometry or group for 'base'" other)

mutual
def evaluate : Expr → Run Value
  | .number _ x => pure (.number x)
  | .string _ text => pure (.string text)
  | .reference span name members => do
    let value ← placing span (lookup name)
    followMembers span name value members
  | .binary span op left right => do
    let l ← evaluate left
    let r ← evaluate right
    placing span do ofExcept (op.apply (← getStore).display l r)
  | .call span receiver callee args =>
    placing span do
      let values ← evaluateAll args
      match receiver with
      | none => callName callee values
      | some receiver => callReceiver receiver callee values
  | .cube span vertices => do
    let shape ← placing span (ofExcept (Shape.cube vertices))
    .object <$> addObject (.ofShape shape)
  | .mesh span vertices faces => do
    let built ← buildFaces span vertices.length faces
    .object <$> addObject (.ofShape (.mesh vertices built))
  | .material span properties => do
    let props ← evaluateProperties properties
    .material <$> placing span (ofExcept (Material.ofProperties props))
  | .modifier span kind properties => do
    let props ← evaluateProperties properties
    modified span kind props
  | .group _ children => .object <$> addObject (.ofShape (.group children))
def evaluateAll : List Expr → Run (List Value)
  | [] => pure []
  | first :: more => do
    let value ← evaluate first
    return value :: (← evaluateAll more)
def evaluateProperty : Property Expr → Run (String × Value)
  | .single key e => return (key, ← evaluate e)
  | .list key es => return (key, .list (← evaluateAll es))
def evaluateProperties : List (Property Expr) → Run Properties
  | [] => pure []
  | first :: more => do
    let entry ← evaluateProperty first
    return entry :: (← evaluateProperties more)
end

def evaluateNumber (e : Expr) : Run Float := do
  let value ← evaluate e
  match value.number? with
  | some x => return x
  | none => placing e.span (typeMismatch "number" value)

end SceneScript.Run
