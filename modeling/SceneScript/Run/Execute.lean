import SceneScript.Program.Basic
import SceneScript.Run.Evaluate

namespace SceneScript.Run

/-- Gives an object its children: every child name that is bound to an object makes it the
parent. -/
def adopt (parent : String) : List String → Run Unit
  | [] => pure ()
  | child :: more => do
    match (← lookup? child).bind Value.object? with
    | some id => modifyObject id fun o => { o with parent := some parent }
    | none => pure ()
    adopt parent more

/-- What a name is bound to: of an object, a copy that has the name as its id and stands in the
scene under it. -/
def bindObject (name : String) (value : Value) : Run Value := do
  match value with
  | .object id =>
    let copy := { ← object id with id := name, parent := none }
    let bound ← addObject copy
    modify fun m => { m with scene := m.scene.insert name bound }
    adopt name copy.children
    return .object bound
  | other => return other

def evaluateTriple (t : Triple) : Run Vector3 := do
  let x ← evaluateNumber t.x
  let y ← evaluateNumber t.y
  let z ← evaluateNumber t.z
  return ⟨x, y, z⟩

def vectorOf (expected : String) (value : Value) : Run Vector3 :=
  match value.vector? with
  | some v => pure v
  | none => typeMismatch expected value

def evaluateVector (value : AssignedValue) : Run Vector3 := do
  match value with
  | .triple t => evaluateTriple t
  | .expr e => vectorOf "x, y, z" (← evaluate e)
  | .relative anchor _ => fail (.typeMismatch "x, y, z" s!"relative position @{anchor}")

def evaluatePosition (value : AssignedValue) : Run Vector3 := do
  match value with
  | .relative anchor offset =>
    let base := (← object (← objectNamed anchor)).position
    match offset with
    | some t => return base.add (← evaluateTriple t)
    | none => return base.add .zero
  | other => evaluateVector other

/-- A scale is a vector, or one number for all axes. -/
def evaluateScale (value : AssignedValue) : Run Vector3 := do
  match value with
  | .expr e =>
    match ← evaluate e with
    | .number x => return .splat x
    | other => vectorOf "x, y, z or number" other
  | other => evaluateVector other

def evaluateKnown? (e : Expr) : Run (Option Value) := fun m =>
  match evaluate e m with
  | (.ok value, after) => (.ok (some value), after)
  | (.error (.fault d), after) =>
    match d.cause with
    | .undefinedVariable _ => (do warn e.span (.unresolvedMaterial d.cause); return none) after
    | .undefinedMember _ _ => (do warn e.span (.unresolvedMaterial d.cause); return none) after
    | _ => (.error (.fault d), after)
  | (.error stop, after) => (.error stop, after)

/-- A material is one itself, or a string that names one in scope. What is neither is a warning,
and nil is none. -/
def evaluateMaterial (e : Expr) : Run (Option Material) := do
  match ← evaluateKnown? e with
  | none => return none
  | some .nil => return none
  | some (.material m) => return some m
  | some value =>
    let found ← match value with
      | .string name => pure ((← lookup? name).bind Value.material?)
      | _ => pure none
    if found.isNone then warn e.span (.notAMaterial (← display value))
    return found

/-- Gives a material to the objects of the scene that have one of these names and are no groups. -/
def paintChildren (material : Option Material) : List String → Run Unit
  | [] => pure ()
  | child :: more => do
    match (← get).scene.get? child with
    | some id =>
      unless (← object id).isGroup do modifyObject id fun o => { o with material := material }
    | none => pure ()
    paintChildren material more

def paint (id : ObjectId) (material : Option Material) : Run Unit := do
  let o ← object id
  if o.isGroup then paintChildren material o.children
  else modifyObject id fun o => { o with material := material }

/-- The object that a property assignment changes: the target, or a child of it. -/
def selectObject (target : String) (child : Option String) : Run ObjectId := do
  let id ← objectNamed target
  match child with
  | none => return id
  | some child =>
    unless (← object id).children.contains child do fail (.notAChild child target)
    objectNamed child

def setPosition (id : ObjectId) (value : AssignedValue) : Run Unit := do
  let position ← evaluatePosition value
  modifyObject id fun o => { o with position := position }

/-- Rotations are given in degrees. -/
def setRotation (id : ObjectId) (value : AssignedValue) : Run Unit := do
  let degrees ← evaluateVector value
  modifyObject id fun o => { o with rotation := degrees.map radians }

def setScale (id : ObjectId) (value : AssignedValue) : Run Unit := do
  let scale ← evaluateScale value
  modifyObject id fun o => { o with scale := scale }

def setMaterial (id : ObjectId) (value : AssignedValue) : Run Unit := do
  match value with
  | .expr e => paint id (← evaluateMaterial e)
  | _ => fail (.typeMismatch "material" "coordinates")

def setProperty (target : String) (child : Option String) (property : String)
    (value : AssignedValue) : Run Unit := do
  let id ← selectObject target child
  match property with
  | "pos" => setPosition id value
  | "position" => setPosition id value
  | "rot" => setRotation id value
  | "rotation" => setRotation id value
  | "scale" => setScale id value
  | "material" => setMaterial id value
  | other => fail (.unknownProperty other)

def turnBy (id : ObjectId) (angle : Float) : Run Unit :=
  modifyObject id fun o => { o with rotation := o.rotation.addAlong .y angle }

/-- Turns an object around the vertical axis, and an excluded one back. -/
def callRotate (target : String) (args : List Expr) (excluded : Option String) : Run Unit := do
  let id ← objectNamed target
  match args with
  | [] => fail (.missingProperty "angle")
  | angle :: _ =>
    let turned := radians (← evaluateNumber angle)
    turnBy id turned
    match excluded with
    | some name => turnBy (← objectNamed name) (-turned)
    | none => pure ()

def moveOffset? : List Value → Option Vector3
  | [single] => single.vector?
  | values => (Value.list values).vector?

def callMove (target : String) (args : List Expr) : Run Unit := do
  let id ← objectNamed target
  let values ← evaluateAll args
  let offset ← ofOption (.typeMismatch "x, y, z" s!"{values.length} arguments") (moveOffset? values)
  modifyObject id fun o => { o with position := o.position.add offset }

/-- Calls a member of a module, or a method of an object. A method that is not known does
nothing. -/
def callMethod (target method : String) (args : List Expr) (excluded : Option String) :
    Run Unit := do
  match ← lookup? target with
  | some (.module id) =>
    let values ← evaluateAll args
    let _ ← callMember target id method values
  | _ =>
    match method with
    | "rotate" => callRotate target args excluded
    | "move" => callMove target args
    | _ => pure ()

def maxIterations : Nat := 10000

/-- Runs a body for as long as a test has a value, which the body is given, and so many times at
most. A test that then still has one is reported. -/
def repeatBody {α : Type} (test : Run (Option α)) (body : α → Run Unit) (exceeded : Run Unit) :
    Nat → Run Unit
  | 0 => do
    match ← test with
    | some _ => exceeded
    | none => pure ()
  | n + 1 => do
    match ← test with
    | some a =>
      body a
      repeatBody test body exceeded n
    | none => pure ()

def reportLimit (span : Span) : Run Unit :=
  notify (.error (.placed (.iterationLimit maxIterations) span))

def readCounter (counter : String) : Run Float := do
  let value ← lookup counter
  match value.number? with
  | some x => return x
  | none => typeMismatch "number loop counter" value

def nextStep? (span : Span) (counter : String) (stop : Expr) (step : Option Expr) :
    Run (Option Float) := do
  let current ← placing span (readCounter counter)
  let last ← placing span (evaluateNumber stop)
  let size ← match step with
    | some step => placing span (evaluateNumber step)
    | none => pure 1
  let finished := if 0 ≤ size then last < current else current < last
  return if finished then none else some size

def conditionHolds? (span : Span) (condition : Expr) : Run (Option Unit) := do
  let value ← placing span (evaluate condition)
  return if value.isTrue then some () else none

mutual
def execute : Stmt → Run Unit
  | .imports _ => pure ()
  | .assign span name confined value => do
    let evaluated ← placing span (evaluate value)
    let bound ← bindObject name evaluated
    modifyScope fun s => if confined then s.confine name bound else s.assign name bound
  | .setProperty span target child property value =>
    placing span (setProperty target child property value)
  | .callMethod span target method args excluded =>
    placing span (callMethod target method args excluded)
  | .print span value => do
    let evaluated ← placing span (evaluate value)
    say (← display evaluated)
  | .branch span condition thenBlock elseBlock => do
    let value ← placing span (evaluate condition)
    if value.isTrue then inBlock (executeAll thenBlock)
    else match elseBlock with
      | some block => inBlock (executeAll block)
      | none => pure ()
  | .whileLoop span condition body =>
    repeatBody (conditionHolds? span condition) (fun _ => inBlock (executeAll body))
      (reportLimit span) maxIterations
  | .forLoop span counter start stop step body => do
    let first ← placing span (evaluateNumber start)
    modifyScope (·.assign counter (.number first))
    repeatBody (nextStep? span counter stop step)
      (fun size => do
        inBlock (executeAll body)
        let current ← placing span (readCounter counter)
        modifyScope (·.assign counter (.number (current + size))))
      (reportLimit span) maxIterations
def executeAll : List Stmt → Run Unit
  | [] => pure ()
  | first :: more => do
    placing first.span (execute first)
    executeAll more
end

end SceneScript.Run
