import SceneScript.Store
import SceneScript.Scope
import SceneScript.Notice

namespace SceneScript

structure Machine where
  store : Store
  scope : Scope
  /-- The objects of the scene, by the name they were bound to last. -/
  scene : Table ObjectId
  logs : Array String
  notices : Array Notice

/-- Why a run stops: at a fault of the program, which is reported, or at a call of a library
function that has no outcome at all. -/
inductive Stop where
  | fault (diagnostic : Diagnostic)
  | breakdown

def Stop.orSpan (span : Span) : Stop → Stop
  | fault d => fault (d.orSpan span)
  | breakdown => breakdown

abbrev Run (α : Type) := ExceptT Stop (StateM Machine) α

namespace Run
variable {α : Type}

def fail (cause : Cause) : Run α := throw (.fault (.of cause))

def failAt (cause : Cause) (span : Span) : Run α := throw (.fault (.placed cause span))

def placing (span : Span) (x : Run α) : Run α := ExceptT.adapt (Stop.orSpan span) x

def ofExcept : Except Cause α → Run α
  | .ok a => pure a
  | .error cause => fail cause

def ofOption (cause : Cause) : Option α → Run α
  | some a => pure a
  | none => fail cause

def typeMismatch (expected : String) (got : Value) : Run α := fail (.typeMismatch expected got.type)

def getStore : Run Store := return (← get).store

def modifyStore (f : Store → Store) : Run Unit := modify fun m => { m with store := f m.store }

def modifyScope (f : Scope → Scope) : Run Unit := modify fun m => { m with scope := f m.scope }

def inBlock (x : Run α) : Run α := fun m =>
  let (result, after) := x { m with scope := m.scope.push }
  (result, { after with scope := after.scope.pop })

def display (value : Value) : Run String := return (← getStore).display value

def lookup? (name : String) : Run (Option Value) := return (← get).scope.lookup? name

def lookup (name : String) : Run Value := do ofOption (.undefinedVariable name) (← lookup? name)

def objectNamed (name : String) : Run ObjectId := do
  ofOption (.missingObject name) ((← lookup? name).bind Value.object?)

def object (id : ObjectId) : Run Object := return (← getStore).object id

def addObject (o : Object) : Run ObjectId := fun m =>
  let (id, store) := m.store.addObject o
  (.ok id, { m with store := store })

def modifyObject (id : ObjectId) (f : Object → Object) : Run Unit :=
  modifyStore (·.modifyObject id f)

def say (line : String) : Run Unit := modify fun m => { m with logs := m.logs.push line }

def notify (notice : Notice) : Run Unit :=
  modify fun m => { m with notices := m.notices.push notice }

def warn (span : Span) (concern : Concern) : Run Unit := notify (.warning span.line concern)

/-- Calls a library function; a refusal is a fault of the function under the name it is called
by. -/
def callNative (shownAs : String) (f : Native) (args : List Value) : Run Value := do
  match (← getStore).call f args with
  | .ok (value, store) =>
    modifyStore fun _ => store
    return value
  | .error (.refused reason) => fail (.library shownAs reason.message)
  | .error .breakdown => throw .breakdown

end Run
end SceneScript
