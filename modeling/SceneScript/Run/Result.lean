import SceneScript.Run.Execute

namespace SceneScript

/-- What a compile produces. The store gives a meaning to the identities in the exports. -/
structure Result where
  scene : Scene
  logs : List String
  notices : List Notice
  exports : Exports
  store : Store

namespace Result

def failed (d : Diagnostic) : Result := ⟨.empty, [], [.error d], .empty, .empty⟩

def errors (r : Result) : List String := r.notices.map Notice.text

def fatalErrors (r : Result) : List String := r.errors.filter (!Notice.isWarningText ·)

instance : Inhabited Result := ⟨⟨.empty, [], [], .empty, .empty⟩⟩

end Result

namespace Machine

def start (modules : Table Value) (store : Store) : Machine :=
  ⟨store, Scope.standard.seedAll modules.toList, .empty, #[], #[]⟩

def runStatement (m : Machine) (s : Stmt) : Except Stop Machine :=
  match Run.execute s m with
  | (.ok (), after) => .ok after
  | (.error (.fault d), after) =>
    .ok { after with notices := after.notices.push (.error (d.orSpan s.span)) }
  | (.error .breakdown, _) => .error .breakdown

def result (m : Machine) : Result where
  scene := m.scene.map m.store.object
  logs := m.logs.toList
  notices := m.notices.toList
  exports := m.scope.exports
  store := m.store

end Machine

def Program.run (p : Program) (modules : Table Value) (store : Store) : Except Stop Result :=
  (p.statements.foldlM Machine.runStatement (.start modules store)).map Machine.result

end SceneScript
