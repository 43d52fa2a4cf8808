import SceneScript.Proofs.Run.Evaluation
import SceneScript.Proofs.Scope

namespace SceneScript

namespace Store
variable {s : Store} {parent : String} {ids : List ObjectId} {id : ObjectId}

def nextId (s : Store) : ObjectId := ⟨s.objects.size⟩

def adopt (s : Store) (parent : String) (ids : List ObjectId) : Store :=
  ids.foldl (fun s id => s.modifyObject id fun o => { o with parent := some parent }) s

theorem not_hasObject_nextId (s : Store) : ¬ s.hasObject s.nextId := Nat.lt_irrefl _

theorem modules_adopt (s : Store) (parent : String) (ids : List ObjectId) :
    (s.adopt parent ids).modules = s.modules := by
  induction ids generalizing s with
  | nil => rfl
  | cons first more ih => exact ih _

theorem size_adopt (s : Store) (parent : String) (ids : List ObjectId) :
    (s.adopt parent ids).objects.size = s.objects.size := by
  induction ids generalizing s with
  | nil => rfl
  | cons first more ih => exact (ih _).trans (by simp [modifyObject])

theorem object_adopt (h : s.hasObject id) : (s.adopt parent ids).object id =
    if id ∈ ids then { s.object id with parent := some parent } else s.object id := by
  induction ids generalizing s with
  | nil => simp [adopt]
  | cons first more ih =>
    have hrest := ih (s := s.modifyObject first fun o => { o with parent := some parent })
      ((hasObject_modifyObject s first id _).2 h)
    rw [adopt, List.foldl_cons, ← adopt, hrest]
    -- A record that is listed twice gets the same parent twice.
    rcases Decidable.em (id = first) with rfl | hne
    · rw [object_modifyObject s id id _ h]
      simp
    · rw [object_modifyObject_of_ne s _ hne]
      simp [hne]

end Store

def Scope.objectsNamed (s : Scope) (names : List String) : List ObjectId :=
  names.filterMap fun name => (s.lookup? name).bind Value.object?

namespace Machine
variable {m : Machine} {name : String} {id other : ObjectId}

/-- Puts a copy of an object into the scene, under a name and with that name as its id, and gives
the copy its children. -/
def place (m : Machine) (name : String) (id : ObjectId) : Machine :=
  let copy := { m.store.object id with id := name, parent := none }
  { m with
    store := (m.store.addObject copy).2.adopt name (m.scope.objectsNamed copy.children)
    scene := m.scene.insert name m.store.nextId }

def bind (m : Machine) (name : String) (confined : Bool) (value : Value) : Machine :=
  { m with scope := m.scope.bind name confined value }

def childrenOf (m : Machine) (id : ObjectId) : List ObjectId :=
  m.scope.objectsNamed (m.store.object id).children

theorem modules_place (m : Machine) (name : String) (id : ObjectId) :
    (m.place name id).store.modules = m.store.modules :=
  Store.modules_adopt _ name _

theorem size_place (m : Machine) (name : String) (id : ObjectId) :
    (m.place name id).store.objects.size = m.store.objects.size + 1 := by
  rw [place, Store.size_adopt]
  simp [Store.addObject]

theorem hasObject_place :
    (m.place name id).store.hasObject other ↔ m.store.hasObject other ∨ other = m.store.nextId := by
  obtain ⟨i⟩ := other
  simp only [Store.hasObject, Store.nextId, size_place, ObjectId.mk.injEq]
  omega

/-- The records that were there only change their parent. -/
theorem object_place (h : m.store.hasObject other) : (m.place name id).store.object other =
    if other ∈ m.childrenOf id then { m.store.object other with parent := some name }
    else m.store.object other := by
  have hne : other ≠
      (m.store.addObject { m.store.object id with id := name, parent := none }).1 := by
    rintro rfl
    exact m.store.not_hasObject_nextId h
  rw [place, Store.object_adopt ((Store.hasObject_addObject _ _ _).2 (.inl h)),
    Store.object_addObject, if_neg hne]
  rfl

/-- The copy has no parent, as it is no child of its own yet. -/
theorem object_place_nextId (h : m.store.nextId ∉ m.childrenOf id) :
    (m.place name id).store.object m.store.nextId =
      { m.store.object id with id := name, parent := none } := by
  have hnew : m.store.nextId =
    (m.store.addObject { m.store.object id with id := name, parent := none }).1 := rfl
  rw [place, Store.object_adopt ((Store.hasObject_addObject _ _ _).2 (.inr hnew)),
    Store.object_addObject, if_pos hnew]
  exact if_neg h

end Machine

namespace Run
variable {m : Machine}

theorem adopt_apply (parent : String) (names : List String) (m : Machine) :
    adopt parent names m =
      (.ok (), { m with store := m.store.adopt parent (m.scope.objectsNamed names) }) := by
  induction names generalizing m with
  | nil => rfl
  | cons first more ih =>
    rw [adopt, bind_apply_of_ok _ (lookup?_apply first m)]
    cases hfirst : (m.scope.lookup? first).bind Value.object? with
    | none =>
      have hnamed : m.scope.objectsNamed (first :: more) = m.scope.objectsNamed more := by
        simp [Scope.objectsNamed, hfirst]
      rw [hnamed]
      exact ih m
    | some id =>
      have hnamed : m.scope.objectsNamed (first :: more) = id :: m.scope.objectsNamed more := by
        simp [Scope.objectsNamed, hfirst]
      rw [hnamed]
      exact ih _

theorem bindObject_object (name : String) (id : ObjectId) (m : Machine) :
    bindObject name (.object id) m = (.ok (.object m.store.nextId), m.place name id) := by
  unfold bindObject
  dsimp only
  rw [bind_apply_of_ok _ (object_apply id m)]
  exact bind_apply_of_ok _ (adopt_apply name _ _)

theorem bindObject_of_object?_eq_none {value : Value} (name : String) (h : value.object? = none)
    (m : Machine) : bindObject name value m = (.ok value, m) := by
  cases value <;> first | rfl | cases h

end Run
end SceneScript
