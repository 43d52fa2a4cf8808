import SceneScript.Library.Call

namespace SceneScript

structure Store where
  objects : Array Object
  modules : Array Exports
  generators : Array Random.Generator

abbrev Libraries := Table ModuleId

namespace Store

def empty : Store := ⟨#[], #[], #[]⟩

instance : Inhabited Store := ⟨empty⟩

def object (s : Store) (id : ObjectId) : Object := s.objects[id.index]?.getD default

def addObject (s : Store) (o : Object) : ObjectId × Store :=
  (⟨s.objects.size⟩, { s with objects := s.objects.push o })

def modifyObject (s : Store) (id : ObjectId) (f : Object → Object) : Store :=
  { s with objects := s.objects.modify id.index f }

def exports (s : Store) (id : ModuleId) : Exports := s.modules[id.index]?.getD .empty

def addModule (s : Store) (exports : Exports) : ModuleId × Store :=
  (⟨s.modules.size⟩, { s with modules := s.modules.push exports })

def display (s : Store) (value : Value) : String := value.display fun id => (s.object id).display

def hasObject (s : Store) (id : ObjectId) : Prop := id.index < s.objects.size

theorem object_addObject (s : Store) (o : Object) (id : ObjectId) :
    (s.addObject o).2.object id = if id = (s.addObject o).1 then o else s.object id := by
  obtain ⟨i⟩ := id
  simp only [object, addObject, Array.getElem?_push, ObjectId.mk.injEq]
  split <;> rfl

theorem exports_addModule (s : Store) (exports : Exports) (id : ModuleId) :
    (s.addModule exports).2.exports id =
      if id = (s.addModule exports).1 then exports else s.exports id := by
  obtain ⟨i⟩ := id
  simp only [Store.exports, addModule, Array.getElem?_push, ModuleId.mk.injEq]
  split <;> rfl

theorem object_modifyObject (s : Store) (id other : ObjectId) (f : Object → Object)
    (h : s.hasObject id) :
    (s.modifyObject id f).object other = if other =
      id then f (s.object id) else s.object other := by
  obtain ⟨i⟩ := id
  obtain ⟨j⟩ := other
  simp only [hasObject] at h
  by_cases hij : j = i
  · subst hij
    simp [object, modifyObject, h, Array.getElem_modify]
  · simp [object, modifyObject, Array.getElem?_modify, hij, Ne.symm hij]

theorem object_modifyObject_of_ne (s : Store) {id other : ObjectId} (f : Object → Object)
    (h : other ≠ id) : (s.modifyObject id f).object other = s.object other := by
  have hne : id.index ≠ other.index := fun heq => h (congrArg ObjectId.mk heq.symm)
  simp [object, modifyObject, Array.getElem?_modify, hne]

@[simp] theorem hasObject_modifyObject (s : Store) (id other : ObjectId) (f : Object → Object) :
    (s.modifyObject id f).hasObject other ↔ s.hasObject other := by
  simp [hasObject, modifyObject]

@[simp] theorem hasObject_addObject (s : Store) (o : Object) (id : ObjectId) :
    (s.addObject o).2.hasObject id ↔ s.hasObject id ∨ id = (s.addObject o).1 := by
  obtain ⟨i⟩ := id
  simp only [hasObject, addObject, Array.size_push, ObjectId.mk.injEq]
  omega

def nativeEntry (library : LibraryId) (function : Builtin) : String × Value :=
  (function.name, .native ⟨library, function⟩)

def mathExports (library : LibraryId) : Exports :=
  .ofList <|
    UnaryFunction.all.map (fun f => nativeEntry library (.unary f)) ++
    BinaryFunction.all.map (fun f => nativeEntry library (.binary f)) ++
    [nativeEntry library .clamp, nativeEntry library .lerp,
      ("pi", .number 3.141592653589793), ("tau", .number 6.283185307179586)]

def vectorExports (library : LibraryId) : Exports :=
  .ofList (VectorFunction.all.map fun f => nativeEntry library (.vector f))

def randomExports (library : LibraryId) : Exports :=
  .ofList (RandomFunction.all.map fun f => nativeEntry library (.random f))

/-- Adds a new instance of the libraries, with a generator of its own. -/
def addLibraries (s : Store) (seed : UInt64) : Libraries × Store :=
  let library : LibraryId := ⟨s.generators.size⟩
  let s := { s with generators := s.generators.push (.ofSeed seed) }
  let (math, s) := s.addModule (mathExports library)
  let (vector, s) := s.addModule (vectorExports library)
  let (random, s) := s.addModule (randomExports library)
  (.ofList [("math", math), ("vector", vector), ("random", random)], s)

/-- Calls a library function, which may advance the generator of its instance. -/
def call (s : Store) (f : Native) (args : List Value) : CallResult (Value × Store) :=
  let g := s.generators[f.library.index]?.getD (.ofSeed 0)
  (f.function.call args g).map fun (value, g) =>
    (value, { s with generators := s.generators.setIfInBounds f.library.index g })

end Store
end SceneScript
