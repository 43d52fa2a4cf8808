import SceneScript.Proofs.Run.Binding
import SceneScript.Proofs.Run.Reference
import SceneScript.Run.Result

namespace SceneScript

/-- An object that was put into the scene for a binding: the name, the record, and whether the
binding was made in the file frame. -/
structure Placement where
  name : String
  object : ObjectId
  inFile : Bool

theorem Store.shape_modifyObject {f : Object → Object} (hf : ∀ o, (f o).shape = o.shape) (s : Store)
    (id other : ObjectId) : ((s.modifyObject id f).object other).shape =
      (s.object other).shape := by
  by_cases hne : other = id
  · subst hne
    simp only [Store.object, Store.modifyObject, Array.getElem?_modify, if_true]
    cases s.objects[other.index]? with
    | none => rfl
    | some o => exact hf o
  · rw [Store.object_modifyObject_of_ne s f hne]

namespace Machine

/-- What a statement is made of, with the objects that it puts into the scene. -/
inductive Step : Machine → List Placement → Machine → Prop
  | evaluate {m after : Machine} : m.GrowsTo after → Step m [] after
  | enter (m : Machine) : Step m [] { m with scope := m.scope.push }
  | leave (m : Machine) : Step m [] { m with scope := m.scope.pop }
  | bind (m : Machine) (name : String) (confined : Bool) {value : Value} :
    value.object? = none → Step m [] (m.bind name confined value)
  | place {m between : Machine} (name : String) (confined : Bool) {id : ObjectId} :
    m.GrowsTo between → (m.Grounded → between.store.hasObject id) →
    Step m [⟨name, between.store.nextId, between.scope.reachesFile name confined⟩]
      ((between.place name id).bind name confined (.object between.store.nextId))
  | change (m : Machine) (id : ObjectId) {f : Object → Object} :
    (∀ o, (f o).id = o.id ∧ (f o).parent = o.parent) →
    Step m [] { m with store := m.store.modifyObject id f }
  | say (m : Machine) (line : String) : Step m [] { m with logs := m.logs.push line }
  | report (m : Machine) (d : Diagnostic) :
    Step m [] { m with notices := m.notices.push (.error d) }

theorem links_modifyObject {store : Store} {id other : ObjectId} {f : Object → Object}
    (hf : ∀ o, (f o).id = o.id ∧ (f o).parent = o.parent) (h : store.hasObject other) :
    ((store.modifyObject id f).object other).id = (store.object other).id ∧
      ((store.modifyObject id f).object other).parent = (store.object other).parent := by
  rcases Decidable.em (other = id) with rfl | hne
  · rw [Store.object_modifyObject _ _ _ _ h, if_pos rfl]
    exact hf _
  · rw [Store.object_modifyObject_of_ne _ _ hne]
    exact ⟨rfl, rfl⟩

/-- A sequence of steps, with all that it placed, the newest first. -/
inductive Path (m : Machine) : List Placement → Machine → Prop
  | start : Path m [] m
  | step {placed new : List Placement} {between after : Machine} :
    Path m placed between → Step between new after → Path m (new ++ placed) after

def Leads (m after : Machine) : Prop := ∃ placed, Path m placed after

variable {m between after : Machine} {placed more : List Placement} {id : ObjectId}

/-! ### What steps leave alone -/

/-- A name of the scope or of the scene leads to the object. -/
def Shows (m : Machine) (id : ObjectId) : Prop :=
  (∃ name, m.scope.lookup? name = some (.object id)) ∨ ∃ name, m.scene.get? name = some id

/-- Every record keeps its shape, and one that no name leads to stays as it is. -/
structure Spares (m after : Machine) : Prop where
  shape_eq : ∀ id, m.store.hasObject id → (after.store.object id).shape = (m.store.object id).shape
  object_eq : ∀ id, m.store.hasObject id → ¬ m.Shows id → after.store.object id = m.store.object id

theorem Shows.grow (h : m.GrowsTo after) (hid : m.Shows id) : after.Shows id := by
  rw [Shows, h.scope_eq, h.scene_eq]
  exact hid

theorem Spares.of_store_eq (h : after.store = m.store) : m.Spares after where
  shape_eq _ _ := by rw [h]
  object_eq _ _ _ := by rw [h]

theorem GrowsTo.spares (h : m.GrowsTo after) : m.Spares after where
  shape_eq id hid := congrArg Object.shape (h.store.object_eq id hid)
  object_eq id hid _ := h.store.object_eq id hid

/-- The parent that a placement gives goes to children, which names lead to. -/
theorem spares_place (h : m.GrowsTo between) (name : String) (confined : Bool) (id : ObjectId)
    (value : Value) : m.Spares ((between.place name id).bind name confined value) where
  shape_eq other hother := by
    rw [Machine.bind, object_place (h.store.hasObject hother), ← h.store.object_eq other hother]
    split <;> rfl
  object_eq other hother hhidden := by
    have hchild : other ∉ between.childrenOf id := by
      intro hmem
      obtain ⟨child, -, hchild⟩ := List.mem_filterMap.1 hmem
      obtain ⟨found, hfound, hobject⟩ := Option.bind_eq_some_iff.1 hchild
      rw [h.scope_eq] at hfound
      cases found <;> cases hobject
      exact hhidden (.inl ⟨child, hfound⟩)
    rw [Machine.bind, object_place (h.store.hasObject hother), if_neg hchild]
    exact h.store.object_eq other hother

theorem spares_modifyObject (hid : m.Shows id) {f : Object → Object}
    (hf : ∀ o, (f o).shape = o.shape) :
    m.Spares { m with store := m.store.modifyObject id f } where
  shape_eq other _ := Store.shape_modifyObject hf m.store id other
  object_eq other _ hhidden := by
    apply Store.object_modifyObject_of_ne
    rintro rfl
    exact hhidden hid

/-! ### Routes -/

/-- A path whose steps leave alone what no name leads to. -/
inductive Route (m : Machine) : List Placement → Machine → Prop
  | start : Route m [] m
  | step {placed new : List Placement} {between after : Machine} :
    Route m placed between → Step between new after → between.Spares after →
      Route m (new ++ placed) after

def Moves (m after : Machine) : Prop := ∃ placed, Route m placed after

theorem Route.path (h : Route m placed after) : Path m placed after := by
  induction h with
  | start => exact .start
  | step _ hstep _ ih => exact ih.step hstep

theorem Moves.leads (h : m.Moves after) : m.Leads after := by
  obtain ⟨placed, hroute⟩ := h
  exact ⟨placed, hroute.path⟩

theorem Route.trans (h : Route m placed between) (h' : Route between more after) :
    Route m (more ++ placed) after := by
  induction h' with
  | start => exact h
  | step _ hstep hspares ih => exact List.append_assoc _ _ _ ▸ ih.step hstep hspares

theorem Step.moves (h : Step m placed after) (hspares : m.Spares after) : m.Moves after :=
  ⟨_, Route.start.step h hspares⟩

instance : IsPreorder Machine Moves where
  refl _ := ⟨[], .start⟩
  trans := by
    rintro _ _ _ ⟨_, h⟩ ⟨_, h'⟩
    exact ⟨_, h.trans h'⟩

end Machine

namespace Run
variable {α β : Type}

/-! ### Runs that are routes -/

abbrev Moves (x : Run α) : Prop := Keeps Machine.Moves x

/-- Every run of `x` is a route if a name leads to the object that `x` is to change. -/
def Changes (id : ObjectId) (x : Run α) : Prop :=
  ∀ m : Machine, m.Shows id → m.Moves (x m).2

section Changes
variable {id : ObjectId} {x : Run α} {f : α → Run β}

theorem Keeps.moves (h : Quiet x) : Moves x := fun m =>
  (Machine.Step.evaluate (h m)).moves (h m).spares

theorem Keeps.changes (h : Moves x) : Changes id x := fun m _ => h m

theorem changes_modifyObject (id : ObjectId) {g : Object → Object}
    (hg : ∀ o, (g o).id = o.id ∧ (g o).parent = o.parent ∧ (g o).shape = o.shape) :
    Changes id (modifyObject id g) := by
  intro m hm
  have hstep := Machine.Step.change m id fun o => ⟨(hg o).1, (hg o).2.1⟩
  exact hstep.moves (Machine.spares_modifyObject hm fun o => (hg o).2.2)

/-- What names lead to is the same after an evaluation. -/
theorem Changes.after_quiet (hx : Quiet x) (hf : ∀ a, Changes id (f a)) : Changes id (x >>= f) := by
  intro m hm
  rcases h : x m with ⟨stop | a, between⟩
  · rw [bind_apply_of_error f h]
    exact hx.moves.rel h
  · rw [bind_apply_of_ok f h]
    exact IsTrans.trans _ _ _ (hx.moves.rel h) (hf a between (hm.grow (hx.rel h)))

theorem Changes.bind (hx : Changes id x) (hf : ∀ a, Moves (f a)) : Changes id (x >>= f) := by
  intro m hm
  have hmoves : m.Moves (x m).2 := hx m hm
  rcases h : x m with ⟨stop | a, between⟩ <;> rw [h] at hmoves
  · rw [bind_apply_of_error f h]
    exact hmoves
  · rw [bind_apply_of_ok f h]
    exact IsTrans.trans _ _ _ hmoves (hf a between)

/-- An object that is chosen by a name may be changed. -/
theorem moves_of_yields {x : Run ObjectId} (hx : Quiet x) (hshows : Yields Machine.Shows x)
    {f : ObjectId → Run β} (hf : ∀ id, Changes id (f id)) : Moves (x >>= f) := by
  refine hx.moves.bind_of_ok fun m id between h => ?_
  exact IsTrans.trans _ _ _ (hx.moves.rel h) (hf id between (hshows m id between h))

end Changes

theorem shows_objectNamed (name : String) : Yields Machine.Shows (objectNamed name) := by
  intro m id after h
  obtain ⟨found, between, hfound, hrest⟩ := exists_of_bind_eq_ok h
  cases hfound
  obtain ⟨hid, rfl⟩ := ofOption_eq_ok hrest
  obtain ⟨value, hvalue, hobject⟩ := Option.bind_eq_some_iff.1 hid
  cases value <;> cases hobject
  exact .inl ⟨name, hvalue⟩

theorem shows_selectObject (target : String) (child : Option String) :
    Yields Machine.Shows (selectObject target child) := by
  cases child with
  | none =>
    intro m id after h
    obtain ⟨found, between, hfound, hrest⟩ := exists_of_bind_eq_ok h
    cases hrest
    exact shows_objectNamed target m id after hfound
  | some child =>
    refine .bind fun _ => .bind fun o => ?_
    dsimp only
    split
    · exact shows_objectNamed child
    · exact .bind fun _ => shows_objectNamed child

theorem moves_inBlock {x : Run α} (h : Moves x) : Moves (inBlock x) := fun m =>
  IsTrans.trans _ _ _ ((Machine.Step.enter m).moves (.of_store_eq rfl))
    (IsTrans.trans _ _ _ (h { m with scope := m.scope.push })
      ((Machine.Step.leave _).moves (.of_store_eq rfl)))

/-- The scene leads to the children that are painted. -/
theorem moves_paintChildren (material : Option Material) (names : List String) :
    Moves (paintChildren material names) := by
  induction names with
  | nil => exact .pure ()
  | cons name more ih =>
    refine Keeps.get.bind_of_ok fun m found between hget => ?_
    cases hget
    cases hid : m.scene.get? name with
    | none => exact ih m
    | some id =>
      have hchanges : Changes id (do
          unless (← object id).isGroup do modifyObject id fun o => { o with material := material }
          paintChildren material more) := by
        refine .after_quiet (.object id) fun o => ?_
        dsimp only
        split
        · exact Keeps.changes ih
        · exact Changes.bind (changes_modifyObject id fun _ => ⟨rfl, rfl, rfl⟩) fun _ => ih
      exact hchanges m (.inr ⟨name, hid⟩)

theorem changes_paint (id : ObjectId) (material : Option Material) :
    Changes id (paint id material) := by
  refine .after_quiet (.object id) fun o => ?_
  split
  · exact Keeps.changes (moves_paintChildren material _)
  · exact changes_modifyObject id fun _ => ⟨rfl, rfl, rfl⟩

theorem changes_setPosition (id : ObjectId) (value : AssignedValue) :
    Changes id (setPosition id value) :=
  .after_quiet (quiet_evaluatePosition value) fun _ => changes_modifyObject id fun _ =>
    ⟨rfl, rfl, rfl⟩

theorem changes_setRotation (id : ObjectId) (value : AssignedValue) :
    Changes id (setRotation id value) :=
  .after_quiet (quiet_evaluateVector value) fun _ => changes_modifyObject id fun _ =>
    ⟨rfl, rfl, rfl⟩

theorem changes_setScale (id : ObjectId) (value : AssignedValue) : Changes id (setScale id value) :=
  .after_quiet (quiet_evaluateScale value) fun _ => changes_modifyObject id fun _ => ⟨rfl, rfl, rfl⟩

theorem changes_setMaterial (id : ObjectId) (value : AssignedValue) :
    Changes id (setMaterial id value) := by
  cases value with
  | expr e =>
    exact .after_quiet (quiet_evaluateMaterial e) fun material => changes_paint id material
  | triple t => exact Keeps.changes (.fail _)
  | relative anchor offset => exact Keeps.changes (.fail _)

theorem moves_setProperty (target : String) (child : Option String) (property : String)
    (value : AssignedValue) : Moves (setProperty target child property value) := by
  refine moves_of_yields (quiet_selectObject target child) (shows_selectObject target child)
    fun id => ?_
  split
  · exact changes_setPosition id value
  · exact changes_setPosition id value
  · exact changes_setRotation id value
  · exact changes_setRotation id value
  · exact changes_setScale id value
  · exact changes_setMaterial id value
  · exact Keeps.changes (.fail _)

theorem changes_turnBy (id : ObjectId) (angle : Float) : Changes id (turnBy id angle) :=
  changes_modifyObject id fun _ => ⟨rfl, rfl, rfl⟩

theorem moves_callRotate (target : String) (args : List Expr) (excluded : Option String) :
    Moves (callRotate target args excluded) := by
  refine moves_of_yields (.objectNamed target) (shows_objectNamed target) fun id => ?_
  cases args with
  | nil => exact Keeps.changes (.fail _)
  | cons angle more =>
    refine .after_quiet (quiet_evaluateNumber angle) fun degrees => ?_
    refine (changes_turnBy id _).bind fun _ => ?_
    cases excluded with
    | none => exact .pure ()
    | some name =>
      exact moves_of_yields (.objectNamed name) (shows_objectNamed name) fun other =>
        changes_turnBy other _

theorem moves_callMove (target : String) (args : List Expr) : Moves (callMove target args) :=
  moves_of_yields (.objectNamed target) (shows_objectNamed target) fun id =>
    .after_quiet (quiet_evaluateAll args) fun _ => .after_quiet (.ofOption _ _) fun _ =>
      changes_modifyObject id fun _ => ⟨rfl, rfl, rfl⟩

theorem moves_callMethod (target method : String) (args : List Expr) (excluded : Option String) :
    Moves (callMethod target method args excluded) := by
  refine (Keeps.lookup? target).bind fun value => ?_
  split
  next id =>
    exact (quiet_evaluateAll args).moves.bind fun values =>
      (quiet_callMember target id method values).moves.bind fun _ => .pure ()
  next =>
    split
    · exact moves_callRotate target args excluded
    · exact moves_callMove target args
    · exact .pure ()

/-! ### Assignments -/

theorem moves_assign (span : Span) (name : String) (confined : Bool) (e : Expr) :
    Moves (execute (.assign span name confined e)) := by
  intro m
  rw [execute]
  rcases h : placing span (evaluate e) m with ⟨stop | value, between⟩
  · rw [bind_apply_of_error _ h]
    exact ((quiet_evaluate e).placing span).moves.rel h
  -- A value that is no object is only bound; an object is placed and bound in one step.
  have hgrows : m.GrowsTo between := ((quiet_evaluate e).placing span).rel h
  rw [bind_apply_of_ok _ h]
  cases hvalue : value.object? with
  | none =>
    rw [bind_apply_of_ok _ (bindObject_of_object?_eq_none name hvalue between)]
    exact IsTrans.trans _ _ _ ((Machine.Step.evaluate hgrows).moves hgrows.spares)
      ((Machine.Step.bind between name confined hvalue).moves (.of_store_eq rfl))
  | some id =>
    obtain rfl : value = .object id := Value.eq_object_of_object? hvalue
    have hid : m.Grounded → between.store.hasObject id := fun hm =>
      holds_of_evaluate hm (placing_eq_ok h) id rfl
    rw [bind_apply_of_ok _ (bindObject_object name id between)]
    exact (Machine.Step.place name confined hgrows hid).moves
      (Machine.spares_place hgrows name confined id _)

theorem moves_assignCounter (counter : String) (x : Float) :
    Moves (modifyScope (·.assign counter (.number x))) := fun m =>
  (Machine.Step.bind m counter false (rfl : (Value.number x).object? = none)).moves
    (.of_store_eq rfl)

/-! ### Statements -/

theorem moves_reportLimit (span : Span) : Moves (reportLimit span) := fun m =>
  (Machine.Step.report m _).moves (.of_store_eq rfl)

mutual
/-- Executing a statement is a route, whether it fails or not. -/
theorem moves_execute : ∀ s : Stmt, Moves (execute s)
  | .imports _ => .pure ()
  | .assign span name confined value => moves_assign span name confined value
  | .setProperty span target child property value =>
    (moves_setProperty target child property value).placing span
  | .callMethod span target method args excluded =>
    (moves_callMethod target method args excluded).placing span
  | .print span value =>
    ((quiet_evaluate value).placing span).moves.bind fun evaluated => (Keeps.display evaluated).bind
      fun line m => (Machine.Step.say m line).moves (.of_store_eq rfl)
  | .branch span condition thenBlock none => by
    refine ((quiet_evaluate condition).placing span).moves.bind fun value => ?_
    split
    · exact moves_inBlock (moves_executeAll thenBlock)
    · exact .pure ()
  | .branch span condition thenBlock (some elseBlock) => by
    refine ((quiet_evaluate condition).placing span).moves.bind fun value => ?_
    split
    · exact moves_inBlock (moves_executeAll thenBlock)
    · exact moves_inBlock (moves_executeAll elseBlock)
  | .whileLoop span condition body =>
    .repeatBody (quiet_conditionHolds? span condition).moves
      (fun _ => moves_inBlock (moves_executeAll body)) (moves_reportLimit span) maxIterations
  | .forLoop span counter start stop step body => by
    refine ((quiet_evaluateNumber start).placing span).moves.bind fun first => ?_
    refine (moves_assignCounter counter first).bind fun _ => ?_
    refine .repeatBody (quiet_nextStep? span counter stop step).moves (fun size => ?_)
      (moves_reportLimit span) maxIterations
    exact (moves_inBlock (moves_executeAll body)).bind fun _ =>
      ((quiet_readCounter counter).placing span).moves.bind fun current =>
        moves_assignCounter counter (current + size)
theorem moves_executeAll : ∀ block : List Stmt, Moves (executeAll block)
  | [] => .pure ()
  | first :: more => ((moves_execute first).placing first.span).bind fun _ => moves_executeAll more
end

end Run

/-! ### Steps and references -/

/-- What the modules of a store export is in it, and so is what the table of a program binds. -/
structure Store.Supplies (s : Store) (modules : Table Value) : Prop where
  closed : s.Closed
  held : ∀ name value, modules.get? name = some value → s.Holds value

theorem Store.supplies_empty : Store.empty.Supplies .empty where
  closed := by
    intro id name value h
    have hexports : Store.empty.exports id = .empty := by simp [exports, empty]
    rw [hexports] at h
    cases h
  held := by
    intro name value h
    cases h

namespace Machine
variable {m after : Machine} {placed : List Placement}

/-- A machine is grounded if what it holds beyond a grounded one is in its store. -/
theorem Grounded.extend (hm : m.Grounded) (hmodules : after.store.modules = m.store.modules)
    (hmore : ∀ id, m.store.hasObject id → after.store.hasObject id)
    (hscope : ∀ value, after.scope.Binds value → after.store.Holds value ∨ m.scope.Binds value)
    (hscene : ∀ name id, after.scene.get? name = some id →
      after.store.hasObject id ∨ m.scene.get? name = some id) : after.Grounded where
  closed := by
    intro id name value hvalue object hobject
    have hexports : after.store.exports id = m.store.exports id := by
      simp only [Store.exports, hmodules]
    exact hmore _ (hm.closed id name value (hexports ▸ hvalue) object hobject)
  scope := by
    intro value hvalue
    rcases hscope value hvalue with hheld | hold
    · exact hheld
    · exact fun id hid => hmore id (hm.scope value hold id hid)
  scene := by
    intro name id hid
    rcases hscene name id hid with hheld | hold
    · exact hheld
    · exact hmore id (hm.scene name id hold)

/-- A copy that is made now is no child of anything yet. -/
theorem Grounded.nextId_not_mem_childrenOf (hm : m.Grounded) (id : ObjectId) :
    m.store.nextId ∉ m.childrenOf id := by
  intro hmem
  obtain ⟨child, -, hchild⟩ := List.mem_filterMap.1 hmem
  exact m.store.not_hasObject_nextId (hm.hasObject_of_lookup? hchild)

theorem Step.grounded (h : Step m placed after) (hm : m.Grounded) : after.Grounded := by
  cases h with
  | evaluate hgrows => exact hm.grow hgrows
  | enter =>
    exact hm.extend rfl (fun _ => id) (fun _ hv => .inr (Scope.binds_push hv)) fun _ _ => .inr
  | leave =>
    exact hm.extend rfl (fun _ => id) (fun _ hv => .inr (Scope.binds_pop hv)) fun _ _ => .inr
  | bind name confined hvalue =>
    refine hm.extend rfl (fun _ => id) (fun value hv => ?_) fun _ _ => .inr
    rcases Scope.binds_bind hv with rfl | hold
    · exact .inl (Store.holds_of_object?_eq_none _ hvalue)
    · exact .inr hold
  | @place between name confined id hgrows hid =>
    have hbetween : between.Grounded := hm.grow hgrows
    have hnew : (between.place name id).store.hasObject between.store.nextId :=
      hasObject_place.2 (.inr rfl)
    refine hbetween.extend (modules_place between name id) (fun other hother => ?_)
      (fun value hv => ?_) fun other otherId hother => ?_
    · exact hasObject_place.2 (.inl hother)
    · rcases Scope.binds_bind hv with rfl | hold
      · refine .inl fun other hother => ?_
        cases hother
        exact hnew
      · exact .inr hold
    · rw [Machine.bind, Machine.place, Table.get?_insert] at hother
      split at hother
      · cases hother
        exact .inl hnew
      · exact .inr hother
  | change id hf =>
    exact hm.extend rfl (fun other => (Store.hasObject_modifyObject m.store id other _).2)
      (fun _ => .inr) fun _ _ => .inr
  | say line => exact ⟨hm.closed, hm.scope, hm.scene⟩
  | report d => exact ⟨hm.closed, hm.scope, hm.scene⟩

theorem Path.grounded (h : Path m placed after) (hm : m.Grounded) : after.Grounded := by
  induction h with
  | start => exact hm
  | step _ hstep ih => exact hstep.grounded ih

theorem Step.size_le (h : Step m placed after) :
    m.store.objects.size ≤ after.store.objects.size := by
  cases h with
  | evaluate hgrows => exact hgrows.store.size_le
  | @place between name confined id hgrows hid =>
    rw [Machine.bind, size_place]
    exact Nat.le_succ_of_le hgrows.store.size_le
  | change id hf => simp [Store.modifyObject]
  | _ => exact Nat.le_refl _

theorem Path.size_le (h : Path m placed after) :
    m.store.objects.size ≤ after.store.objects.size := by
  induction h with
  | start => exact Nat.le_refl _
  | step _ hstep ih => exact Nat.le_trans ih hstep.size_le

theorem Step.modules_eq (h : Step m placed after) : after.store.modules = m.store.modules := by
  cases h with
  | evaluate hgrows => exact hgrows.store.modules
  | @place between name confined id hgrows hid =>
    exact (modules_place between name id).trans hgrows.store.modules
  | _ => rfl

theorem Path.modules_eq (h : Path m placed after) : after.store.modules = m.store.modules := by
  induction h with
  | start => rfl
  | step _ hstep ih => exact hstep.modules_eq.trans ih

/-- A program begins with the entries of its table over the constants. -/
theorem binds_start {modules : Table Value} {store : Store} {value : Value}
    (h : (start modules store).scope.Binds value) :
    (∃ name, modules.get? name = some value) ∨ ∃ name, (name, value) ∈ Scope.constants := by
  rcases Scope.binds_seedAll h with ⟨name, hname⟩ | h
  · exact .inl ⟨name, (Table.get?_eq_some_iff_mem modules name value).2 hname⟩
  · rcases Scope.binds_seedAll h with hconstant | h
    · exact .inr hconstant
    · exact absurd h (Scope.not_binds_empty value)

theorem object?_of_mem_constants {name : String} {value : Value}
    (h : (name, value) ∈ Scope.constants) : value.object? = none := by
  have hconstants : ∀ entry ∈ Scope.constants, entry.2.object? = none := by
    simp [Scope.constants, Scope.colors, Value.object?]
  exact hconstants _ h

theorem grounded_start {modules : Table Value} {store : Store} (h : store.Supplies modules) :
    (start modules store).Grounded where
  closed := h.closed
  scene _ _ hid := nomatch hid
  scope := by
    intro value hvalue
    rcases binds_start hvalue with ⟨name, hname⟩ | ⟨name, hname⟩
    · exact h.held name value hname
    · exact Store.holds_of_object?_eq_none _ (object?_of_mem_constants hname)

/-! ### Programs -/

theorem moves_runStatement {s : Stmt} (h : m.runStatement s = .ok after) : m.Moves after := by
  rcases runStatement_cases h with hran | ⟨d, ended, hran, rfl⟩
  · exact (Run.moves_execute s).rel hran
  · have hended : m.Moves ended := (Run.moves_execute s).rel hran
    exact IsTrans.trans _ _ _ hended ((Step.report ended _).moves (.of_store_eq rfl))

theorem moves_foldlM {statements : List Stmt}
    (h : statements.foldlM runStatement m = .ok after) : m.Moves after :=
  of_foldlM (fun _ _ _ _ hrun hm => IsTrans.trans _ _ _ hm (moves_runStatement hrun)) h (refl m)

end Machine

namespace Program
variable {p : Program} {modules : Table Value} {store : Store}

/-- A program comes to a machine between two of its statements, or after the last. -/
def Reaches (p : Program) (modules : Table Value) (store : Store) (m : Machine) : Prop :=
  ∃ done rest, p.statements = done ++ rest ∧
    done.foldlM Machine.runStatement (.start modules store) = .ok m

theorem Reaches.moves {m : Machine} (h : p.Reaches modules store m) :
    (Machine.start modules store).Moves m := by
  obtain ⟨done, rest, -, hdone⟩ := h
  exact Machine.moves_foldlM hdone

theorem Reaches.leads {m : Machine} (h : p.Reaches modules store m) :
    (Machine.start modules store).Leads m := h.moves.leads

theorem exists_reaches_of_run {r : Result} (h : p.run modules store = .ok r) :
    ∃ m, p.Reaches modules store m ∧ m.result = r := by
  obtain ⟨m, hend, rfl⟩ := run_eq_ok_iff.1 h
  exact ⟨m, ⟨p.statements, [], by simp, hend⟩, rfl⟩

theorem modules_of_run {r : Result} (h : p.run modules store = .ok r) :
    r.store.modules = store.modules := by
  obtain ⟨m, hm, rfl⟩ := exists_reaches_of_run h
  obtain ⟨placed, hpath⟩ := hm.leads
  exact hpath.modules_eq

end Program
end SceneScript
