import SceneScript.Proofs.Module.Units
import SceneScript.Proofs.Program.WellFormed
import SceneScript.Proofs.Scene.Links

namespace SceneScript

/-! ### Well-formed meshes -/

def Face.WellFormed (count : Nat) (face : Face) : Prop :=
  3 ≤ face.indices.length ∧ ∀ index ∈ face.indices, index < count

/-- What is no mesh has no faces. -/
def Shape.WellMeshed : Shape → Prop
  | mesh vertices faces => ∀ face ∈ faces, face.WellFormed vertices.length
  | _ => True

def Store.WellMeshed (s : Store) : Prop := ∀ id, (s.object id).shape.WellMeshed

theorem Except.length_mapM {ε α β : Type} {f : α → Except ε β} {items : List α} {results : List β}
    (h : items.mapM f = .ok results) : results.length = items.length := by
  induction items generalizing results with
  | nil =>
    cases h
    rfl
  | cons first more ih =>
    rw [List.mapM_cons] at h
    cases hfirst : f first with
    | error cause =>
      rw [hfirst] at h
      cases h
    | ok b =>
      cases hmore : more.mapM f with
      | error cause =>
        rw [hfirst, hmore] at h
        cases h
      | ok bs =>
        rw [hfirst, hmore] at h
        cases h
        exact congrArg (· + 1) (ih hmore)

namespace Shape

/-- The sides of a cuboid are quadrilaterals over its eight vertices. -/
theorem wellMeshed_of_cube {texts : List String} {shape : Shape} (h : cube texts = .ok shape) :
    shape.WellMeshed := by
  unfold cube at h
  split at h
  next hcount =>
    cases hvertices : texts.mapM Vector3.ofText with
    | error cause =>
      rw [hvertices] at h
      cases h
    | ok vertices =>
      rw [hvertices] at h
      cases h
      have hlength : vertices.length = 8 := (Except.length_mapM hvertices).trans hcount
      refine List.forall_mem_map.2 fun indices hindices => ?_
      rw [Face.WellFormed, hlength]
      revert indices
      decide
  next => cases h

end Shape

/-- A modifier leaves vertices and faces alone, or makes what is no mesh. -/
theorem Modifier.wellMeshed_of_apply {modifier : Modifier} {o changed : Object}
    (h : modifier.apply o = .ok changed) (ho : o.shape.WellMeshed) : changed.shape.WellMeshed := by
  cases modifier with
  | pyramid height direction =>
    rw [apply] at h
    split at h <;> cases h
    trivial
  | _ =>
    cases h
    exact ho

namespace Store
variable {s t : Store}

theorem wellMeshed_empty : empty.WellMeshed := by
  intro id face hface
  cases hface

theorem WellMeshed.of_objects (hs : s.WellMeshed) (h : t.objects = s.objects) : t.WellMeshed := by
  intro id
  have hobject : t.object id = s.object id := by simp only [object, h]
  rw [hobject]
  exact hs id

theorem WellMeshed.addObject (hs : s.WellMeshed) {o : Object} (ho : o.shape.WellMeshed) :
    (s.addObject o).2.WellMeshed := by
  intro id
  rw [object_addObject]
  split
  · exact ho
  · exact hs id

theorem WellMeshed.modifyObject (hs : s.WellMeshed) (id : ObjectId) {f : Object → Object}
    (hf : ∀ o, (f o).shape = o.shape) : (s.modifyObject id f).WellMeshed := by
  intro other
  rw [shape_modifyObject hf]
  exact hs other

end Store

/-! ### Runs -/

def Machine.KeepsMeshes (m after : Machine) : Prop := m.store.WellMeshed → after.store.WellMeshed

instance : IsPreorder Machine Machine.KeepsMeshes where
  refl _ := id
  trans _ _ _ h h' := h' ∘ h

namespace Run
variable {α β : Type}

abbrev Meshed (x : Run α) : Prop := Keeps Machine.KeepsMeshes x

theorem meshed_of_objects {x : Run α} (h : ∀ m, (x m).2.store.objects = m.store.objects) :
    Meshed x :=
  fun m hm => hm.of_objects (h m)

theorem meshed_addObject {o : Object} (h : o.shape.WellMeshed) : Meshed (addObject o) :=
  fun _ hm => hm.addObject h

theorem meshed_modifyObject (id : ObjectId) {f : Object → Object} (h : ∀ o, (f o).shape = o.shape) :
    Meshed (modifyObject id f) := fun _ hm => hm.modifyObject id h

theorem meshed_modifyScope (f : Scope → Scope) : Meshed (modifyScope f) :=
  meshed_of_objects fun _ => rfl

theorem meshed_warn (span : Span) (concern : Concern) : Meshed (warn span concern) :=
  meshed_of_objects fun _ => rfl

theorem meshed_inBlock {x : Run α} (h : Meshed x) : Meshed (inBlock x) :=
  fun m hm => h { m with scope := m.scope.push } hm

theorem meshed_callNative (shownAs : String) (f : Native) (args : List Value) :
    Meshed (callNative shownAs f args) := by
  refine meshed_of_objects fun m => ?_
  unfold callNative
  rw [bind_apply_of_ok _ (getStore_apply m)]
  cases h : m.store.call f args with
  | error failure => cases failure <;> rfl
  | ok result =>
    obtain ⟨generators, hafter⟩ := Store.exists_of_call_eq_ok h
    show result.2.objects = m.store.objects
    rw [hafter]

/-! ### References and calls -/

theorem meshed_followMembers (span : Span) (owner : String) (value : Value)
    (members : List String) : Meshed (followMembers span owner value members) := by
  induction members generalizing owner value with
  | nil => exact .pure value
  | cons member more ih =>
    exact Keeps.getStore.bind fun _ => ((Keeps.ofOption _ _).placing span).bind fun found =>
      ih _ found

theorem meshed_callMember (owner : String) (id : ModuleId) (name : String) (args : List Value) :
    Meshed (callMember owner id name args) := by
  refine Keeps.getStore.bind fun store => ?_
  cases (store.exports id).get? name with
  | none => exact .fail _
  | some value =>
    cases value with
    | native f => exact meshed_callNative _ f args
    | _ => exact .fail _

theorem meshed_callName (callee : String) (args : List Value) : Meshed (callName callee args) := by
  refine Keeps.getStore.bind fun store => ?_
  cases (args.head?.getD .nil).convert? callee store.display with
  | some converted => exact .ofExcept converted
  | none =>
    refine (Keeps.lookup callee).bind fun value => ?_
    cases value with
    | native f => exact meshed_callNative _ f args
    | _ => exact .fail _

theorem meshed_callReceiver (receiver callee : String) (args : List Value) :
    Meshed (callReceiver receiver callee args) := by
  refine (Keeps.lookup receiver).bind fun value => ?_
  cases value with
  | module id => exact meshed_callMember receiver id callee args
  | _ => exact .fail _

/-! ### Meshes and modifiers -/

theorem meshed_referredMaterial? (reference : MaterialRef) :
    Meshed (referredMaterial? reference) := by
  cases reference with
  | named name => exact (Keeps.lookup? name).bind fun _ => .pure _
  | member library item =>
    refine (Keeps.lookup? library).bind fun value => ?_
    rcases value with _ | value
    · exact .pure none
    · cases value with
      | module id => exact Keeps.getStore.bind fun _ => .pure _
      | _ => exact .pure none

theorem meshed_faceMaterial (span : Span) (reference : Option MaterialRef) :
    Meshed (faceMaterial span reference) := by
  cases reference with
  | none => exact .pure none
  | some reference =>
    refine (meshed_referredMaterial? reference).bind fun found => ?_
    cases found with
    | some m => exact .pure _
    | none => exact (meshed_warn span _).bind fun _ => .pure none

theorem meshed_buildFace (span : Span) (count : Nat) (face : FaceLiteral) :
    Meshed (buildFace span count face) := by
  unfold buildFace
  cases face.indices.find? (count ≤ ·) with
  | some index => exact .failAt _ _
  | none => exact (meshed_faceMaterial span face.material).bind fun _ => .pure _

theorem meshed_buildFaces (span : Span) (count : Nat) (faces : List FaceLiteral) :
    Meshed (buildFaces span count faces) := by
  induction faces with
  | nil => exact .pure []
  | cons face more ih =>
    exact (meshed_buildFace span count face).bind fun _ => ih.bind fun _ => .pure _

/-- A face is built of indices that all count a vertex. -/
theorem wellFormed_of_buildFace {span : Span} {count : Nat} {literal : FaceLiteral} {face : Face}
    {m after : Machine} (hliteral : literal.WellFormed)
    (h : buildFace span count literal m = (.ok face, after)) : face.WellFormed count := by
  unfold buildFace at h
  cases hfind : literal.indices.find? (count ≤ ·) with
  | some index =>
    rw [hfind] at h
    cases h
  | none =>
    rw [hfind] at h
    obtain ⟨material, _, -, hface⟩ := exists_of_bind_eq_ok h
    cases hface
    refine ⟨hliteral.1, fun index hindex => ?_⟩
    simpa using List.find?_eq_none.1 hfind index hindex

theorem wellFormed_of_buildFaces {span : Span} {count : Nat} {literals : List FaceLiteral}
    {faces : List Face} {m after : Machine} (hliterals : ∀ literal ∈ literals, literal.WellFormed)
    (h : buildFaces span count literals m = (.ok faces, after)) :
    ∀ face ∈ faces, face.WellFormed count := by
  induction literals generalizing faces m after with
  | nil =>
    cases h
    exact nofun
  | cons literal more ih =>
    obtain ⟨hliteral, hmore⟩ := List.forall_mem_cons.1 hliterals
    obtain ⟨first, between, hfirst, hnext⟩ := exists_of_bind_eq_ok h
    obtain ⟨others, _, hothers, hdone⟩ := exists_of_bind_eq_ok hnext
    cases hdone
    exact List.forall_mem_cons.2 ⟨wellFormed_of_buildFace hliteral hfirst, ih hmore hothers⟩

theorem meshed_modified (span : Span) (kind : String) (props : Properties) :
    Meshed (modified span kind props) := by
  unfold modified
  rcases takeBase? props with _ | ⟨base, others⟩
  · exact .failAt _ _
  · cases base with
    | object id =>
      -- The copy has the shape of its original, which the store has before the run.
      refine Keeps.bind_of_ok (Keeps.object id) fun m o between ho hm => ?_
      cases ho
      have hrest (copy : Object) (hcopy : copy.shape.WellMeshed) : Meshed (do
          let modifier ← placing span (ofExcept (Modifier.ofProperties kind others))
          let changed ← placing span (ofExcept (modifier.apply copy))
          .object <$> addObject changed : Run Value) := by
        refine ((Keeps.ofExcept _).placing span).bind fun modifier => ?_
        refine Keeps.bind_of_ok ((Keeps.ofExcept _).placing span)
          fun m changed between hchanged => ?_
        obtain ⟨happly, rfl⟩ := ofExcept_eq_ok (placing_eq_ok hchanged)
        exact (meshed_addObject (modifier.wellMeshed_of_apply happly hcopy)).map
          Value.object between
      exact hrest { m.store.object id with id := "", parent := none } (hm id) m hm
    | _ => exact (Keeps.typeMismatch _ _).placing span

/-! ### Expressions -/

theorem meshed_cube (span : Span) (vertices : List String) :
    Meshed (evaluate (.cube span vertices)) := by
  rw [evaluate]
  refine Keeps.bind_of_ok ((Keeps.ofExcept _).placing span) fun m shape between hshape => ?_
  obtain ⟨hcube, rfl⟩ := ofExcept_eq_ok (placing_eq_ok hshape)
  have hobject : (Object.ofShape shape).shape.WellMeshed := Shape.wellMeshed_of_cube hcube
  exact (meshed_addObject hobject).map Value.object between

theorem meshed_mesh (span : Span) (vertices : List Vector3) {faces : List FaceLiteral}
    (h : ∀ face ∈ faces, face.WellFormed) : Meshed (evaluate (.mesh span vertices faces)) := by
  rw [evaluate]
  refine Keeps.bind_of_ok (meshed_buildFaces span vertices.length faces)
    fun m built between hbuilt => ?_
  have hobject : (Object.ofShape (.mesh vertices built)).shape.WellMeshed :=
    wellFormed_of_buildFaces h hbuilt
  exact IsTrans.trans _ _ _ ((meshed_buildFaces span vertices.length faces).rel hbuilt)
    ((meshed_addObject hobject).map Value.object between)

mutual
/-- Every object that a well-formed expression makes is well meshed. -/
theorem meshed_evaluate : ∀ e : Expr, e.WellFormed → Meshed (evaluate e)
  | .number _ x, _ => .pure (Value.number x)
  | .string _ text, _ => .pure (Value.string text)
  | .reference span name members, _ =>
    ((Keeps.lookup name).placing span).bind fun value =>
      meshed_followMembers span name value members
  | .binary span _ left right, h =>
    (meshed_evaluate left h.1).bind fun _ => (meshed_evaluate right h.2).bind fun _ =>
      (Keeps.getStore.bind fun _ => .ofExcept _).placing span
  | .call span receiver callee args, h => by
    refine ((meshed_evaluateAll args h).bind fun values => ?_).placing span
    cases receiver with
    | none => exact meshed_callName callee values
    | some receiver => exact meshed_callReceiver receiver callee values
  | .cube span vertices, _ => meshed_cube span vertices
  | .mesh span vertices _, h => meshed_mesh span vertices h
  | .material span properties, h =>
    (meshed_evaluateProperties properties h).bind fun _ => ((Keeps.ofExcept _).placing span).map _
  | .modifier span kind properties, h =>
    (meshed_evaluateProperties properties h).bind fun props => meshed_modified span kind props
  | .group _ children, _ => (@meshed_addObject (.ofShape (.group children)) trivial).map _
theorem meshed_evaluateAll : ∀ es : List Expr, Expr.AllWellFormed es → Meshed (evaluateAll es)
  | [], _ => .pure []
  | first :: more, h =>
    (meshed_evaluate first h.1).bind fun _ => (meshed_evaluateAll more h.2).bind fun _ => .pure _
theorem meshed_evaluateProperty : ∀ p : Property Expr, Expr.PropertyWellFormed p →
    Meshed (evaluateProperty p)
  | .single _ e, h => (meshed_evaluate e h).bind fun _ => .pure _
  | .list _ es, h => (meshed_evaluateAll es h.2).bind fun _ => .pure _
theorem meshed_evaluateProperties : ∀ properties : List (Property Expr),
    Expr.PropertiesWellFormed properties → Meshed (evaluateProperties properties)
  | [], _ => .pure []
  | first :: more, h => (meshed_evaluateProperty first h.1).bind fun _ =>
      (meshed_evaluateProperties more h.2).bind fun _ => .pure _
end

section
variable {e : Expr} {value : AssignedValue}

theorem meshed_evaluateNumber (h : e.WellFormed) : Meshed (evaluateNumber e) := by
  refine (meshed_evaluate e h).bind fun value => ?_
  cases value.number? with
  | some x => exact .pure x
  | none => exact (Keeps.typeMismatch _ _).placing e.span

/-! ### Values that statements ask for -/

theorem meshed_evaluateTriple {coords : Triple} (h : coords.WellFormed) :
    Meshed (evaluateTriple coords) :=
  (meshed_evaluateNumber h.x).bind fun _ => (meshed_evaluateNumber h.y).bind fun _ =>
    (meshed_evaluateNumber h.z).bind fun _ => .pure _

theorem meshed_vectorOf (expected : String) (value : Value) : Meshed (vectorOf expected value) := by
  unfold vectorOf
  cases value.vector? with
  | some v => exact .pure v
  | none => exact .typeMismatch _ _

theorem meshed_evaluateVector (h : value.WellFormed) : Meshed (evaluateVector value) := by
  cases value with
  | triple coords => exact meshed_evaluateTriple h
  | expr e => exact (meshed_evaluate e h).bind fun _ => meshed_vectorOf _ _
  | relative anchor offset => exact .fail _

theorem meshed_evaluatePosition (h : value.WellFormed) : Meshed (evaluatePosition value) := by
  cases value with
  | relative anchor offset =>
    refine (Keeps.objectNamed anchor).bind fun id => (Keeps.object id).bind fun base => ?_
    cases offset with
    | some coords => exact (meshed_evaluateTriple (h coords rfl)).bind fun _ => .pure _
    | none => exact .pure _
  | expr e => exact meshed_evaluateVector h
  | triple coords => exact meshed_evaluateVector h

theorem meshed_evaluateScale (h : value.WellFormed) : Meshed (evaluateScale value) := by
  cases value with
  | expr e =>
    refine (meshed_evaluate e h).bind fun found => ?_
    cases found with
    | number x => exact .pure _
    | _ => exact meshed_vectorOf _ _
  | triple coords => exact meshed_evaluateVector h
  | relative anchor offset => exact meshed_evaluateVector h

theorem meshed_evaluateKnown? (h : e.WellFormed) : Meshed (evaluateKnown? e) := by
  intro m
  unfold evaluateKnown?
  rcases he : evaluate e m with ⟨(d | _) | value, after⟩
  · have hafter : m.KeepsMeshes after := (meshed_evaluate e h).rel he
    have hwarned : Meshed (do warn e.span (.unresolvedMaterial d.cause); return none) :=
      (meshed_warn e.span _).bind fun _ => .pure (none : Option Value)
    dsimp only
    split
    · exact IsTrans.trans _ _ _ hafter (hwarned after)
    · exact IsTrans.trans _ _ _ hafter (hwarned after)
    · exact hafter
  · exact (meshed_evaluate e h).rel he
  · exact (meshed_evaluate e h).rel he

theorem meshed_evaluateMaterial (h : e.WellFormed) : Meshed (evaluateMaterial e) := by
  refine (meshed_evaluateKnown? h).bind fun known => ?_
  have hwarned : ∀ (value : Value) (found : Option Material), Meshed (do
      if found.isNone then warn e.span (.notAMaterial (← display value))
      return found) := by
    intro value found
    cases found with
    | some m => exact .pure _
    | none =>
      exact (Keeps.display value).bind fun _ => (meshed_warn e.span _).bind fun _ => .pure none
  rcases known with _ | value
  · exact .pure none
  · cases value with
    | nil => exact .pure none
    | material m => exact .pure _
    | string name => exact (Keeps.lookup? name).bind fun _ => (Keeps.pure _).bind (hwarned _)
    | _ => exact (Keeps.pure none).bind (hwarned _)

/-! ### Assignments and methods -/

theorem meshed_paintChildren (material : Option Material) (names : List String) :
    Meshed (paintChildren material names) := by
  induction names with
  | nil => exact .pure ()
  | cons name more ih =>
    refine Keeps.get.bind fun m => ?_
    cases m.scene.get? name with
    | none => exact (Keeps.pure ()).bind fun _ => ih
    | some id =>
      refine (Keeps.object id).bind fun o => ?_
      dsimp only
      split
      · exact ih
      · exact Keeps.bind (meshed_modifyObject id fun _ => rfl) fun _ => ih

theorem meshed_setMaterial (id : ObjectId) (h : value.WellFormed) :
    Meshed (setMaterial id value) := by
  cases value with
  | expr e =>
    refine (meshed_evaluateMaterial h).bind fun material => (Keeps.object id).bind fun o => ?_
    split
    · exact meshed_paintChildren material _
    · exact meshed_modifyObject id fun _ => rfl
  | triple coords => exact .fail _
  | relative anchor offset => exact .fail _

theorem meshed_selectObject (target : String) (child : Option String) :
    Meshed (selectObject target child) := by
  refine (Keeps.objectNamed target).bind fun id => ?_
  cases child with
  | none => exact .pure id
  | some child =>
    refine (Keeps.object id).bind fun o => ?_
    dsimp only
    split
    · exact .objectNamed child
    · exact (Keeps.fail _).bind fun _ => .objectNamed child

theorem meshed_setProperty (target : String) (child : Option String) (property : String)
    (h : value.WellFormed) : Meshed (setProperty target child property value) := by
  refine (meshed_selectObject target child).bind fun id => ?_
  have hposition : Meshed (setPosition id value) :=
    (meshed_evaluatePosition h).bind fun _ => meshed_modifyObject id fun _ => rfl
  have hrotation : Meshed (setRotation id value) :=
    (meshed_evaluateVector h).bind fun _ => meshed_modifyObject id fun _ => rfl
  have hscale : Meshed (setScale id value) :=
    (meshed_evaluateScale h).bind fun _ => meshed_modifyObject id fun _ => rfl
  split
  · exact hposition
  · exact hposition
  · exact hrotation
  · exact hrotation
  · exact hscale
  · exact meshed_setMaterial id h
  · exact .fail _

end

theorem meshed_turnBy (id : ObjectId) (angle : Float) : Meshed (turnBy id angle) :=
  meshed_modifyObject id fun _ => rfl

section
variable {args : List Expr}

theorem meshed_callRotate (target : String) (excluded : Option String)
    (h : ∀ arg ∈ args, arg.WellFormed) : Meshed (callRotate target args excluded) := by
  refine (Keeps.objectNamed target).bind fun id => ?_
  cases args with
  | nil => exact .fail _
  | cons angle more =>
    refine (meshed_evaluateNumber (h angle (List.mem_cons_self ..))).bind fun degrees =>
      (meshed_turnBy id _).bind fun _ => ?_
    cases excluded with
    | none => exact .pure ()
    | some name => exact (Keeps.objectNamed name).bind fun other => meshed_turnBy other _

theorem meshed_callMove (target : String) (h : ∀ arg ∈ args, arg.WellFormed) :
    Meshed (callMove target args) :=
  (Keeps.objectNamed target).bind fun id =>
    (meshed_evaluateAll args (Expr.allWellFormed_iff.2 h)).bind fun _ =>
      (Keeps.ofOption _ _).bind fun _ => meshed_modifyObject id fun _ => rfl

theorem meshed_callMethod (target method : String) (excluded : Option String)
    (h : ∀ arg ∈ args, arg.WellFormed) : Meshed (callMethod target method args excluded) := by
  refine (Keeps.lookup? target).bind fun value => ?_
  split
  next id =>
    exact (meshed_evaluateAll args (Expr.allWellFormed_iff.2 h)).bind fun values =>
      (meshed_callMember target id method values).bind fun _ => .pure ()
  next =>
    split
    · exact meshed_callRotate target excluded h
    · exact meshed_callMove target h
    · exact .pure ()

end

theorem meshed_adopt (parent : String) (names : List String) : Meshed (adopt parent names) := by
  induction names with
  | nil => exact .pure ()
  | cons name more ih =>
    refine (Keeps.lookup? name).bind fun value => ?_
    cases value.bind Value.object? with
    | none => exact (Keeps.pure ()).bind fun _ => ih
    | some id => exact Keeps.bind (meshed_modifyObject id fun _ => rfl) fun _ => ih

/-- A binding makes a copy, which has the shape of what it is a copy of. -/
theorem meshed_bindObject (name : String) (value : Value) : Meshed (bindObject name value) := by
  cases value with
  | object id =>
    refine Keeps.bind_of_ok (Keeps.object id) fun m o between ho hm => ?_
    cases ho
    have hrest (copy : Object) (hcopy : copy.shape.WellMeshed) : Meshed (do
        let bound ← addObject copy
        modify fun m => { m with scene := m.scene.insert name bound }
        adopt name copy.children
        return .object bound : Run Value) := by
      refine (meshed_addObject hcopy).bind fun bound => ?_
      refine Keeps.bind (meshed_of_objects fun _ => rfl) fun _ => ?_
      exact (meshed_adopt name _).bind fun _ => .pure _
    exact hrest { m.store.object id with id := name, parent := none } (hm id) m hm
  | _ => exact .pure _

/-! ### Statements -/

theorem meshed_reportLimit (span : Span) : Meshed (reportLimit span) :=
  meshed_of_objects fun _ => rfl

theorem meshed_readCounter (counter : String) : Meshed (readCounter counter) := by
  refine (Keeps.lookup counter).bind fun value => ?_
  cases value.number? with
  | some x => exact .pure x
  | none => exact .typeMismatch _ _

theorem meshed_nextStep? (span : Span) (counter : String) {stop : Expr} {step : Option Expr}
    (hstop : stop.WellFormed) (hstep : ∀ e ∈ step, e.WellFormed) :
    Meshed (nextStep? span counter stop step) := by
  refine ((meshed_readCounter counter).placing span).bind fun current => ?_
  refine ((meshed_evaluateNumber hstop).placing span).bind fun last => ?_
  cases step with
  | some step => exact ((meshed_evaluateNumber (hstep step rfl)).placing span).bind fun _ => .pure _
  | none => exact (Keeps.pure 1).bind fun _ => .pure _

theorem meshed_conditionHolds? (span : Span) {condition : Expr} (h : condition.WellFormed) :
    Meshed (conditionHolds? span condition) :=
  ((meshed_evaluate condition h).placing span).bind fun _ => .pure _

mutual
/-- A well-formed statement keeps the store well meshed, whether it fails or not. -/
theorem meshed_execute : ∀ s : Stmt, s.WellFormed → Meshed (execute s)
  | .imports _, _ => .pure ()
  | .assign span name _ value, h =>
    ((meshed_evaluate value h).placing span).bind fun evaluated =>
      (meshed_bindObject name evaluated).bind fun _ => meshed_modifyScope _
  | .setProperty span target child property _, h =>
    (meshed_setProperty target child property h.2).placing span
  | .callMethod span target method _ excluded, h =>
    (meshed_callMethod target method excluded h.2).placing span
  | .print span value, h =>
    ((meshed_evaluate value h).placing span).bind fun evaluated => (Keeps.display evaluated).bind
      fun _ => meshed_of_objects fun _ => rfl
  | .branch span condition thenBlock none, h => by
    refine ((meshed_evaluate condition h.1).placing span).bind fun value => ?_
    split
    · exact meshed_inBlock (meshed_executeAll thenBlock h.2.1)
    · exact .pure ()
  | .branch span condition thenBlock (some elseBlock), h => by
    refine ((meshed_evaluate condition h.1).placing span).bind fun value => ?_
    split
    · exact meshed_inBlock (meshed_executeAll thenBlock h.2.1)
    · exact meshed_inBlock (meshed_executeAll elseBlock h.2.2)
  | .whileLoop span _ body, h =>
    .repeatBody (meshed_conditionHolds? span h.1)
      (fun _ => meshed_inBlock (meshed_executeAll body h.2)) (meshed_reportLimit span) maxIterations
  | .forLoop span counter _ _ _ body, h => by
    refine ((meshed_evaluateNumber h.1).placing span).bind fun first => ?_
    refine (meshed_modifyScope _).bind fun _ => ?_
    refine .repeatBody (meshed_nextStep? span counter h.2.1 h.2.2.1) (fun size => ?_)
      (meshed_reportLimit span) maxIterations
    exact (meshed_inBlock (meshed_executeAll body h.2.2.2)).bind fun _ =>
      ((meshed_readCounter counter).placing span).bind fun _ => meshed_modifyScope _
theorem meshed_executeAll : ∀ block :
    List Stmt, Stmt.AllWellFormed block → Meshed (executeAll block)
  | [], _ => .pure ()
  | first :: more, h =>
    ((meshed_execute first h.1).placing first.span).bind fun _ => meshed_executeAll more h.2
end

end Run

/-! ### Programs -/

section
variable {m after : Machine}

theorem Machine.keepsMeshes_of_runStatement {s : Stmt} (hs : s.WellFormed)
    (h : m.runStatement s = .ok after) : m.KeepsMeshes after := by
  rcases runStatement_cases h with hran | ⟨d, ended, hran, rfl⟩
  · exact (Run.meshed_execute s hs).rel hran
  · have hended : m.KeepsMeshes ended := (Run.meshed_execute s hs).rel hran
    exact fun hm => hended hm

theorem Machine.keepsMeshes_of_foldlM {statements : List Stmt} (hs : ∀ s ∈ statements, s.WellFormed)
    (h : statements.foldlM runStatement m = .ok after) : m.KeepsMeshes after :=
  of_foldlM (fun s hmem _ _ hrun hm =>
    IsTrans.trans _ _ _ hm (keepsMeshes_of_runStatement (hs s hmem) hrun)) h (refl m)

end

/-- The objects that a value hands out, through lists and through what modules export. -/
inductive Store.HandsOut (s : Store) : Value → ObjectId → Prop
  | object (id : ObjectId) : HandsOut s (.object id) id
  | item {items : List Value} {value : Value} {id : ObjectId} :
    value ∈ items → HandsOut s value id → HandsOut s (.list items) id
  | member {module : ModuleId} {name : String} {value : Value} {id : ObjectId} :
    (s.exports module).get? name = some value → HandsOut s value id → HandsOut s (.module module) id

/-- The meshes of the scene are well formed, and so are those that the exports hand out. -/
structure Result.WellMeshed (r : Result) : Prop where
  scene : ∀ name o, r.scene.get? name = some o → o.shape.WellMeshed
  exports : ∀ name value id, r.exports.get? name = some value → r.store.HandsOut value id →
    (r.store.object id).shape.WellMeshed

/-- What is handed out is in the store, and the scene shows records of it. -/
theorem Program.wellMeshed_of_run {p : Program} {modules : Table Value} {store : Store} {r : Result}
    (hp : p.WellFormed) (hstore : store.WellMeshed) (h : p.run modules store = .ok r) :
    r.WellMeshed ∧ r.store.WellMeshed := by
  obtain ⟨m, hend, rfl⟩ := run_eq_ok_iff.1 h
  -- Objects have one identity for good, so all that the result shows is in this store.
  have hm : m.store.WellMeshed := Machine.keepsMeshes_of_foldlM hp hend hstore
  refine ⟨⟨fun name o ho => ?_, fun _ _ id _ _ => hm id⟩, hm⟩
  rw [Machine.get?_scene_result] at ho
  obtain ⟨id, -, rfl⟩ := Option.map_eq_some_iff.1 ho
  exact hm id

theorem Result.wellMeshed_failed (d : Diagnostic) : (Result.failed d).WellMeshed where
  scene _ _ h := nomatch h
  exports _ _ _ h := nomatch h

/-! ### Compiles -/

namespace Module
variable {setting : Setting} {compile : UnitCompiler} {state after : Loading}

/-- On a well-meshed store the compiler leaves one, and hands out well-formed meshes. -/
def KeepsMeshes (compile : UnitCompiler) : Prop :=
  ∀ key source state result after, compile key source state = .ok (result, after) →
    state.store.WellMeshed → result.WellMeshed ∧ after.store.WellMeshed

theorem wellMeshed_of_loadModule (hcompile : KeepsMeshes compile) {source : String} {span : Span}
    {outcome : Except Diagnostic ModuleId} {reported : List Notice}
    (h : loadModule setting compile source span state = .ok ((outcome, reported), after))
    (hstate : state.store.WellMeshed) : after.store.WellMeshed := by
  rcases loadModule_eq_ok h with ⟨id, -, -, -, rfl⟩ | ⟨d, -, hlocate, -, -⟩ |
    ⟨key, text, notices, between, result, middle, -, hlocate, hresult, -, -, rfl⟩
  · exact hstate
  · rw [(locate_frame hlocate).1]
    exact hstate
  · rw [← (locate_frame hlocate).1] at hstate
    exact (hcompile _ _ _ _ _ hresult hstate).2.of_objects rfl

theorem wellMeshed_of_resolveImports (hcompile : KeepsMeshes compile) {imports : List Import}
    {table table' : Table Value} {notices notices' : List Notice}
    (h : resolveImports setting compile imports table notices state =
      .ok ((table', notices'), after)) (hstate : state.store.WellMeshed) :
        after.store.WellMeshed := by
  induction imports generalizing table notices state with
  | nil =>
    cases h
    exact hstate
  | cons i more ih =>
    obtain ⟨outcome, reported, between, hload, hrest⟩ := resolveImports_cons_eq_ok h
    have hbetween := wellMeshed_of_loadModule hcompile hload hstate
    rcases hrest with ⟨d, -, hrest⟩ | ⟨id, bound, missing, -, -, hrest⟩
    · exact ih hrest hbetween
    · exact ih hrest hbetween

theorem keepsMeshes_compileWith (hcompile : KeepsMeshes compile) :
    KeepsMeshes (compileWith setting compile) := by
  intro key source state result after h hstate
  rcases compileWith_eq_ok h with ⟨d, -, rfl, rfl⟩ |
    ⟨p, table, notices, between, ran, hprogram, hresolve, hrun, rfl, rfl⟩
  · exact ⟨Result.wellMeshed_failed _, hstate⟩
  · have hbetween := wellMeshed_of_resolveImports hcompile hresolve hstate
    obtain ⟨hran, hstore⟩ :=
      Program.wellMeshed_of_run (Program.wellFormed_of_ofSource hprogram) hbetween hrun
    exact ⟨⟨hran.scene, hran.exports⟩, hstore⟩

theorem keepsMeshes_compileUnit (setting : Setting) (depth : Nat) :
    KeepsMeshes (compileUnit setting depth) := by
  induction depth with
  | zero =>
    intro key source state result after h
    cases h
  | succ depth ih => exact keepsMeshes_compileWith ih

namespace Loader
variable {l l' : Loader} {name source : String} {files : Table String} {r : Result}

theorem wellMeshed_of_compileWithin {depth : Nat}
    (h : l.compileWithin depth name source files = .ok (r, l')) : r.WellMeshed := by
  obtain ⟨after, hcompile, -⟩ := compileWithin_eq_ok h
  refine (keepsMeshes_compileUnit _ _ _ _ _ _ _ hcompile ?_).1
  exact Store.wellMeshed_empty.of_objects rfl

theorem wellMeshed_of_compileFile (h : l.compileFile name files = .ok (r, l')) : r.WellMeshed := by
  unfold compileFile at h
  cases hfile : files.get? name with
  | some source =>
    rw [hfile] at h
    exact wellMeshed_of_compileWithin h
  | none =>
    rw [hfile] at h
    cases h
    exact Result.wellMeshed_failed _

/-- Every mesh that a compile hands out is well formed, whatever the loader, the source and the
files are: those of the scene, and those that the exports hand out, also inside of modules. -/
theorem wellMeshed_of_compileRoot (h : l.compileRoot name source files = .ok (r, l')) :
    r.WellMeshed := wellMeshed_of_compileWithin h

/-- A module builds a mesh and fails at another one. The root hands out a changed copy of the mesh,
and the module itself. -/
theorem wellMeshed_of_copied_mesh :
    let files : Table String := .ofList [("lib.scene",
      "tri = mesh \x7b vertices = [0,0,0; 1,0,0; 0,1,0;] faces = [0,1,2;] \x7d\n" ++
      "gap = mesh \x7b vertices = [0,0,0; 1,0,0; 0,1,0;] faces = [0,1,3;] \x7d")]
    let source :=
      "import lib\nbig = modifier.scale \x7b base = lib.tri, factor = 2 \x7d\nkit = lib"
    ∃ r l', (Loader.new .standard (.ofTable .empty)).compileRoot mainName source files =
        .ok (r, l') ∧
      r.notices.length = 1 ∧
      (r.scene.get? "big").map (·.shape.faces.map Face.indices) = some [[0, 1, 2]] ∧
      ((r.exports.get? "kit").bind (r.store.member? · "tri")).bind (fun value =>
        value.object?.map (r.store.object · |>.shape.faces.map Face.indices)) = some [[0, 1, 2]] ∧
      r.WellMeshed := by
  intro files source
  have hseen : ((Loader.new .standard (.ofTable .empty)).compileRoot mainName source
    files).toOption.map
      (fun x => (x.1.notices.length, (x.1.scene.get? "big").map (·.shape.faces.map Face.indices),
        ((x.1.exports.get? "kit").bind (x.1.store.member? · "tri")).bind fun value =>
          value.object?.map (x.1.store.object · |>.shape.faces.map Face.indices))) =
      some (1, some [[0, 1, 2]], some [[0, 1, 2]]) := by decide +kernel
  obtain ⟨⟨r, l'⟩, hcompile, hsame⟩ := exists_of_toOption_map hseen
  obtain ⟨hnotices, hmeshes⟩ := Prod.mk.inj hsame
  obtain ⟨hscene, hexports⟩ := Prod.mk.inj hmeshes
  exact ⟨r, l', hcompile, hnotices, hscene, hexports, wellMeshed_of_compileRoot hcompile⟩

end Loader
end Module
end SceneScript
