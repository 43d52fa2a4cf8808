import SceneScript.Proofs.Scene.Sharing

namespace SceneScript

/-! ### Fields -/

/-- The fields of a record that statements change. -/
inductive Field where
  | parent
  | position
  | rotation
  /-- The rotation around the vertical axis. -/
  | turn
  | scale
  | material
  deriving DecidableEq, Repr

def Object.SameBut (o after : Object) : Field → Prop
  | .parent => after = { o with parent := after.parent }
  | .position => after = { o with position := after.position }
  | .rotation => after = { o with rotation := after.rotation }
  | .turn => after = { o with rotation := { o.rotation with y := after.rotation.y } }
  | .scale => after = { o with scale := after.scale }
  | .material => after = { o with material := after.material }

theorem Object.SameBut.refl (o : Object) (field : Field) : o.SameBut o field := by
  cases field <;> rfl

theorem Object.SameBut.trans {o between after : Object} {field : Field}
    (h : o.SameBut between field) (h' : between.SameBut after field) : o.SameBut after field := by
  cases field <;> simp only [SameBut] at h h' ⊢ <;> rw [h', h]

/-- Of the records that were there, some may differ in a field, and no other differs. -/
structure Store.ChangesOnly (s t : Store) (field : Field) (ids : List ObjectId) : Prop where
  hasObject : ∀ id, s.hasObject id → t.hasObject id
  object_eq : ∀ id, s.hasObject id → id ∉ ids → t.object id = s.object id
  sameBut : ∀ id, s.hasObject id → (s.object id).SameBut (t.object id) field

namespace Store
variable {s t u : Store} {field : Field} {ids more : List ObjectId} {id : ObjectId}

theorem GrowsTo.changesOnly (h : s.GrowsTo t) (field : Field) : s.ChangesOnly t field [] where
  hasObject _ := h.hasObject
  object_eq id hid _ := h.object_eq id hid
  sameBut id hid := h.object_eq id hid ▸ .refl _ field

theorem ChangesOnly.trans (h : s.ChangesOnly t field ids) (h' : t.ChangesOnly u field more) :
    s.ChangesOnly u field (ids ++ more) where
  hasObject id hid := h'.hasObject id (h.hasObject id hid)
  object_eq id hid hmem := by
    rw [List.mem_append, not_or] at hmem
    rw [h'.object_eq id (h.hasObject id hid) hmem.2, h.object_eq id hid hmem.1]
  sameBut id hid := (h.sameBut id hid).trans (h'.sameBut id (h.hasObject id hid))

theorem changesOnly_modifyObject (s : Store) (id : ObjectId) {f : Object → Object}
    (hf : ∀ o : Object, o.SameBut (f o) field) :
    s.ChangesOnly (s.modifyObject id f) field [id] where
  hasObject other := (s.hasObject_modifyObject id other f).2
  object_eq other _ hmem := s.object_modifyObject_of_ne f (List.mem_singleton.not.1 hmem)
  sameBut other hother := by
    by_cases heq : other = id
    · subst heq
      rw [s.object_modifyObject other other f hother, if_pos rfl]
      exact hf _
    · rw [s.object_modifyObject_of_ne f heq]
      exact .refl _ field

def isGroup (s : Store) (id : ObjectId) : Bool := (s.object id).isGroup

theorem isGroup_modifyObject {f : Object → Object} (hf : ∀ o, (f o).shape = o.shape) (s : Store)
    (id other : ObjectId) : (s.modifyObject id f).isGroup other = s.isGroup other :=
  congrArg Shape.isGroup (shape_modifyObject hf s id other)

def paint (s : Store) (material : Option Material) (ids : List ObjectId) : Store :=
  ids.foldl (fun s id => s.modifyObject id fun o => { o with material := material }) s

theorem hasObject_paint (s : Store) (material : Option Material) (ids : List ObjectId)
    (id : ObjectId) : (s.paint material ids).hasObject id ↔ s.hasObject id := by
  induction ids generalizing s with
  | nil => rfl
  | cons first more ih => exact (ih _).trans (s.hasObject_modifyObject first id _)

theorem object_paint {material : Option Material} (h : s.hasObject id) :
    (s.paint material ids).object id =
      if id ∈ ids then { s.object id with material := material } else s.object id := by
  induction ids generalizing s with
  | nil => simp [paint]
  | cons first more ih =>
    have hrest := ih (s := s.modifyObject first fun o => { o with material := material })
      ((hasObject_modifyObject s first id _).2 h)
    rw [paint, List.foldl_cons, ← paint, hrest]
    rcases Decidable.em (id = first) with rfl | hne
    · rw [object_modifyObject s id id _ h]
      simp
    · rw [object_modifyObject_of_ne s _ hne]
      simp [hne]

theorem changesOnly_paint (s : Store) (material : Option Material) (ids : List ObjectId) :
    s.ChangesOnly (s.paint material ids) .material ids where
  hasObject id := (s.hasObject_paint material ids id).2
  object_eq id hid hmem := by rw [object_paint hid, if_neg hmem]
  sameBut id hid := by
    rw [object_paint hid]
    split
    · rfl
    · exact .refl _ .material

end Store

/-! ### What statements change -/

/-- The children that the assignment of a group gets: the objects that its child names are bound
to. -/
def Machine.adopted (m : Machine) (value : Expr) : List ObjectId :=
  match Run.evaluate value m with
  | (.ok (.object id), between) => m.scope.objectsNamed (between.store.object id).children
  | _ => []

/-- The objects that are no groups, of those that the scene has under some names. -/
def Machine.solids (m : Machine) (names : List String) : List ObjectId :=
  (names.filterMap m.scene.get?).filter (!m.store.isGroup ·)

/-- What a material for an object goes to: the object itself, or those children of a group that are
in the scene and are no groups. -/
def Machine.painted (m : Machine) (id : ObjectId) : List ObjectId :=
  if m.store.isGroup id then m.solids (m.store.object id).children else [id]

def Field.ofProperty? (property : String) : Option Field :=
  if property = "pos" || property = "position" then some .position
  else if property = "rot" || property = "rotation" then some .rotation
  else if property = "scale" then some .scale
  else if property = "material" then some .material
  else none

def Field.ofMethod? (method : String) : Option Field :=
  if method = "rotate" then some .turn
  else if method = "move" then some .position
  else none

def Stmt.field? (s : Stmt) : Option Field :=
  match s with
  | .assign .. => some .parent
  | .setProperty _ _ _ property _ => Field.ofProperty? property
  | .callMethod _ _ method _ _ => Field.ofMethod? method
  | _ => none

def Stmt.changed (s : Stmt) (m : Machine) : List ObjectId :=
  match s with
  | .assign _ _ _ value => m.adopted value
  | .setProperty _ target child property _ =>
    let selected := m.scope.objectsNamed [child.getD target]
    if property = "material" then selected.flatMap m.painted else selected
  | .callMethod _ target method _ excluded =>
    if ((m.scope.lookup? target).bind Value.object?).isSome then
      m.scope.objectsNamed (target :: if method = "rotate" then excluded.toList else [])
    else []
  | _ => []

/-- Every record that was there is as before, or it is one of those that the statement changes and
differs in the field that the statement changes. -/
def Stmt.Effect (s : Stmt) (m after : Machine) : Prop :=
  ∀ id, m.store.hasObject id → after.store.object id = m.store.object id ∨
    id ∈ s.changed m ∧ ∃ field, s.field? = some field ∧
      (m.store.object id).SameBut (after.store.object id) field

theorem Stmt.effect_of_growsTo (s : Stmt) {m after : Machine} (h : m.store.GrowsTo after.store) :
    s.Effect m after := fun id hid => .inl (h.object_eq id hid)

theorem Stmt.effect_of_changesOnly {s : Stmt} {m after : Machine} {field : Field}
    (hfield : s.field? = some field) (h : m.store.ChangesOnly after.store field (s.changed m)) :
    s.Effect m after := by
  intro id hid
  by_cases hmem : id ∈ s.changed m
  · exact .inr ⟨hmem, field, hfield, h.sameBut id hid⟩
  · exact .inl (h.object_eq id hid hmem)

def Stmt.isPlain (s : Stmt) : Bool :=
  match s with
  | .branch .. => false
  | .whileLoop .. => false
  | .forLoop .. => false
  | _ => true

namespace Run
variable {m between after : Machine} {id : ObjectId}

/-! ### Property assignments -/

theorem objectsNamed_singleton {s : Scope} {name : String}
    (h : (s.lookup? name).bind Value.object? = some id) : s.objectsNamed [name] = [id] := by
  simp [Scope.objectsNamed, h]

theorem objectNamed_eq_ok {name : String} (h : objectNamed name m = (.ok id, after)) :
    (m.scope.lookup? name).bind Value.object? = some id ∧ after = m := by
  rw [objectNamed_apply] at h
  cases hid : (m.scope.lookup? name).bind Value.object? <;> rw [hid] at h <;> cases h
  exact ⟨rfl, rfl⟩

theorem selectObject_eq_ok {target : String} {child : Option String}
    (h : selectObject target child m = (.ok id, after)) :
    m.scope.objectsNamed [child.getD target] = [id] ∧ after = m := by
  obtain ⟨first, between, hfirst, hrest⟩ := exists_of_bind_eq_ok h
  obtain ⟨htarget, rfl⟩ := objectNamed_eq_ok hfirst
  cases child with
  | none =>
    cases hrest
    exact ⟨objectsNamed_singleton htarget, rfl⟩
  | some name =>
    obtain ⟨o, last, ho, hrest⟩ := exists_of_bind_eq_ok hrest
    cases ho
    dsimp only at hrest
    split at hrest
    · obtain ⟨hname, rfl⟩ := objectNamed_eq_ok hrest
      exact ⟨objectsNamed_singleton hname, rfl⟩
    · cases hrest

theorem paintChildren_apply (material : Option Material) (names : List String) (m : Machine) :
    paintChildren material names m =
      (.ok (), { m with store := m.store.paint material (m.solids names) }) := by
  unfold Machine.solids
  induction names generalizing m with
  | nil => rfl
  | cons name more ih =>
    have hget : (get : Run Machine) m = (.ok m, m) := rfl
    rw [paintChildren, bind_apply_of_ok _ hget]
    cases hid : m.scene.get? name with
    | none =>
      rw [List.filterMap_cons_none hid]
      exact ih m
    | some id =>
      rw [List.filterMap_cons_some hid, List.filter_cons]
      dsimp only
      rw [bind_apply_of_ok _ (object_apply id m)]
      cases hgroup : m.store.isGroup id with
      | true =>
        rw [Store.isGroup] at hgroup
        rw [if_pos hgroup]
        exact ih m
      | false =>
        -- A material changes no shape, so that the same children are groups afterwards.
        have hmore := ih { m with
          store := m.store.modifyObject id fun o => { o with material := material } }
        have hgroups := Store.isGroup_modifyObject
          (f := fun o => { o with material := material }) (fun _ => rfl) m.store id
        simp only [hgroups] at hmore
        rw [Store.isGroup] at hgroup
        rw [hgroup]
        exact hmore

theorem paint_apply (id : ObjectId) (material : Option Material) (m : Machine) :
    paint id material m = (.ok (), { m with store := m.store.paint material (m.painted id) }) := by
  unfold paint
  rw [bind_apply_of_ok _ (object_apply id m), Machine.painted, Store.isGroup]
  split
  · exact paintChildren_apply material _ m
  · rfl

/-- The same records are painted after an evaluation. -/
theorem painted_of_growsTo (hm : m.Grounded) (h : m.GrowsTo between) (hid : m.store.hasObject id) :
    between.painted id = m.painted id := by
  rw [Machine.painted, Machine.painted, Store.isGroup, Store.isGroup, h.store.object_eq id hid]
  rw [Machine.solids, Machine.solids, h.scene_eq]
  refine congrArg (ite _ · [id]) (List.filter_congr fun child hchild => ?_)
  obtain ⟨name, -, hname⟩ := List.mem_filterMap.1 hchild
  rw [Store.isGroup, Store.isGroup, h.store.object_eq child (hm.scene name child hname)]

/-- A field that is written after an evaluation is all that changes. -/
theorem changesOnly_of_quiet {α : Type} {x : Run α} {f : α → Object → Object} {field : Field}
    (hx : Quiet x) (h : (x >>= fun a => modifyObject id (f a)) m = (.ok (), after))
    (hf : ∀ a (o : Object), o.SameBut (f a o) field) :
    m.store.ChangesOnly after.store field [id] := by
  obtain ⟨a, between, hvalue, hmodify⟩ := exists_of_bind_eq_ok h
  cases hmodify
  exact ((hx.rel hvalue).store.changesOnly field).trans
    (Store.changesOnly_modifyObject between.store id (hf a))

theorem changesOnly_setPosition {value : AssignedValue}
    (h : setPosition id value m = (.ok (), after)) :
    m.store.ChangesOnly after.store .position [id] :=
  changesOnly_of_quiet (quiet_evaluatePosition value) h fun _ _ => rfl

theorem changesOnly_setRotation {value : AssignedValue}
    (h : setRotation id value m = (.ok (), after)) :
    m.store.ChangesOnly after.store .rotation [id] :=
  changesOnly_of_quiet (quiet_evaluateVector value) h fun _ _ => rfl

theorem changesOnly_setScale {value : AssignedValue} (h : setScale id value m = (.ok (), after)) :
    m.store.ChangesOnly after.store .scale [id] :=
  changesOnly_of_quiet (quiet_evaluateScale value) h fun _ _ => rfl

/-- All that is painted gets the same material. -/
theorem store_setMaterial {value : AssignedValue} (hm : m.Grounded) (hid : m.store.hasObject id)
    (h : setMaterial id value m = (.ok (), after)) :
    ∃ material between, m.GrowsTo between ∧
      after.store = between.store.paint material (m.painted id) := by
  cases value with
  | expr e =>
    obtain ⟨material, between, hmaterial, hpaint⟩ := exists_of_bind_eq_ok h
    have hgrows : m.GrowsTo between := (quiet_evaluateMaterial e).rel hmaterial
    rw [paint_apply, painted_of_growsTo hm hgrows hid] at hpaint
    cases hpaint
    exact ⟨material, between, hgrows, rfl⟩
  | triple t => cases h
  | relative anchor offset => cases h

theorem hasObject_of_objectsNamed {names : List String} (hm : m.Grounded)
    (h : id ∈ m.scope.objectsNamed names) : m.store.hasObject id := by
  obtain ⟨name, -, hname⟩ := List.mem_filterMap.1 h
  exact hm.hasObject_of_lookup? hname

/-- A property assignment changes one field of the selected object, or the materials of a group. -/
theorem changesOnly_setProperty {target property : String} {child : Option String}
    {value : AssignedValue} (hm : m.Grounded)
    (h : setProperty target child property value m = (.ok (), after)) :
    ∃ id field, m.scope.objectsNamed [child.getD target] = [id] ∧
      Field.ofProperty? property = some field ∧ m.store.ChangesOnly after.store field
        (if property = "material" then m.painted id else [id]) := by
  obtain ⟨id, between, hselect, hset⟩ := exists_of_bind_eq_ok h
  obtain ⟨hid, rfl⟩ := selectObject_eq_ok hselect
  have hhas : between.store.hasObject id :=
    hasObject_of_objectsNamed hm (hid ▸ List.mem_singleton_self id)
  refine ⟨id, ?_⟩
  split at hset
  · exact ⟨.position, hid, rfl, changesOnly_setPosition hset⟩
  · exact ⟨.position, hid, rfl, changesOnly_setPosition hset⟩
  · exact ⟨.rotation, hid, rfl, changesOnly_setRotation hset⟩
  · exact ⟨.rotation, hid, rfl, changesOnly_setRotation hset⟩
  · exact ⟨.scale, hid, rfl, changesOnly_setScale hset⟩
  · obtain ⟨material, grown, hgrows, hafter⟩ := store_setMaterial hm hhas hset
    refine ⟨.material, hid, rfl, ?_⟩
    rw [hafter]
    exact (hgrows.store.changesOnly .material).trans (Store.changesOnly_paint _ material _)
  · cases hset

/-- An assigned material goes to the selected object, or to all children of a group that are in the
scene and are no groups. -/
theorem object_of_setMaterial {span : Span} {target : String} {child : Option String}
    {value : AssignedValue} (hm : m.Grounded)
    (h : execute (.setProperty span target child "material" value) m = (.ok (), after)) :
    ∃ material, ∀ id, m.store.hasObject id → after.store.object id =
      if id ∈ (Stmt.setProperty span target child "material" value).changed m then
        { m.store.object id with material := material }
      else m.store.object id := by
  obtain ⟨id, between, hselect, hset⟩ := exists_of_bind_eq_ok (placing_eq_ok h)
  obtain ⟨hid, rfl⟩ := selectObject_eq_ok hselect
  have hhas : between.store.hasObject id :=
    hasObject_of_objectsNamed hm (hid ▸ List.mem_singleton_self id)
  obtain ⟨material, grown, hgrows, hafter⟩ := store_setMaterial hm hhas hset
  refine ⟨material, fun other hother => ?_⟩
  have hchanged : (Stmt.setProperty span target child "material" value).changed between =
      between.painted id := by simp [Stmt.changed, hid]
  rw [hafter, Store.object_paint (hgrows.store.hasObject hother),
    hgrows.store.object_eq other hother, hchanged]

/-! ### Methods -/

theorem changesOnly_callRotate {target : String} {args : List Expr} {excluded : Option String}
    (h : callRotate target args excluded m = (.ok (), after)) :
    ((m.scope.lookup? target).bind Value.object?).isSome ∧
      m.store.ChangesOnly after.store .turn (m.scope.objectsNamed (target :: excluded.toList)) := by
  obtain ⟨id, between, hid, hrest⟩ := exists_of_bind_eq_ok h
  obtain ⟨htarget, rfl⟩ := objectNamed_eq_ok hid
  refine ⟨Option.isSome_of_eq_some htarget, ?_⟩
  cases args with
  | nil => cases hrest
  | cons angle more =>
    obtain ⟨degrees, turned, hangle, hrest⟩ := exists_of_bind_eq_ok hrest
    have hgrows : between.GrowsTo turned := (quiet_evaluateNumber angle).rel hangle
    dsimp only at hrest
    rw [bind_apply_of_ok _ (turnBy_apply id _ turned)] at hrest
    have hturn : between.store.ChangesOnly (turned.turn id (radians degrees)).store .turn [id] :=
      (hgrows.store.changesOnly .turn).trans (Store.changesOnly_modifyObject _ id fun _ => rfl)
    cases excluded with
    | none =>
      cases hrest
      rw [Option.toList, objectsNamed_singleton htarget]
      exact hturn
    | some name =>
      obtain ⟨other, last, hother, hrest⟩ := exists_of_bind_eq_ok hrest
      obtain ⟨hname, rfl⟩ := objectNamed_eq_ok hother
      have hscope : (turned.turn id (radians degrees)).scope = between.scope := hgrows.scope_eq
      rw [hscope] at hname
      cases hrest
      have hnamed : between.scope.objectsNamed (target :: (some name).toList) =
          [id] ++ [other] := by
        simp [Scope.objectsNamed, htarget, hname]
      rw [hnamed]
      exact hturn.trans (Store.changesOnly_modifyObject _ other fun _ => rfl)

theorem changesOnly_callMove {target : String} {args : List Expr}
    (h : callMove target args m = (.ok (), after)) :
    ((m.scope.lookup? target).bind Value.object?).isSome ∧
      m.store.ChangesOnly after.store .position (m.scope.objectsNamed [target]) := by
  obtain ⟨id, between, hid, hmethod⟩ := exists_of_bind_eq_ok h
  obtain ⟨htarget, rfl⟩ := objectNamed_eq_ok hid
  refine ⟨Option.isSome_of_eq_some htarget, ?_⟩
  obtain ⟨values, evaluated, hvalues, hrest⟩ := exists_of_bind_eq_ok hmethod
  obtain ⟨offset, moved, hoffset, hmove⟩ := exists_of_bind_eq_ok hrest
  obtain ⟨-, rfl⟩ := ofOption_eq_ok hoffset
  cases hmove
  rw [objectsNamed_singleton htarget]
  exact ((quiet_evaluateAll args).rel hvalues |>.store.changesOnly .position).trans
    (Store.changesOnly_modifyObject _ id fun _ => rfl)

theorem effect_callMethod (span : Span) {target method : String} {args : List Expr}
    {excluded : Option String} (h : callMethod target method args excluded m = (.ok (), after)) :
    (Stmt.callMethod span target method args excluded).Effect m after := by
  by_cases hmodule : ∃ id, m.scope.lookup? target = some (.module id)
  · obtain ⟨id, hid⟩ := hmodule
    have hquiet : Quiet (evaluateAll args >>= fun values =>
        callMember target id method values >>= fun _ => pure ()) :=
      (quiet_evaluateAll args).bind fun values =>
        (quiet_callMember target id method values).bind fun _ => .pure ()
    unfold callMethod at h
    rw [bind_apply_of_ok _ (lookup?_apply target m), hid] at h
    exact Stmt.effect_of_growsTo _ (hquiet.rel h).store
  rw [callMethod_of_not_module fun id hid => hmodule ⟨id, hid⟩] at h
  split at h
  next =>
    obtain ⟨hobject, hchanges⟩ := changesOnly_callRotate h
    refine Stmt.effect_of_changesOnly rfl ?_
    rwa [Stmt.changed, if_pos hobject, if_pos rfl]
  next =>
    obtain ⟨hobject, hchanges⟩ := changesOnly_callMove h
    refine Stmt.effect_of_changesOnly rfl ?_
    rwa [Stmt.changed, if_pos hobject, if_neg (by decide)]
  next =>
    cases h
    exact Stmt.effect_of_growsTo _ (.refl _)

/-! ### Assignments -/

/-- The children that a group is bound with get its name as parent, and no other record changes. -/
theorem object_of_assign {span : Span} {name : String} {confined : Bool} {value : Expr}
    (h : execute (.assign span name confined value) m = (.ok (), after))
    (hid : m.store.hasObject id) : after.store.object id =
      if id ∈ m.adopted value then { m.store.object id with parent := some name }
      else m.store.object id := by
  rw [execute] at h
  obtain ⟨evaluated, between, hvalue, hbind⟩ := exists_of_bind_eq_ok h
  have hvalue := placing_eq_ok hvalue
  have hgrows : m.GrowsTo between := (quiet_evaluate value).rel hvalue
  rw [Machine.adopted, hvalue]
  cases hobject : evaluated.object? with
  | none =>
    rw [bind_apply_of_ok _ (bindObject_of_object?_eq_none name hobject between)] at hbind
    cases hbind
    refine (hgrows.store.object_eq id hid).trans (if_neg ?_).symm
    cases evaluated <;> first | exact List.not_mem_nil | cases hobject
  | some source =>
    obtain rfl : evaluated = .object source := Value.eq_object_of_object? hobject
    rw [bind_apply_of_ok _ (bindObject_object name source between)] at hbind
    cases hbind
    have hplaced : (between.place name source).store.object id = _ :=
      Machine.object_place (hgrows.store.hasObject hid)
    rw [Machine.childrenOf, hgrows.scope_eq, hgrows.store.object_eq id hid] at hplaced
    exact hplaced

/-! ### Statements -/

/-- A statement without blocks that succeeds changes its field of its records, and nothing else. -/
theorem effect_of_execute {s : Stmt} (hs : s.isPlain = true) (hm : m.Grounded)
    (h : execute s m = (.ok (), after)) : s.Effect m after := by
  cases s with
  | imports declaration =>
    cases h
    exact Stmt.effect_of_growsTo _ (.refl _)
  | assign span name confined value =>
    intro id hid
    rw [object_of_assign h hid]
    split
    next hmem => exact .inr ⟨hmem, .parent, rfl, rfl⟩
    next => exact .inl rfl
  | setProperty span target child property value =>
    obtain ⟨id, field, hid, hfield, hchanges⟩ := changesOnly_setProperty hm (placing_eq_ok h)
    refine Stmt.effect_of_changesOnly hfield ?_
    rw [Stmt.changed, hid]
    by_cases hproperty : property = "material"
    · simpa [hproperty] using hchanges
    · simpa [hproperty] using hchanges
  | callMethod span target method args excluded => exact effect_callMethod span (placing_eq_ok h)
  | print span value =>
    rw [execute] at h
    obtain ⟨evaluated, between, hvalue, hsay⟩ := exists_of_bind_eq_ok h
    cases hsay
    exact Stmt.effect_of_growsTo _ (((quiet_evaluate value).placing span).rel hvalue).store
  | _ => cases hs

/-! ### Statements with blocks -/

def LeavesRecord (id : ObjectId) (m after : Machine) : Prop :=
  m.store.hasObject id → after.store.hasObject id ∧ after.store.object id = m.store.object id

instance (id : ObjectId) : IsPreorder Machine (LeavesRecord id) where
  refl _ hid := ⟨hid, rfl⟩
  trans _ _ _ h h' hid := by
    obtain ⟨hbetween, heq⟩ := h hid
    obtain ⟨hafter, heq'⟩ := h' hbetween
    exact ⟨hafter, heq'.trans heq⟩

theorem kept_leavesRecord (id : ObjectId) : Kept (LeavesRecord id) fun s m =>
    s.isSimple = true → m.store.hasObject id →
      (execute s m).2.store.object id = m.store.object id where
  grow hgrows hid := ⟨hgrows.store.hasObject hid, hgrows.store.object_eq id hid⟩
  enter _ hid := ⟨hid, rfl⟩
  leave _ hid := ⟨hid, rfl⟩
  report _ _ hid := ⟨hid, rfl⟩
  simple {s m} hs hP hid := by
    obtain ⟨placed, hroute⟩ := moves_execute s m
    exact ⟨Nat.lt_of_lt_of_le hid hroute.path.size_le, hP hs hid⟩
  count _ _ _ hid := ⟨hid, rfl⟩

/-- What a statement changes that succeeds is changed by a statement without blocks that it comes
to, and that succeeds too. -/
theorem exists_visits_of_object_ne {s : Stmt} (h : execute s m = (.ok (), after))
    (hid : m.store.hasObject id) (hne : after.store.object id ≠ m.store.object id) :
    ∃ t k ended, Visits s m t k ∧ t.isSimple = true ∧ execute t k = (.ok (), ended) ∧
      k.store.hasObject id ∧ ended.store.object id ≠ k.store.object id := by
  by_contra hnone
  have hkept : LeavesRecord id m (execute s m).2 := by
    refine (kept_leavesRecord id).execute s m fun t k hvisits ht hk => ?_
    obtain ⟨ended, hended⟩ := hvisits.exists_eq_ok h
    by_contra hdiffers
    rw [hended] at hdiffers
    exact hnone ⟨t, k, ended, hvisits, ht, hended, hk, hdiffers⟩
  rw [h] at hkept
  exact hne (hkept hid).2

end Run

namespace Program

/-- Two names of a scope never share a record, if no two names of the table of imports do. A
statement without blocks that succeeds changes one field of the records that its names lead to: an
assignment gives its name as parent to the children of a group, a material goes to an object or to
all children of a group that are in the scene and are no groups. Other statements change what those
change that they come to. -/
theorem objects_have_value_semantics {modules : Table Value} {store : Store}
    (hsupplies : store.Supplies modules) (hunshared : modules.Unshared) (p : Program) :
    (∀ m, p.ComesTo modules store m → ∀ name other id,
      m.scope.lookup? name = some (.object id) → m.scope.lookup? other = some (.object id) →
        name = other) ∧
    ∀ s m after, p.Visits modules store s m → Run.execute s m = (.ok (), after) →
      (s.isPlain = true → s.Effect m after) ∧
      (∀ span name confined value, s = .assign span name confined value →
        ∀ id, m.store.hasObject id → after.store.object id =
          if id ∈ s.changed m then { m.store.object id with parent := some name }
          else m.store.object id) ∧
      (∀ span target child value, s = .setProperty span target child "material" value →
        ∃ material, ∀ id, m.store.hasObject id → after.store.object id =
          if id ∈ s.changed m then { m.store.object id with material := material }
          else m.store.object id) ∧
      ∀ id, m.store.hasObject id → after.store.object id ≠ m.store.object id →
        ∃ t k ended, Run.Visits s m t k ∧ t.isSimple = true ∧ Run.execute t k = (.ok (), ended) ∧
          k.store.hasObject id ∧ ended.store.object id ≠ k.store.object id := by
  refine ⟨fun m hm name other id hname hother => ?_, fun s m after hvisits hrun => ⟨?_, ?_, ?_, ?_⟩⟩
  · exact (hm.moves.unshared hsupplies hunshared).eq_of_lookup? hname hother
  all_goals
    have hm : m.Grounded := by
      obtain ⟨placed, hroute⟩ := hvisits.moves
      exact hroute.path.grounded (Machine.grounded_start hsupplies)
  · exact fun hs => Run.effect_of_execute hs hm hrun
  · rintro span name confined value rfl id hid
    exact Run.object_of_assign hrun hid
  · rintro span target child value rfl
    exact Run.object_of_setMaterial hm hrun
  · exact fun id hid hne => Run.exists_visits_of_object_ne hrun hid hne

/-- A group adopts one of two imported objects. -/
theorem object_value_semantics_of_group :
    let mesh := Object.ofShape (.mesh [] [])
    let store : Store := ⟨#[mesh, mesh], #[], #[]⟩
    let modules : Table Value := .ofList [("a", .object ⟨0⟩), ("b", .object ⟨1⟩)]
    let s := Stmt.assign default "g" false (.group default ["a"])
    let start := Machine.start modules store
    ∃ after, store.Supplies modules ∧ modules.Unshared ∧ Run.execute s start = (.ok (), after) ∧
      after.store.object ⟨0⟩ = { start.store.object ⟨0⟩ with parent := some "g" } ∧
      after.store.object ⟨1⟩ = start.store.object ⟨1⟩ := by
  intro mesh store modules s start
  have hentries : ∀ name value, modules.get? name = some value →
      name = "a" ∧ value = .object ⟨0⟩ ∨ name = "b" ∧ value = .object ⟨1⟩ := by
    intro name value hget
    have hmem := Table.mem_of_get?_ofList hget
    simpa using hmem
  have hsupplies : store.Supplies modules := by
    refine ⟨fun id name value hvalue => ?_, fun name value hget id hid => ?_⟩
    · have hexports : store.exports id = .empty := by simp [store, Store.exports]
      rw [hexports] at hvalue
      cases hvalue
    · rcases hentries name value hget with ⟨-, rfl⟩ | ⟨-, rfl⟩ <;> cases hid <;>
        simp [store, Store.hasObject]
  have hunshared : modules.Unshared := by
    intro id name other hname hother
    rcases hentries _ _ hname with ⟨rfl, hvalue⟩ | ⟨rfl, hvalue⟩ <;> cases hvalue <;>
      rcases hentries _ _ hother with ⟨rfl, hvalue⟩ | ⟨rfl, hvalue⟩ <;> first | rfl | cases hvalue
  have hsuccess : (Run.execute s start).1.toOption = some () := by decide +kernel
  have hrun : Run.execute s start = (.ok (), (Run.execute s start).2) := by
    rcases hran : Run.execute s start with ⟨stop | done, after⟩
    · rw [hran] at hsuccess
      cases hsuccess
    · rfl
  have hchanged : s.changed start = [⟨0⟩] := by decide +kernel
  let p : Program := ⟨[s]⟩
  have hvisits : p.Visits modules store s start := ⟨[], s, [], start, rfl, rfl, .here s start⟩
  have hframe := ((objects_have_value_semantics hsupplies hunshared p).2 s start _ hvisits hrun).2.1
    default "g" false (.group default ["a"]) rfl
  refine ⟨_, hsupplies, hunshared, hrun, ?_, ?_⟩
  · rw [hframe ⟨0⟩ (by simp [start, store, Machine.start, Store.hasObject]), hchanged]
    rfl
  · rw [hframe ⟨1⟩ (by simp [start, store, Machine.start, Store.hasObject]), hchanged]
    rfl

end Program
end SceneScript
