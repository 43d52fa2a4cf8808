import SceneScript.Proofs.Run.Evaluation

namespace SceneScript

/-- Assignments, property assignments, method calls and prints: the statements without blocks. -/
def Stmt.isSimple (s : Stmt) : Bool :=
  match s with
  | .assign .. => true
  | .setProperty .. => true
  | .callMethod .. => true
  | .print .. => true
  | _ => false

def Object.turned (o : Object) (angle : Float) : Object :=
  { o with rotation := o.rotation.addAlong .y angle }

def Machine.turn (m : Machine) (id : ObjectId) (angle : Float) : Machine :=
  { m with store := m.store.modifyObject id (·.turned angle) }

/-- What a `rotate` turns, and by which angle, if it excludes a name that no object is bound to. -/
def Machine.unmatchedTurn? (m : Machine) (target : String) (args : List Expr)
    (excluded : Option String) : Option (ObjectId × Float) :=
  match args, excluded with
  | angle :: _, some name =>
    match (m.scope.lookup? target).bind Value.object?, (Run.evaluateNumber angle m).1,
      (m.scope.lookup? name).bind Value.object? with
    | some id, .ok degrees, none => some (id, radians degrees)
    | _, _, _ => none
  | _, _ => none

def Stmt.unmatchedTurn? (s : Stmt) (m : Machine) : Option (ObjectId × Float) :=
  match s with
  | .callMethod _ target "rotate" args excluded => m.unmatchedTurn? target args excluded
  | _ => none

/-- How a failing statement leaves the machine: with the unmatched turn, if there is one, and
otherwise as it was. -/
def Machine.FailsInto (m after : Machine) (turn : Option (ObjectId × Float)) : Prop :=
  match turn with
  | none => m.GrowsTo after
  | some (id, angle) => ∃ between, m.GrowsTo between ∧ after = between.turn id angle

theorem Store.GrowsTo.modifyObject {s t : Store} (h : s.GrowsTo t) (id : ObjectId)
    {f : Object → Object} (hf : s.hasObject id → f (s.object id) = s.object id) :
    s.GrowsTo (t.modifyObject id f) where
  modules := h.modules
  size_le := by simpa [Store.modifyObject] using h.size_le
  object_eq other hother := by
    rcases Decidable.em (other = id) with rfl | hne
    · rw [object_modifyObject t other other f (h.hasObject hother), if_pos rfl,
        h.object_eq other hother, hf hother]
    · rw [object_modifyObject_of_ne t f hne, h.object_eq other hother]

namespace Run
variable {m after : Machine} {stop : Stop}

theorem succeeds_paintChildren (material : Option Material) (names : List String) :
    Succeeds (paintChildren material names) := by
  induction names with
  | nil => exact .pure ()
  | cons name more ih =>
    refine Succeeds.get.bind fun m => ?_
    cases m.scene.get? name with
    | none => exact (Succeeds.pure ()).bind fun _ => ih
    | some id =>
      refine (Succeeds.object id).bind fun o => ?_
      dsimp only
      split
      · exact ih
      · exact (Succeeds.modifyObject id _).bind fun _ => ih

theorem succeeds_paint (id : ObjectId) (material : Option Material) :
    Succeeds (paint id material) := by
  refine (Succeeds.object id).bind fun o => ?_
  split
  · exact succeeds_paintChildren material _
  · exact .modifyObject id _

theorem succeeds_adopt (parent : String) (names : List String) : Succeeds (adopt parent names) := by
  induction names with
  | nil => exact .pure ()
  | cons name more ih =>
    refine (Succeeds.lookup? name).bind fun value => ?_
    cases value.bind Value.object? with
    | none => exact (Succeeds.pure ()).bind fun _ => ih
    | some id => exact (Succeeds.modifyObject id _).bind fun _ => ih

theorem succeeds_bindObject (name : String) (value : Value) : Succeeds (bindObject name value) := by
  cases value with
  | object id =>
    exact (Succeeds.object id).bind fun _ => Succeeds.bind (fun m => ⟨_, _, rfl⟩) fun _ =>
      Succeeds.bind (fun m => ⟨(), _, rfl⟩) fun _ => (succeeds_adopt name _).bind fun _ => .pure _
  | _ => exact .pure _

theorem failsWithin_setPosition (id : ObjectId) (value : AssignedValue) :
    FailsWithin Machine.GrowsTo (setPosition id value) :=
  .bind (quiet_evaluatePosition value) fun _ => (Succeeds.modifyObject id _).failsWithin

theorem failsWithin_setRotation (id : ObjectId) (value : AssignedValue) :
    FailsWithin Machine.GrowsTo (setRotation id value) :=
  .bind (quiet_evaluateVector value) fun _ => (Succeeds.modifyObject id _).failsWithin

theorem failsWithin_setScale (id : ObjectId) (value : AssignedValue) :
    FailsWithin Machine.GrowsTo (setScale id value) :=
  .bind (quiet_evaluateScale value) fun _ => (Succeeds.modifyObject id _).failsWithin

theorem failsWithin_setMaterial (id : ObjectId) (value : AssignedValue) :
    FailsWithin Machine.GrowsTo (setMaterial id value) := by
  cases value with
  | expr e => exact .bind (quiet_evaluateMaterial e) fun _ => (succeeds_paint id _).failsWithin
  | triple t => exact (Keeps.fail _).failsWithin
  | relative anchor offset => exact (Keeps.fail _).failsWithin

/-- A property assignment evaluates all it needs before it changes the object. -/
theorem failsWithin_setProperty (target : String) (child : Option String) (property : String)
    (value : AssignedValue) :
    FailsWithin Machine.GrowsTo (setProperty target child property value) := by
  refine .bind (quiet_selectObject target child) fun id => ?_
  split
  · exact failsWithin_setPosition id value
  · exact failsWithin_setPosition id value
  · exact failsWithin_setRotation id value
  · exact failsWithin_setRotation id value
  · exact failsWithin_setScale id value
  · exact failsWithin_setMaterial id value
  · exact (Keeps.fail _).failsWithin

theorem failsWithin_callMove (target : String) (args : List Expr) :
    FailsWithin Machine.GrowsTo (callMove target args) :=
  .bind (.objectNamed target) fun id => .bind (quiet_evaluateAll args) fun _ =>
    .bind (.ofOption _ _) fun _ => (Succeeds.modifyObject id _).failsWithin

theorem failsWithin_assign (span : Span) (name : String) (confined : Bool) (value : Expr) :
    FailsWithin Machine.GrowsTo (execute (.assign span name confined value)) :=
  .bind ((quiet_evaluate value).placing span) fun evaluated =>
    ((succeeds_bindObject name evaluated).bind fun _ _ => ⟨(), _, rfl⟩).failsWithin

theorem failsWithin_print (span : Span) (value : Expr) :
    FailsWithin Machine.GrowsTo (execute (.print span value)) :=
  .bind ((quiet_evaluate value).placing span) fun evaluated => .bind (.display evaluated) fun _ =>
    Succeeds.failsWithin fun _ => ⟨(), _, rfl⟩

theorem turnBy_apply (id : ObjectId) (angle : Float) (m : Machine) :
    turnBy id angle m = (.ok (), m.turn id angle) := rfl

/-- A `rotate` that fails has changed nothing, or it has turned its target and then not found the
excluded object. -/
theorem failsInto_callRotate {target : String} {args : List Expr} {excluded : Option String}
    (h : callRotate target args excluded m = (.error stop, after)) :
    m.FailsInto after (m.unmatchedTurn? target args excluded) := by
  unfold callRotate at h
  rw [bind_apply, objectNamed_apply] at h
  cases hid : (m.scope.lookup? target).bind Value.object? with
  | none =>
    rw [hid] at h
    cases h
    have hnone : m.unmatchedTurn? target args excluded = none := by
      unfold Machine.unmatchedTurn?
      split <;> simp [hid]
    rw [hnone]
    exact .refl m
  | some id =>
    rw [hid] at h
    cases args with
    | nil =>
      cases h
      exact .refl m
    | cons angle more =>
      -- The angle is evaluated before the target is turned.
      rcases hangle : evaluateNumber angle m with ⟨cause | degrees, between⟩
      · have hnone : m.unmatchedTurn? target (angle :: more) excluded = none := by
          unfold Machine.unmatchedTurn?
          split <;> simp_all
        dsimp only [Option.elim] at h
        rw [bind_apply_of_error _ hangle] at h
        cases h
        rw [hnone]
        exact (quiet_evaluateNumber angle).rel hangle
      · have hbetween : m.GrowsTo between := (quiet_evaluateNumber angle).rel hangle
        dsimp only [Option.elim] at h
        rw [bind_apply_of_ok _ hangle, bind_apply_of_ok _ (turnBy_apply id _ between)] at h
        -- The target is turned now, and only the look-up of an excluded object can still fail.
        cases excluded with
        | none => cases h
        | some name =>
          have hscope : (between.turn id (radians degrees)).scope = m.scope := hbetween.scope_eq
          dsimp only at h
          rw [bind_apply, objectNamed_apply, hscope] at h
          cases hname : (m.scope.lookup? name).bind Value.object? with
          | some other =>
            rw [hname] at h
            cases h
          | none =>
            rw [hname] at h
            cases h
            have hturn : m.unmatchedTurn? target (angle :: more) (some name) =
                some (id, radians degrees) := by
              simp [Machine.unmatchedTurn?, hid, hangle, hname]
            rw [hturn]
            exact ⟨between, hbetween, rfl⟩

/-- A name that no module is bound to is called as an object. -/
theorem callMethod_of_not_module {target method : String} {args : List Expr}
    {excluded : Option String} (h : ∀ id, m.scope.lookup? target ≠ some (.module id)) :
    callMethod target method args excluded m = (match method with
      | "rotate" => callRotate target args excluded
      | "move" => callMove target args
      | _ => pure () : Run Unit) m := by
  unfold callMethod
  rw [bind_apply_of_ok _ (lookup?_apply target m)]
  rcases hvalue : m.scope.lookup? target with _ | value
  · rfl
  · cases value with
    | module id => exact absurd hvalue (h id)
    | _ => rfl

theorem failsInto_callMethod (span : Span) {target method : String} {args : List Expr}
    {excluded : Option String}
    (h : callMethod target method args excluded m = (.error stop, after)) :
    m.FailsInto after ((Stmt.callMethod span target method args excluded).unmatchedTurn? m) := by
  by_cases hmodule : ∃ id, m.scope.lookup? target = some (.module id)
  · obtain ⟨id, hid⟩ := hmodule
    -- No object is bound to the target, so there is nothing to turn.
    have hnone : (Stmt.callMethod span target method args excluded).unmatchedTurn? m = none := by
      unfold Stmt.unmatchedTurn? Machine.unmatchedTurn?
      split
      · split <;> simp_all [Value.object?]
      · rfl
    have hquiet : Quiet (evaluateAll args >>= fun values =>
        callMember target id method values >>= fun _ => pure ()) :=
      (quiet_evaluateAll args).bind fun values =>
        (quiet_callMember target id method values).bind fun _ => .pure ()
    unfold callMethod at h
    rw [bind_apply_of_ok _ (lookup?_apply target m), hid] at h
    rw [hnone]
    exact hquiet.rel h
  · rw [callMethod_of_not_module fun id hid => hmodule ⟨id, hid⟩] at h
    revert h
    split <;> intro h
    next => exact failsInto_callRotate h
    next => exact failsWithin_callMove target args m stop after h
    next => cases h

theorem failsInto_execute {s : Stmt} (hs : s.isSimple = true)
    (h : execute s m = (.error stop, after)) : m.FailsInto after (s.unmatchedTurn? m) := by
  cases s with
  | assign span name confined value =>
    exact failsWithin_assign span name confined value m stop after h
  | setProperty span target child property value =>
    exact (failsWithin_setProperty target child property value).placing span m stop after h
  | callMethod span target method args excluded =>
    obtain ⟨cause, hcause⟩ := exists_of_placing_eq_error h
    exact failsInto_callMethod span hcause
  | print span value => exact failsWithin_print span value m stop after h
  | _ => cases hs

/-- A turned record differs from the record before, unless the turn is no turn at all. -/
theorem growsTo_iff_of_failsInto {turn : Option (ObjectId × Float)} (h : m.FailsInto after turn) :
    m.GrowsTo after ↔ ∀ id angle, turn = some (id, angle) → m.store.hasObject id →
      (m.store.object id).turned angle = m.store.object id := by
  rcases turn with _ | ⟨id, angle⟩
  · exact iff_of_true h fun _ _ hturn => nomatch hturn
  obtain ⟨between, hbetween, rfl⟩ := h
  constructor
  · intro hgrows id' angle' hturn hid
    cases hturn
    have hafter := hgrows.store.object_eq id hid
    rw [Machine.turn, Store.object_modifyObject _ _ _ _ (hbetween.store.hasObject hid), if_pos rfl,
      hbetween.store.object_eq id hid] at hafter
    exact hafter
  · intro hsame
    exact {
      store := hbetween.store.modifyObject id (hsame id angle rfl)
      scope_eq := hbetween.scope_eq
      scene_eq := hbetween.scene_eq
      logs_eq := hbetween.logs_eq
      notices := hbetween.notices }

end Run

/-- A failing statement without blocks leaves records, scope, scene and logs as they were, unless it
is a `rotate` that excludes a name no object is bound to: then the target stays turned. -/
theorem Machine.fault_keeps_state_iff {m after : Machine} {s : Stmt} {stop : Stop}
    (hs : s.isSimple = true) (h : Run.execute s m = (.error stop, after)) :
    m.FailsInto after (s.unmatchedTurn? m) ∧
      (m.GrowsTo after ↔ ∀ id angle, s.unmatchedTurn? m = some (id, angle) →
        m.store.hasObject id → (m.store.object id).turned angle = m.store.object id) := by
  have hinto := Run.failsInto_execute hs h
  exact ⟨hinto, Run.growsTo_iff_of_failsInto hinto⟩

def Machine.ofGroup (name : String) : Machine where
  store := ⟨#[{ Object.ofShape (.group []) with id := name }], #[], #[]⟩
  scope := Scope.empty.assign name (.object ⟨0⟩)
  scene := Table.empty.insert name ⟨0⟩
  logs := #[]
  notices := #[]

/-- `a.rotate(90 not b)` without an object `b` fails, and `a` stays turned. -/
theorem Machine.ofGroup_turned_by_failing_rotate :
    let rotate := Stmt.callMethod default "a" "rotate" [.number default 90] (some "b")
    ∃ stop after, rotate.isSimple = true ∧
      Run.execute rotate (.ofGroup "a") = (.error stop, after) ∧
      ¬ (Machine.ofGroup "a").GrowsTo after := by
  intro rotate
  let after := (Run.execute rotate (.ofGroup "a")).2
  have hrun : Run.execute rotate (.ofGroup "a") =
      (.error (.fault (.placed (.missingObject "b") default)), after) := rfl
  have hturn : rotate.unmatchedTurn? (.ofGroup "a") = some (⟨0⟩, radians 90) := rfl
  refine ⟨_, after, rfl, hrun, fun hgrows => ?_⟩
  have hsame := (fault_keeps_state_iff rfl hrun).2.1 hgrows _ _ hturn Nat.zero_lt_one
  have hangle : (0 + radians 90 : Float) = 0 := congrArg (fun o : Object => o.rotation.y) hsame
  exact absurd hangle (by decide)

end SceneScript
