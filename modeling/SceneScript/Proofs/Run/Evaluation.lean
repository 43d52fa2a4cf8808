import SceneScript.Proofs.Run.Keeps
import SceneScript.Run.Execute

namespace SceneScript

/-- The modules and the records of the first store are those of the second, which may have more
records. -/
structure Store.GrowsTo (s t : Store) : Prop where
  modules : t.modules = s.modules
  size_le : s.objects.size ≤ t.objects.size
  object_eq : ∀ id, s.hasObject id → t.object id = s.object id

/-- A call draws from a generator and leaves the rest of the store as it was. -/
theorem Store.exists_of_call_eq_ok {s t : Store} {f : Native} {args : List Value} {value : Value}
    (h : s.call f args = .ok (value, t)) : ∃ generators, t =
      { s with generators := generators } := by
  unfold call at h
  dsimp only at h
  cases hc : f.function.call args (s.generators[f.library.index]?.getD (.ofSeed 0)) with
  | error failure => simp [hc, Except.map] at h
  | ok result =>
    simp only [hc, Except.map, Except.ok.injEq, Prod.mk.injEq] at h
    exact ⟨_, h.2.symm⟩

namespace Store.GrowsTo
variable {s t u : Store}

theorem refl (s : Store) : s.GrowsTo s := ⟨rfl, Nat.le_refl _, fun _ _ => rfl⟩

theorem hasObject (h : s.GrowsTo t) {id : ObjectId} (hid : s.hasObject id) : t.hasObject id :=
  Nat.lt_of_lt_of_le hid h.size_le

theorem exports_eq (h : s.GrowsTo t) (id : ModuleId) : t.exports id = s.exports id := by
  simp only [Store.exports, h.modules]

theorem trans (h : s.GrowsTo t) (h' : t.GrowsTo u) : s.GrowsTo u where
  modules := h'.modules.trans h.modules
  size_le := Nat.le_trans h.size_le h'.size_le
  object_eq id hid := (h'.object_eq id (h.hasObject hid)).trans (h.object_eq id hid)

theorem addObject (s : Store) (o : Object) : s.GrowsTo (s.addObject o).2 where
  modules := rfl
  size_le := by simp [Store.addObject]
  object_eq id hid := by
    have hne : id ≠ (s.addObject o).1 := by
      rintro rfl
      exact Nat.lt_irrefl _ hid
    rw [object_addObject, if_neg hne]

theorem call {f : Native} {args : List Value} {value : Value}
    (h : s.call f args = .ok (value, t)) : s.GrowsTo t := by
  obtain ⟨generators, rfl⟩ := exists_of_call_eq_ok h
  exact ⟨rfl, Nat.le_refl _, fun _ _ => rfl⟩

end Store.GrowsTo

/-- The machine after a run that changes nothing that was there: scope, scene and logs are the same,
the store may have grown, and only warnings were reported. -/
structure Machine.GrowsTo (m after : Machine) : Prop where
  store : m.store.GrowsTo after.store
  scope_eq : after.scope = m.scope
  scene_eq : after.scene = m.scene
  logs_eq : after.logs = m.logs
  notices : ∃ warnings : List Notice, after.notices.toList = m.notices.toList ++ warnings ∧
    ∀ n ∈ warnings, ∃ line concern, n = .warning line concern

namespace Machine.GrowsTo
variable {m between after : Machine}

theorem refl (m : Machine) : m.GrowsTo m := ⟨.refl _, rfl, rfl, rfl, [], by simp, by simp⟩

theorem trans (h : m.GrowsTo between) (h' : between.GrowsTo after) : m.GrowsTo after where
  store := h.store.trans h'.store
  scope_eq := h'.scope_eq.trans h.scope_eq
  scene_eq := h'.scene_eq.trans h.scene_eq
  logs_eq := h'.logs_eq.trans h.logs_eq
  notices := by
    obtain ⟨first, hfirst, hw⟩ := h.notices
    obtain ⟨second, hsecond, hw'⟩ := h'.notices
    refine ⟨first ++ second, by rw [hsecond, hfirst, List.append_assoc], fun n hn => ?_⟩
    rcases List.mem_append.1 hn with hn | hn
    · exact hw n hn
    · exact hw' n hn

theorem of_store {s : Store} (h : m.store.GrowsTo s) : m.GrowsTo { m with store := s } :=
  ⟨h, rfl, rfl, rfl, [], by simp, by simp⟩

instance : IsPreorder Machine Machine.GrowsTo where
  refl := refl
  trans _ _ _ := trans

end Machine.GrowsTo

namespace Run
variable {α β : Type}

abbrev Quiet (x : Run α) : Prop := Keeps Machine.GrowsTo x

theorem quiet_addObject (o : Object) : Quiet (addObject o) := fun m =>
    .of_store (.addObject m.store o)

theorem quiet_warn (span : Span) (concern : Concern) : Quiet (warn span concern) := by
  intro m
  rw [warn, notify_apply]
  exact ⟨.refl _, rfl, rfl, rfl, [.warning span.line concern], by simp, by simp⟩

theorem quiet_callNative (shownAs : String) (f : Native) (args : List Value) :
    Quiet (callNative shownAs f args) := by
  intro m
  unfold callNative
  rw [bind_apply_of_ok _ (getStore_apply m)]
  cases h : m.store.call f args with
  | error failure =>
    cases failure with
    | refused reason => exact .refl m
    | breakdown => exact .refl m
  | ok result => exact .of_store (.call h)

theorem Keeps.followMembers {R : Machine → Machine → Prop} [IsPreorder Machine R] (span : Span)
    (owner : String) (value : Value) (members : List String) :
    Keeps R (followMembers span owner value members) := by
  induction members generalizing owner value with
  | nil => exact .pure value
  | cons member more ih =>
    exact Keeps.getStore.bind fun _ => ((Keeps.ofOption _ _).placing span).bind fun found =>
      ih _ found

theorem quiet_callMember (owner : String) (id : ModuleId) (name : String) (args : List Value) :
    Quiet (callMember owner id name args) := by
  refine Keeps.getStore.bind fun store => ?_
  cases (store.exports id).get? name with
  | none => exact .fail _
  | some value =>
    cases value with
    | native f => exact quiet_callNative _ f args
    | _ => exact .fail _

theorem quiet_callName (callee : String) (args : List Value) : Quiet (callName callee args) := by
  refine Keeps.getStore.bind fun store => ?_
  cases (args.head?.getD .nil).convert? callee store.display with
  | some converted => exact .ofExcept converted
  | none =>
    refine (Keeps.lookup callee).bind fun value => ?_
    cases value with
    | native f => exact quiet_callNative _ f args
    | _ => exact .fail _

theorem quiet_callReceiver (receiver callee : String) (args : List Value) :
    Quiet (callReceiver receiver callee args) := by
  refine (Keeps.lookup receiver).bind fun value => ?_
  cases value with
  | module id => exact quiet_callMember receiver id callee args
  | _ => exact .fail _

theorem quiet_referredMaterial? (reference : MaterialRef) :
    Quiet (referredMaterial? reference) := by
  cases reference with
  | named name => exact (Keeps.lookup? name).bind fun _ => .pure _
  | member library item =>
    refine (Keeps.lookup? library).bind fun value => ?_
    rcases value with _ | value
    · exact .pure none
    · cases value with
      | module id => exact Keeps.getStore.bind fun _ => .pure _
      | _ => exact .pure none

theorem quiet_faceMaterial (span : Span) (reference : Option MaterialRef) :
    Quiet (faceMaterial span reference) := by
  cases reference with
  | none => exact .pure none
  | some reference =>
    refine (quiet_referredMaterial? reference).bind fun found => ?_
    cases found with
    | some m => exact .pure _
    | none => exact (quiet_warn span _).bind fun _ => .pure none

theorem quiet_buildFace (span : Span) (count : Nat) (face : FaceLiteral) :
    Quiet (buildFace span count face) := by
  unfold buildFace
  cases face.indices.find? (count ≤ ·) with
  | some index => exact .failAt _ _
  | none => exact (quiet_faceMaterial span face.material).bind fun _ => .pure _

theorem quiet_buildFaces (span : Span) (count : Nat) (faces : List FaceLiteral) :
    Quiet (buildFaces span count faces) := by
  induction faces with
  | nil => exact .pure []
  | cons face more ih =>
    exact (quiet_buildFace span count face).bind fun _ => ih.bind fun _ => .pure _

/-- A modifier only adds a record. -/
theorem Keeps.modified {R : Machine → Machine → Prop} [IsPreorder Machine R]
    (hadd : ∀ o, Keeps R (addObject o)) (span : Span) (kind : String) (props : Properties) :
    Keeps R (modified span kind props) := by
  unfold Run.modified
  rcases takeBase? props with _ | ⟨base, others⟩
  · exact .failAt _ _
  · cases base with
    | object id =>
      refine (Keeps.object id).bind fun o => ?_
      refine ((Keeps.ofExcept _).placing span).bind fun modifier => ?_
      refine ((Keeps.ofExcept _).placing span).bind fun changed => ?_
      exact (hadd changed).map _
    | _ => exact (Keeps.typeMismatch _ _).placing span

mutual
/-- Evaluating an expression leaves scope, scene, logs and the records of all objects alone. -/
theorem quiet_evaluate : ∀ e : Expr, Quiet (evaluate e)
  | .number _ x => .pure (Value.number x)
  | .string _ text => .pure (Value.string text)
  | .reference span name members =>
    ((Keeps.lookup name).placing span).bind fun value => .followMembers span name value members
  | .binary span _ left right =>
    (quiet_evaluate left).bind fun _ => (quiet_evaluate right).bind fun _ =>
      (Keeps.getStore.bind fun _ => .ofExcept _).placing span
  | .call span receiver callee args => by
    refine ((quiet_evaluateAll args).bind fun values => ?_).placing span
    cases receiver with
    | none => exact quiet_callName callee values
    | some receiver => exact quiet_callReceiver receiver callee values
  | .cube span vertices =>
    ((Keeps.ofExcept _).placing span).bind fun shape => (quiet_addObject (.ofShape shape)).map _
  | .mesh span vertices faces =>
    (quiet_buildFaces span vertices.length faces).bind fun _ => (quiet_addObject _).map _
  | .material span properties =>
    (quiet_evaluateProperties properties).bind fun _ => ((Keeps.ofExcept _).placing span).map _
  | .modifier span kind properties =>
    (quiet_evaluateProperties properties).bind fun props =>
      .modified quiet_addObject span kind props
  | .group _ _ => (quiet_addObject _).map _
theorem quiet_evaluateAll : ∀ es : List Expr, Quiet (evaluateAll es)
  | [] => .pure []
  | first :: more =>
    (quiet_evaluate first).bind fun _ => (quiet_evaluateAll more).bind fun _ => .pure _
theorem quiet_evaluateProperty : ∀ p : Property Expr, Quiet (evaluateProperty p)
  | .single _ e => (quiet_evaluate e).bind fun _ => .pure _
  | .list _ es => (quiet_evaluateAll es).bind fun _ => .pure _
theorem quiet_evaluateProperties : ∀ ps : List (Property Expr), Quiet (evaluateProperties ps)
  | [] => .pure []
  | first :: more =>
    (quiet_evaluateProperty first).bind fun _ => (quiet_evaluateProperties more).bind
      fun _ => .pure _
end

theorem quiet_evaluateNumber (e : Expr) : Quiet (evaluateNumber e) := by
  refine (quiet_evaluate e).bind fun value => ?_
  cases value.number? with
  | some x => exact .pure x
  | none => exact (Keeps.typeMismatch _ _).placing e.span

theorem quiet_evaluateTriple (t : Triple) : Quiet (evaluateTriple t) :=
  (quiet_evaluateNumber t.x).bind fun _ => (quiet_evaluateNumber t.y).bind fun _ =>
    (quiet_evaluateNumber t.z).bind fun _ => .pure _

theorem quiet_vectorOf (expected : String) (value : Value) : Quiet (vectorOf expected value) := by
  unfold vectorOf
  cases value.vector? with
  | some v => exact .pure v
  | none => exact .typeMismatch _ _

theorem quiet_evaluateVector (value : AssignedValue) : Quiet (evaluateVector value) := by
  cases value with
  | triple t => exact quiet_evaluateTriple t
  | expr e => exact (quiet_evaluate e).bind fun _ => quiet_vectorOf _ _
  | relative anchor offset => exact .fail _

theorem quiet_evaluatePosition (value : AssignedValue) : Quiet (evaluatePosition value) := by
  cases value with
  | relative anchor offset =>
    refine (Keeps.objectNamed anchor).bind fun id => (Keeps.object id).bind fun base => ?_
    cases offset with
    | some t => exact (quiet_evaluateTriple t).bind fun _ => .pure _
    | none => exact .pure _
  | expr e => exact quiet_evaluateVector (.expr e)
  | triple t => exact quiet_evaluateVector (.triple t)

theorem quiet_evaluateScale (value : AssignedValue) : Quiet (evaluateScale value) := by
  cases value with
  | expr e =>
    refine (quiet_evaluate e).bind fun value => ?_
    cases value with
    | number x => exact .pure _
    | _ => exact quiet_vectorOf _ _
  | triple t => exact quiet_evaluateVector (.triple t)
  | relative anchor offset => exact quiet_evaluateVector (.relative anchor offset)

theorem quiet_evaluateKnown? (e : Expr) : Quiet (evaluateKnown? e) := by
  intro m
  unfold evaluateKnown?
  rcases h : evaluate e m with ⟨(d | _) | value, after⟩
  · have hafter : m.GrowsTo after := (quiet_evaluate e).rel h
    have hwarned : Quiet (do warn e.span (.unresolvedMaterial d.cause); return none) :=
      (quiet_warn e.span _).bind fun _ => .pure (none : Option Value)
    -- The first two causes become warnings, any other fault goes on.
    dsimp only
    split
    · exact hafter.trans (hwarned after)
    · exact hafter.trans (hwarned after)
    · exact hafter
  · exact (quiet_evaluate e).rel h
  · exact (quiet_evaluate e).rel h

theorem quiet_evaluateMaterial (e : Expr) : Quiet (evaluateMaterial e) := by
  refine (quiet_evaluateKnown? e).bind fun known => ?_
  have hwarned : ∀ (value : Value) (found : Option Material), Quiet (do
      if found.isNone then warn e.span (.notAMaterial (← display value))
      return found) := by
    intro value found
    cases found with
    | some m => exact .pure _
    | none =>
      exact (Keeps.display value).bind fun _ => (quiet_warn e.span _).bind fun _ => .pure none
  rcases known with _ | value
  · exact .pure none
  · cases value with
    | nil => exact .pure none
    | material m => exact .pure _
    | string name => exact (Keeps.lookup? name).bind fun _ => (Keeps.pure _).bind (hwarned _)
    | _ => exact (Keeps.pure none).bind (hwarned _)

theorem quiet_selectObject (target : String) (child : Option String) :
    Quiet (selectObject target child) := by
  refine (Keeps.objectNamed target).bind fun id => ?_
  cases child with
  | none => exact .pure id
  | some child =>
    refine (Keeps.object id).bind fun o => ?_
    dsimp only
    split
    · exact .objectNamed child
    · exact (Keeps.fail _).bind fun _ => .objectNamed child

theorem quiet_readCounter (counter : String) : Quiet (readCounter counter) := by
  refine (Keeps.lookup counter).bind fun value => ?_
  cases value.number? with
  | some x => exact .pure x
  | none => exact .typeMismatch _ _

theorem quiet_nextStep? (span : Span) (counter : String) (stop : Expr) (step : Option Expr) :
    Quiet (nextStep? span counter stop step) := by
  refine ((quiet_readCounter counter).placing span).bind fun current => ?_
  refine ((quiet_evaluateNumber stop).placing span).bind fun last => ?_
  cases step with
  | some step => exact ((quiet_evaluateNumber step).placing span).bind fun _ => .pure _
  | none => exact (Keeps.pure 1).bind fun _ => .pure _

theorem quiet_conditionHolds? (span : Span) (condition : Expr) :
    Quiet (conditionHolds? span condition) :=
  ((quiet_evaluate condition).placing span).bind fun _ => .pure _

end Run
end SceneScript
