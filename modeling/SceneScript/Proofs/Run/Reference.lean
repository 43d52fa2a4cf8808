import SceneScript.Proofs.Renaming
import SceneScript.Proofs.Run.Evaluation
import SceneScript.Proofs.Scope

namespace SceneScript

theorem Value.eq_object_of_object? {value : Value} {id : ObjectId} (h : value.object? = some id) :
    value = .object id := by
  cases value <;> cases h
  rfl

def Store.Holds (s : Store) (value : Value) : Prop := ∀ id, value.object? = some id → s.hasObject id

def Store.Closed (s : Store) : Prop :=
  ∀ id name value, (s.exports id).get? name = some value → s.Holds value

namespace Store
variable {s t : Store} {value : Value}

theorem holds_of_object?_eq_none (s : Store) (h : value.object? = none) : s.Holds value :=
  fun _ hid => nomatch h.symm.trans hid

theorem Holds.grow (h : s.GrowsTo t) (hv : s.Holds value) : t.Holds value :=
  fun id hid => h.hasObject (hv id hid)

theorem Closed.grow (h : s.GrowsTo t) (hs : s.Closed) : t.Closed := by
  intro id name value hvalue
  rw [h.exports_eq] at hvalue
  exact (hs id name value hvalue).grow h

theorem holds_addObject (s : Store) (o : Object) :
    (s.addObject o).2.Holds (.object (s.addObject o).1) := by
  intro id hid
  cases hid
  exact (hasObject_addObject s o _).2 (.inr rfl)

theorem holds_of_member? {name : String} {found : Value} (hs : s.Closed)
    (h : s.member? value name = some found) : s.Holds found := by
  cases value with
  | module id => exact hs id name found h
  | object id => exact s.holds_of_object?_eq_none (Object.inert_of_member? h).object?_eq_none
  | vector v => exact s.holds_of_object?_eq_none (Vector3.inert_of_member? h).object?_eq_none
  | material m => exact s.holds_of_object?_eq_none (Material.inert_of_member? h).object?_eq_none
  | list items =>
    simp only [Store.member?] at h
    split at h <;> cases h
    exact s.holds_of_object?_eq_none rfl
  | _ => cases h

end Store

/-- Every object that scope, scene and modules refer to is in the store. -/
structure Machine.Grounded (m : Machine) : Prop where
  closed : m.store.Closed
  scope : ∀ value, m.scope.Binds value → m.store.Holds value
  scene : ∀ name id, m.scene.get? name = some id → m.store.hasObject id

theorem Machine.Grounded.grow {m after : Machine} (hm : m.Grounded) (h : m.GrowsTo after) :
    after.Grounded where
  closed := hm.closed.grow h.store
  scope value hvalue := (hm.scope value (h.scope_eq ▸ hvalue)).grow h.store
  scene name id hid := h.store.hasObject (hm.scene name id (h.scene_eq ▸ hid))

theorem Machine.Grounded.hasObject_of_lookup? {m : Machine} (hm : m.Grounded) {name : String}
    {id : ObjectId} (h : (m.scope.lookup? name).bind Value.object? = some id) :
    m.store.hasObject id := by
  obtain ⟨value, hvalue, hid⟩ := Option.bind_eq_some_iff.1 h
  exact hm.scope value (Scope.binds_of_lookup? hvalue) id hid

namespace Run

abbrev YieldsHeld (x : Run Value) : Prop := Yields (fun after value => after.store.Holds value) x

theorem yieldsHeld_pure {value : Value} (h : value.object? = none) : YieldsHeld (pure value) :=
  .pure fun m => m.store.holds_of_object?_eq_none h

theorem yieldsHeld_addObject (o : Object) : YieldsHeld (.object <$> addObject o) := by
  intro m value after h
  cases h
  exact Store.holds_addObject m.store o

theorem yieldsHeld_callNative (shownAs : String) (f : Native) (args : List Value) :
    YieldsHeld (callNative shownAs f args) := by
  refine .bind fun store => ?_
  cases hcall : store.call f args with
  | error failure =>
    cases failure with
    | refused reason => exact .fail _
    | breakdown => exact .throw _
  | ok result =>
    have hyields : Builtin.Yields (·.1.isNumeric = true) (store.call f args) :=
      .map (Builtin.yields_call f.function args _)
    have hnone : result.1.object? = none :=
      (Value.inert_of_isNumeric (hyields result hcall)).object?_eq_none
    exact .bind fun _ => yieldsHeld_pure hnone

theorem yieldsHeld_callMember (owner : String) (id : ModuleId) (name : String) (args : List Value) :
    YieldsHeld (callMember owner id name args) := by
  refine .bind fun store => ?_
  cases (store.exports id).get? name with
  | none => exact .fail _
  | some value =>
    cases value with
    | native f => exact yieldsHeld_callNative _ f args
    | _ => exact .fail _

theorem yieldsHeld_callName (callee : String) (args : List Value) :
    YieldsHeld (callName callee args) := by
  refine .bind fun store => ?_
  cases hconvert : (args.head?.getD .nil).convert? callee store.display with
  | some converted =>
    cases converted with
    | error cause => exact .fail cause
    | ok value => exact yieldsHeld_pure (Value.inert_of_convert? hconvert).object?_eq_none
  | none =>
    refine .bind fun value => ?_
    cases value with
    | native f => exact yieldsHeld_callNative _ f args
    | _ => exact .fail _

theorem yieldsHeld_callReceiver (receiver callee : String) (args : List Value) :
    YieldsHeld (callReceiver receiver callee args) := by
  refine .bind fun value => ?_
  cases value with
  | module id => exact yieldsHeld_callMember receiver id callee args
  | _ => exact .fail _

theorem yieldsHeld_modified (span : Span) (kind : String) (props : Properties) :
    YieldsHeld (modified span kind props) := by
  unfold modified
  rcases takeBase? props with _ | ⟨base, others⟩
  · exact .failAt _ _
  · cases base with
    | object id => exact .bind fun _ => .bind fun _ => .bind fun _ => yieldsHeld_addObject _
    | _ => exact Yields.placing span (.fail _)

variable {m after : Machine} {value : Value}

theorem holds_of_followMembers {span : Span} {owner : String} {members : List String}
    {first : Value} (hm : m.store.Closed) (hfirst : m.store.Holds first)
    (h : followMembers span owner first members m = (.ok value, after)) :
    after.store.Holds value := by
  induction members generalizing owner first with
  | nil =>
    cases h
    exact hfirst
  | cons member more ih =>
    rw [followMembers, bind_apply_of_ok _ (getStore_apply m)] at h
    obtain ⟨found, between, hfound, hrest⟩ := exists_of_bind_eq_ok h
    obtain ⟨hmember, rfl⟩ := ofOption_eq_ok (placing_eq_ok hfound)
    exact ih (Store.holds_of_member? hm hmember) hrest

/-- An object that an expression evaluates to is in the store: it is new, or a name or a module
refers to it. -/
theorem holds_of_evaluate {e : Expr} (hm : m.Grounded) (h : evaluate e m = (.ok value, after)) :
    after.store.Holds value := by
  -- Only a reference can come to an object that was there before; all others are new or no objects.
  cases e <;> rw [evaluate] at h
  case number span x =>
    cases h
    exact Store.holds_of_object?_eq_none _ rfl
  case string span text =>
    cases h
    exact Store.holds_of_object?_eq_none _ rfl
  case reference span name members =>
    obtain ⟨first, between, hfirst, hrest⟩ := exists_of_bind_eq_ok h
    obtain ⟨hlookup, rfl⟩ := lookup_eq_ok (placing_eq_ok hfirst)
    exact holds_of_followMembers hm.closed (hm.scope _ (Scope.binds_of_lookup? hlookup)) hrest
  case binary span op left right =>
    obtain ⟨l, _, -, h⟩ := exists_of_bind_eq_ok h
    obtain ⟨r, between, -, h⟩ := exists_of_bind_eq_ok h
    have happly := placing_eq_ok h
    rw [bind_apply_of_ok _ (getStore_apply between)] at happly
    obtain ⟨happly, -⟩ := ofExcept_eq_ok happly
    exact Store.holds_of_object?_eq_none _ (BinaryOp.inert_of_apply happly).object?_eq_none
  case call span receiver callee args =>
    obtain ⟨values, between, -, hcall⟩ := exists_of_bind_eq_ok (placing_eq_ok h)
    cases receiver with
    | none => exact yieldsHeld_callName callee values between value after hcall
    | some receiver =>
      exact yieldsHeld_callReceiver receiver callee values between value after hcall
  case cube span vertices =>
    exact Yields.bind (fun _ => yieldsHeld_addObject _) m value after h
  case mesh span vertices faces =>
    exact Yields.bind (fun _ => yieldsHeld_addObject _) m value after h
  case material span properties =>
    obtain ⟨props, between, -, hmade⟩ := exists_of_bind_eq_ok h
    rw [map_eq_pure_bind] at hmade
    exact Yields.bind (fun _ => yieldsHeld_pure rfl) between value after hmade
  case modifier span kind properties =>
    exact Yields.bind (fun _ => yieldsHeld_modified span kind _) m value after h
  case group span children => exact yieldsHeld_addObject _ m value after h

end Run
end SceneScript
