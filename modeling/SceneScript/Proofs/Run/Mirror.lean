import SceneScript.Proofs.Renaming
import SceneScript.Proofs.Run.Evaluation
import SceneScript.Proofs.Scope
import SceneScript.Run.Result

namespace SceneScript

theorem Table.map_insert {α β : Type} (f : α → β) (t : Table α) (name : String) (value : α) :
    (t.insert name value).map f = (t.map f).insert name (f value) := by
  apply Table.ext_get?
  intro other
  rw [get?_map, get?_insert, get?_insert, get?_map]
  split <;> rfl

/-! ### Stores -/

namespace Store
variable {r : Renaming} {s t : Store}

/-- The known objects and modules of the first store are those of the second, and what either store
adds next goes by one name. -/
structure Mirrors (r : Renaming) (s t : Store) : Prop where
  hasObject_iff : ∀ id, r.knowsObject id → (t.hasObject (r.object id) ↔ s.hasObject id)
  object_eq : ∀ id, r.knowsObject id → t.object (r.object id) = s.object id
  fresh : ∀ i, r.knowsObject ⟨s.objects.size + i⟩ ∧
    r.object ⟨s.objects.size + i⟩ = ⟨t.objects.size + i⟩
  exports_eq : ∀ id, r.knowsModule id → ∀ name,
    (t.exports (r.module id)).get? name = ((s.exports id).get? name).map (Value.rename r)
  exports_known : ∀ id, r.knowsModule id → ∀ name value,
    (s.exports id).get? name = some value → value.Known r

theorem Mirrors.display_rename (h : s.Mirrors r t) {value : Value} (hvalue : value.Known r) :
    t.display (value.rename r) = s.display value := by
  refine Value.display_rename (fun id hid => ?_) value hvalue
  rw [h.object_eq id hid]

theorem Mirrors.addObject (h : s.Mirrors r t) (o : Object) :
    (s.addObject o).2.Mirrors r (t.addObject o).2 ∧
      r.knowsObject (s.addObject o).1 ∧ r.object (s.addObject o).1 = (t.addObject o).1 := by
  have hnew : r.knowsObject (s.addObject o).1 ∧ r.object (s.addObject o).1 = (t.addObject o).1 :=
    h.fresh 0
  -- No older object goes by the name of the new one, as known objects keep apart.
  have hiff : ∀ id, r.knowsObject id →
    (r.object id = (t.addObject o).1 ↔ id = (s.addObject o).1) := by
    intro id hid
    constructor
    · intro heq
      exact r.object_inj _ _ hid hnew.1 (heq.trans hnew.2.symm)
    · rintro rfl
      exact hnew.2
  refine ⟨⟨fun id hid => ?_, fun id hid => ?_, fun i => ?_, h.exports_eq, h.exports_known⟩, hnew⟩
  · rw [hasObject_addObject, hasObject_addObject, h.hasObject_iff id hid, hiff id hid]
  · rw [object_addObject, object_addObject, h.object_eq id hid]
    simp only [hiff id hid]
  · have hnext := h.fresh (i + 1)
    simp only [Store.addObject, Array.size_push]
    rw [Nat.add_assoc, Nat.add_assoc, Nat.add_comm 1 i]
    exact hnext

theorem object_modifyObject_of_not_hasObject (s : Store) {id : ObjectId} (f : Object → Object)
    (h : ¬ s.hasObject id) : s.modifyObject id f = s := by
  have hobjects : s.objects.modify id.index f = s.objects := by
    apply Array.ext_getElem?
    intro i
    rw [Array.getElem?_modify]
    split
    next heq =>
      subst heq
      rw [Array.getElem?_eq_none (Nat.not_lt.1 h)]
      rfl
    next => rfl
  rw [Store.modifyObject, hobjects]

theorem Mirrors.modifyObject (h : s.Mirrors r t) {id : ObjectId} (hid : r.knowsObject id)
    (f : Object → Object) : (s.modifyObject id f).Mirrors r (t.modifyObject (r.object id) f) where
  hasObject_iff other hother := by
    rw [hasObject_modifyObject, hasObject_modifyObject]
    exact h.hasObject_iff other hother
  object_eq other hother := by
    have hiff : r.object other = r.object id ↔ other = id :=
      ⟨r.object_inj other id hother hid, fun heq => congrArg r.object heq⟩
    -- What is not in the one store is not in the other, and then neither is changed.
    by_cases hhas : s.hasObject id
    · rw [object_modifyObject _ _ _ _ hhas,
        object_modifyObject _ _ _ _ ((h.hasObject_iff id hid).2 hhas), h.object_eq other hother,
        h.object_eq id hid]
      simp only [hiff]
    · rw [object_modifyObject_of_not_hasObject s f hhas,
        object_modifyObject_of_not_hasObject t f fun hhas' =>
          hhas ((h.hasObject_iff id hid).1 hhas')]
      exact h.object_eq other hother
  fresh i := by
    simp only [Store.modifyObject, Array.size_modify]
    exact h.fresh i
  exports_eq := h.exports_eq
  exports_known := h.exports_known

theorem map_rename_of_inert {found : Option Value} (h : ∀ value, found = some value → value.Inert) :
    found.map (Value.rename r) = found ∧ ∀ value, found = some value → value.Known r := by
  cases found with
  | none => exact ⟨rfl, nofun⟩
  | some value =>
    refine ⟨congrArg some (h value rfl r).1, fun other hother => ?_⟩
    exact (h other hother r).2

theorem Mirrors.member? (h : s.Mirrors r t) {value : Value} (hvalue : value.Known r)
    (name : String) :
    t.member? (value.rename r) name = (s.member? value name).map (Value.rename r) ∧
      ∀ found, s.member? value name = some found → found.Known r := by
  -- Only a module has members that may have identities.
  have hinert (found : Option Value) (hfound : ∀ v, found = some v → v.Inert) :
      found = found.map (Value.rename r) ∧ ∀ v, found = some v → v.Known r :=
    ⟨(map_rename_of_inert hfound).1.symm, (map_rename_of_inert hfound).2⟩
  cases value with
  | module id => exact ⟨h.exports_eq id hvalue name, h.exports_known id hvalue name⟩
  | object id =>
    simp only [Value.rename, Store.member?, h.object_eq id hvalue]
    exact hinert _ fun _ => Object.inert_of_member?
  | vector v => exact hinert _ fun _ => Vector3.inert_of_member?
  | material m => exact hinert _ fun _ => Material.inert_of_member?
  | list items =>
    simp only [Value.rename, Store.member?, Value.length_renameAll]
    refine hinert _ fun v hv => ?_
    split at hv <;> cases hv
    exact Value.inert_number _
  | _ => exact ⟨rfl, nofun⟩

end Store

/-! ### Scopes -/

def Binding.rename (r : Renaming) (b : Binding) : Binding := ⟨b.value.rename r, b.origin⟩

def Frame.rename (r : Renaming) (frame : Frame) : Frame := frame.map (Binding.rename r)

theorem Frame.get?_rename (r : Renaming) (frame : Frame) (name : String) :
    (Frame.rename r frame).get? name = (frame.get? name).map (Binding.rename r) :=
  Table.get?_map _ frame name

theorem Frame.insert_rename (r : Renaming) (frame : Frame) (name : String) (b : Binding) :
    (Frame.rename r frame).insert name (b.rename r) = Frame.rename r (frame.insert name b) :=
  (Table.map_insert (Binding.rename r) frame name b).symm

theorem Binding.assign_rename (r : Renaming) (b : Binding) (value : Value) :
    (b.rename r).assign (value.rename r) = (b.assign value).rename r := rfl

namespace Scope
variable (r : Renaming) (s : Scope)

def rename : Scope := ⟨Frame.rename r s.file, s.blocks.map (Frame.rename r)⟩

theorem lookup?_rename (name : String) :
    (s.rename r).lookup? name = (s.lookup? name).map (Value.rename r) := by
  have hframes : (s.rename r).frames = s.frames.map (Frame.rename r) := by
    simp [frames, rename]
  rw [lookup?, lookup?, hframes, Option.map_map]
  induction s.frames with
  | nil => rfl
  | cons frame more ih =>
    rw [List.map_cons, List.findSome?_cons, List.findSome?_cons, Frame.get?_rename]
    cases frame.get? name with
    | none => exact ih
    | some b => rfl

theorem pop_rename : (s.rename r).pop = s.pop.rename r := by
  rw [pop, pop, rename, rename, List.map_tail]

theorem assignBlocks?_rename (name : String) (value : Value) (blocks : List Frame) :
    assignBlocks? name (value.rename r) (blocks.map (Frame.rename r)) =
      (assignBlocks? name value blocks).map (List.map (Frame.rename r)) := by
  induction blocks with
  | nil => rfl
  | cons inner outer ih =>
    rw [List.map_cons, assignBlocks?, assignBlocks?, Frame.get?_rename]
    cases inner.get? name with
    | none =>
      simp only [Option.map_none, ih, Option.map_map]
      rfl
    | some b =>
      simp only [Option.map_some, List.map_cons, Binding.assign_rename, Frame.insert_rename]

theorem assignFile_rename (frame : Frame) (name : String) (value : Value) :
    assignFile (Frame.rename r frame) name (value.rename r) =
      Frame.rename r (assignFile frame name value) := by
  rw [assignFile, assignFile, Frame.get?_rename]
  cases frame.get? name with
  | none => exact Frame.insert_rename r frame name ⟨value, .assigned⟩
  | some b => exact Frame.insert_rename r frame name (b.assign value)

theorem bind_rename (name : String) (confined : Bool) (value : Value) :
    (s.rename r).bind name confined (value.rename r) = (s.bind name confined value).rename r := by
  obtain ⟨file, blocks⟩ := s
  cases confined with
  | true =>
    have hconfined (frame : Frame) := Frame.insert_rename r frame name ⟨value, .confined⟩
    cases blocks with
    | nil => exact congrArg (Scope.mk · []) (hconfined file)
    | cons inner outer =>
      exact congrArg (fun frame => Scope.mk _ (frame :: _)) (hconfined inner)
  | false =>
    simp only [bind, Bool.false_eq_true, if_false, assign, rename, assignBlocks?_rename,
      assignFile_rename]
    cases assignBlocks? name value blocks <;> rfl

end Scope

/-! ### Machines and runs -/

/-- The machines are the same up to the renaming. -/
structure Machine.Mirrors (r : Renaming) (m n : Machine) : Prop where
  store : m.store.Mirrors r n.store
  scope_eq : n.scope = m.scope.rename r
  scope_known : ∀ value, m.scope.Binds value → value.Known r
  scene_eq : n.scene = m.scene.map r.object
  scene_known : ∀ name id, m.scene.get? name = some id → r.knowsObject id
  logs_eq : n.logs = m.logs
  notices_eq : n.notices = m.notices

namespace Renaming
variable (r : Renaming)

def SameObject (id other : ObjectId) : Prop := other = r.object id ∧ r.knowsObject id

def SameValue (value other : Value) : Prop := other = value.rename r ∧ value.Known r

def SameValues (values others : List Value) : Prop :=
  others = Value.renameAll r values ∧ Value.AllKnown r values

def SameEntry (entry other : String × Value) : Prop :=
  other = (entry.1, entry.2.rename r) ∧ entry.2.Known r

def SameProperties (props others : Properties) : Prop := others = props.rename r ∧ props.Known r

variable {r}

/-- What is looked up on both sides. -/
theorem rel_of_map {found other : Option Value} (h : other = found.map (Value.rename r))
    (hknown : ∀ value, found = some value → value.Known r) :
      Option.Rel r.SameValue found other := by
  rw [h]
  cases found with
  | none => exact .none
  | some value => exact .some ⟨rfl, hknown value rfl⟩

theorem SameValues.cons {value other : Value} {values others : List Value}
    (h : r.SameValue value other) (hmore : r.SameValues values others) :
    r.SameValues (value :: values) (other :: others) := by
  rw [h.1, hmore.1]
  exact ⟨rfl, h.2, hmore.2⟩

theorem SameProperties.cons {entry other : String × Value} {props others : Properties}
    (h : r.SameEntry entry other) (hmore : r.SameProperties props others) :
    r.SameProperties (entry :: props) (other :: others) := by
  rw [h.1, hmore.1]
  exact ⟨rfl, List.forall_mem_cons.2 ⟨h.2, hmore.2⟩⟩

theorem SameValues.head {values others : List Value} (h : r.SameValues values others) :
    r.SameValue (values.head?.getD .nil) (others.head?.getD .nil) := by
  obtain ⟨rfl, hknown⟩ := h
  cases values with
  | nil => exact ⟨rfl, trivial⟩
  | cons first more => exact ⟨rfl, hknown.1⟩

end Renaming

namespace Run
variable {α β : Type} {r : Renaming} {V : α → α → Prop} {W : β → β → Prop}

/-- Two runs end alike: with values that are related, or at the same stop. -/
inductive Agree (V : α → α → Prop) : Except Stop α → Except Stop α → Prop
  | ok {a b : α} : V a b → Agree V (.ok a) (.ok b)
  | error (stop : Stop) : Agree V (.error stop) (.error stop)

theorem Agree.cases {a b : Except Stop α} (h : Agree V a b) :
    (∃ x y, a = .ok x ∧ b = .ok y ∧ V x y) ∨ ∃ stop, a = .error stop ∧ b = .error stop := by
  cases h with
  | ok h => exact .inl ⟨_, _, rfl, rfl, h⟩
  | error stop => exact .inr ⟨stop, rfl, rfl⟩

theorem Agree.mapError {a b : Except Stop α} (h : Agree V a b) (f : Stop → Stop) :
    Agree V (a.mapError f) (b.mapError f) := by
  cases h with
  | ok hab => exact .ok hab
  | error stop => exact .error (f stop)

/-- On machines that mirror each other the runs end alike, and leave such machines. -/
def Mirrors (r : Renaming) (V : α → α → Prop) (x y : Run α) : Prop :=
  ∀ m n : Machine, m.Mirrors r n → Agree V (x m).1 (y n).1 ∧ (x m).2.Mirrors r (y n).2

section Laws
variable {x y : Run α} {f g : α → Run β}

theorem Mirrors.pure {a b : α} (h : V a b) : Mirrors r V (pure a) (pure b) :=
  fun _ _ hmn => ⟨.ok h, hmn⟩

theorem Mirrors.throw (stop : Stop) : Mirrors r V (throw stop) (throw stop) :=
  fun _ _ hmn => ⟨.error stop, hmn⟩

theorem Mirrors.fail (cause : Cause) : Mirrors r V (fail cause) (fail cause) := .throw _

theorem Mirrors.failAt (cause : Cause) (span : Span) :
    Mirrors r V (failAt cause span) (failAt cause span) := .throw _

theorem Mirrors.typeMismatch (expected : String) {value other : Value}
    (h : r.SameValue value other) :
    Mirrors r V (typeMismatch expected value) (typeMismatch expected other) := by
  rw [h.1, Run.typeMismatch, Run.typeMismatch, Value.type_rename]
  exact .fail _

theorem Mirrors.bind (hx : Mirrors r V x y) (hf : ∀ a b, V a b → Mirrors r W (f a) (g b)) :
    Mirrors r W (x >>= f) (y >>= g) := by
  intro m n hmn
  obtain ⟨hagree, hafter⟩ := hx m n hmn
  rcases hm : x m with ⟨a, after⟩
  rcases hn : y n with ⟨b, after'⟩
  rw [hm, hn] at hagree hafter
  cases hagree with
  | ok hab =>
    rw [bind_apply_of_ok f hm, bind_apply_of_ok g hn]
    exact hf _ _ hab after after' hafter
  | error stop =>
    rw [bind_apply_of_error f hm, bind_apply_of_error g hn]
    exact ⟨.error stop, hafter⟩

/-- Where the first parts come to one and the same value. -/
theorem Mirrors.bind_eq {x y : Run α} (hx : Mirrors r Eq x y)
    (hf : ∀ a, Mirrors r W (f a) (g a)) : Mirrors r W (x >>= f) (y >>= g) := by
  refine hx.bind fun a b hab => ?_
  rw [hab]
  exact hf b

theorem Mirrors.map {h : α → β} (hx : Mirrors r V x y) (hh : ∀ a b, V a b → W (h a) (h b)) :
    Mirrors r W (h <$> x) (h <$> y) := by
  rw [map_eq_pure_bind, map_eq_pure_bind]
  exact hx.bind fun a b hab => .pure (hh a b hab)

theorem Mirrors.placing (span : Span) (h : Mirrors r V x y) :
    Mirrors r V (placing span x) (placing span y) := by
  intro m n hmn
  obtain ⟨hagree, hafter⟩ := h m n hmn
  exact ⟨hagree.mapError (Stop.orSpan span), hafter⟩

theorem Mirrors.ofExcept (e : Except Cause α) : Mirrors r Eq (ofExcept e) (ofExcept e) := by
  cases e with
  | error cause => exact .fail cause
  | ok a => exact .pure rfl

theorem Mirrors.ofExcept_of_inert {e : Except Cause Value}
    (h : ∀ value, e = .ok value → value.Inert) :
    Mirrors r r.SameValue (Run.ofExcept e) (Run.ofExcept e) := by
  cases e with
  | error cause => exact .fail cause
  | ok value => exact .pure ⟨(h value rfl r).1.symm, (h value rfl r).2⟩

theorem Mirrors.ofOption (cause : Cause) {o o' : Option α} (h : Option.Rel V o o') :
    Mirrors r V (ofOption cause o) (ofOption cause o') := by
  cases h with
  | none => exact .fail cause
  | some h => exact .pure h

end Laws

/-! ### Looking at machines and changing them -/

theorem mirrors_get : Mirrors r (Machine.Mirrors r) get get := fun _ _ hmn => ⟨.ok hmn, hmn⟩

theorem mirrors_getStore : Mirrors r (Store.Mirrors r) getStore getStore :=
  fun _ _ hmn => ⟨.ok hmn.store, hmn⟩

theorem mirrors_lookup? (name : String) :
    Mirrors r (Option.Rel r.SameValue) (lookup? name) (lookup? name) := by
  intro m n hmn
  refine ⟨?_, hmn⟩
  rw [lookup?_apply, lookup?_apply, hmn.scope_eq, Scope.lookup?_rename]
  cases hvalue : m.scope.lookup? name with
  | none => exact .ok .none
  | some value => exact .ok (.some ⟨rfl, hmn.scope_known value (Scope.binds_of_lookup? hvalue)⟩)

theorem mirrors_lookup (name : String) : Mirrors r r.SameValue (lookup name) (lookup name) :=
  (mirrors_lookup? name).bind fun _ _ h => .ofOption _ h

theorem rel_object? {found other : Option Value} (h : Option.Rel r.SameValue found other) :
    Option.Rel r.SameObject (found.bind Value.object?) (other.bind Value.object?) := by
  cases h with
  | none => exact .none
  | @some value _ h =>
    obtain ⟨rfl, hknown⟩ := h
    rw [Option.bind_some, Option.bind_some, Value.object?_rename]
    cases hid : value.object? with
    | none => exact .none
    | some id => exact .some ⟨rfl, Value.knowsObject_of_object? hknown hid⟩

theorem mirrors_objectNamed (name : String) :
    Mirrors r r.SameObject (objectNamed name) (objectNamed name) :=
  (mirrors_lookup? name).bind fun _ _ h => .ofOption _ (rel_object? h)

theorem mirrors_object {id other : ObjectId} (h : r.SameObject id other) :
    Mirrors r Eq (object id) (object other) := by
  intro m n hmn
  refine ⟨?_, hmn⟩
  rw [object_apply, object_apply, h.1, hmn.store.object_eq id h.2]
  exact .ok rfl

theorem mirrors_display {value other : Value} (h : r.SameValue value other) :
    Mirrors r Eq (display value) (display other) := by
  refine mirrors_getStore.bind fun s t hst => .pure ?_
  rw [h.1, hst.display_rename h.2]

theorem mirrors_addObject (o : Object) : Mirrors r r.SameObject (addObject o) (addObject o) := by
  intro m n hmn
  obtain ⟨hstore, hknown, hid⟩ := hmn.store.addObject o
  exact ⟨.ok ⟨hid.symm, hknown⟩, { hmn with store := hstore }⟩

theorem mirrors_newObject (o : Object) :
    Mirrors r r.SameValue (.object <$> addObject o) (.object <$> addObject o) :=
  (mirrors_addObject o).map fun _ _ h => ⟨congrArg Value.object h.1, h.2⟩

theorem mirrors_modifyObject {id other : ObjectId} (h : r.SameObject id other)
    (f : Object → Object) : Mirrors r Eq (modifyObject id f) (modifyObject other f) := by
  intro m n hmn
  rw [h.1]
  exact ⟨.ok rfl, { hmn with store := hmn.store.modifyObject h.2 f }⟩

theorem mirrors_bindName (name : String) (confined : Bool) {value other : Value}
    (h : r.SameValue value other) : Mirrors r Eq (modifyScope (·.bind name confined value))
      (modifyScope (·.bind name confined other)) := by
  intro m n hmn
  obtain ⟨rfl, hknown⟩ := h
  refine ⟨.ok rfl, { hmn with scope_eq := ?_, scope_known := fun v hv => ?_ }⟩
  · exact (congrArg (·.bind name confined (value.rename r)) hmn.scope_eq).trans
      (Scope.bind_rename r m.scope name confined value)
  · rcases Scope.binds_bind hv with rfl | hold
    · exact hknown
    · exact hmn.scope_known v hold

theorem mirrors_show (name : String) {id other : ObjectId} (h : r.SameObject id other) :
    Mirrors r Eq (modify fun m => { m with scene := m.scene.insert name id })
      (modify fun m => { m with scene := m.scene.insert name other }) := by
  intro m n hmn
  refine ⟨.ok rfl, { hmn with scene_eq := ?_, scene_known := fun shown shownId hshown => ?_ }⟩
  · refine (congrArg (·.insert name other) hmn.scene_eq).trans ?_
    rw [h.1]
    exact (Table.map_insert r.object m.scene name id).symm
  · have hget : (m.scene.insert name id).get? shown = some shownId := hshown
    rw [Table.get?_insert] at hget
    split at hget
    · cases hget
      exact h.2
    · exact hmn.scene_known shown shownId hget

theorem mirrors_say (line : String) : Mirrors r Eq (say line) (say line) := by
  intro m n hmn
  exact ⟨.ok rfl, { hmn with logs_eq := congrArg (·.push line) hmn.logs_eq }⟩

theorem mirrors_notify (notice : Notice) : Mirrors r Eq (notify notice) (notify notice) := by
  intro m n hmn
  exact ⟨.ok rfl, { hmn with notices_eq := congrArg (·.push notice) hmn.notices_eq }⟩

theorem mirrors_inBlock {x y : Run α} (h : Mirrors r V x y) :
    Mirrors r V (inBlock x) (inBlock y) := by
  intro m n hmn
  have hpush : Machine.Mirrors r { m with scope := m.scope.push } { n with scope :=
    n.scope.push } :=
    { hmn with
      scope_eq := congrArg Scope.push hmn.scope_eq
      scope_known := fun value hvalue => hmn.scope_known value (Scope.binds_push hvalue) }
  obtain ⟨hagree, hafter⟩ := h _ _ hpush
  exact ⟨hagree, { hafter with
    scope_eq := (congrArg Scope.pop hafter.scope_eq).trans (Scope.pop_rename r _)
    scope_known := fun value hvalue => hafter.scope_known value (Scope.binds_pop hvalue) }⟩

end Run
end SceneScript
